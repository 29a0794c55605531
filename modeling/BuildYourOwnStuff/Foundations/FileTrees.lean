import Mathlib.Data.List.Infix

/-!
# File trees and paths

A path is a list of moves through a tree of directories. What is read at its end is
settled by the part of the tree below a base exactly when the path keeps to this part
and to the directories above it, or when it ends where only a directory can be.
-/

namespace BuildYourOwnStuff.Foundations

variable {ν γ : Type*}

inductive Node (γ : Type*)
  | directory
  | file (content : γ)

/-- What is at each location; only a directory has something below it. -/
structure FileTree (ν γ : Type*) where
  node : List ν → Option (Node γ)
  root : node [] = some .directory
  parent : ∀ p name, node (p ++ [name]) ≠ none → node p = some .directory

inductive Move (ν : Type*)
  | stay
  | up
  | down (name : ν)
  deriving DecidableEq

/-- The root is above itself. -/
def Move.apply (p : List ν) : Move ν → List ν
  | .stay => p
  | .up => p.dropLast
  | .down name => p ++ [name]

/-- The locations from which the moves are made. -/
def visited (p : List ν) : List (Move ν) → List (List ν)
  | [] => []
  | m :: moves => p :: visited (m.apply p) moves

def destination (p : List ν) (moves : List (Move ν)) : List ν := moves.foldl Move.apply p

/-- No location of the path is beside the base. -/
def Confined (base p : List ν) (moves : List (Move ν)) : Prop :=
  ∀ q ∈ destination p moves :: visited p moves, base <+: q ∨ q <+: base

/-- The path ends above the base, or at or above a location from which a move is made. -/
def DeadEnd (base p : List ν) (moves : List (Move ν)) : Prop :=
  ∃ q ∈ base :: visited p moves, destination p moves <+: q

/-- The locations that have to be directories for a file where a path leads; what is above
them then is one, too. -/
def needed (p : List ν) (moves : List (Move ν)) : List (List ν) :=
  (destination p moves).dropLast :: visited p moves

/-- All that the first path needs is at or above what the second one needs. -/
def NeedsNoMore (p : List ν) (moves moves' : List (Move ν)) : Prop :=
  ∀ v ∈ needed p moves, ∃ w ∈ needed p moves', v <+: w

/-- The paths lead to the same place and need the same directories. -/
structure SameFile (p : List ν) (moves moves' : List (Move ν)) : Prop where
  destination_eq : destination p moves = destination p moves'
  forth : NeedsNoMore p moves moves'
  back : NeedsNoMore p moves' moves

theorem SameFile.refl (p : List ν) (moves : List (Move ν)) : SameFile p moves moves :=
  ⟨rfl, fun v hv => ⟨v, hv, List.prefix_rfl⟩, fun v hv => ⟨v, hv, List.prefix_rfl⟩⟩

/-- Moves that never go up stay at a location or below it. -/
theorem below_of_notMem_up {base p : List ν} {moves : List (Move ν)} (hp : base <+: p)
    (h : .up ∉ moves) : ∀ q ∈ destination p moves :: visited p moves, base <+: q := by
  induction moves generalizing p with
  | nil => simpa [destination, visited] using hp
  | cons m moves ih =>
    rw [List.mem_cons, not_or] at h
    have hnext : base <+: m.apply p := by
      cases m with
      | stay => exact hp
      | up => exact absurd rfl h.1
      | down name => exact hp.trans (List.prefix_append p [name])
    intro q hq
    rw [destination, List.foldl_cons, ← destination, visited, List.mem_cons, List.mem_cons] at hq
    rcases hq with hq | rfl | hq
    · exact ih hnext h.2 q (hq ▸ List.mem_cons_self)
    · exact hp
    · exact ih hnext h.2 q (List.mem_cons_of_mem _ hq)

/-- A path into the base that never goes up. -/
theorem confined_of_notMem_up {p : List ν} {name : ν} {moves : List (Move ν)} (h : .up ∉ moves) :
    Confined (p ++ [name]) p (.down name :: moves) := by
  have hbelow := below_of_notMem_up (List.prefix_rfl (l := p ++ [name])) h
  intro q hq
  rw [destination, List.foldl_cons, ← destination, visited, List.mem_cons, List.mem_cons] at hq
  rcases hq with hq | rfl | hq
  · exact .inl (hbelow q (hq ▸ List.mem_cons_self))
  · exact .inr (List.prefix_append q [name])
  · exact .inl (hbelow q (List.mem_cons_of_mem _ hq))

instance [DecidableEq ν] (base p : List ν) (moves : List (Move ν)) :
    Decidable (Confined base p moves) := by
  unfold Confined
  infer_instance

instance [DecidableEq ν] (base p : List ν) (moves : List (Move ν)) :
    Decidable (DeadEnd base p moves) := by
  unfold DeadEnd
  infer_instance

namespace FileTree

/-- Each move needs a directory to start from. -/
def walk (t : FileTree ν γ) (p : List ν) : List (Move ν) → Option (Node γ)
  | [] => t.node p
  | m :: moves =>
    match t.node p with
    | some .directory => t.walk (m.apply p) moves
    | _ => none

/-- The content of the file to which the moves lead. -/
def read (t : FileTree ν γ) (p : List ν) (moves : List (Move ν)) : Option γ :=
  match t.walk p moves with
  | some (.file content) => some content
  | _ => none

/-- Two trees have a directory at the base, and all that is below it, in common. -/
structure Agree (base : List ν) (t t' : FileTree ν γ) : Prop where
  directory : t.node base = some .directory
  below : ∀ p, base <+: p → t.node p = t'.node p

theorem walk_eq_some_iff (t : FileTree ν γ) (p : List ν) (moves : List (Move ν)) (n : Node γ) :
    t.walk p moves = some n ↔
      (∀ q ∈ visited p moves, t.node q = some .directory) ∧
        t.node (destination p moves) = some n := by
  induction moves generalizing p with
  | nil => simp [walk, visited, destination]
  | cons m moves ih =>
    rw [visited, List.forall_mem_cons, destination, List.foldl_cons, ← destination, walk, and_assoc,
      ← ih]
    rcases hp : t.node p with _ | ⟨_ | _⟩ <;> simp

theorem read_eq_some_iff (t : FileTree ν γ) (p : List ν) (moves : List (Move ν)) (c : γ) :
    t.read p moves = some c ↔
      (∀ q ∈ visited p moves, t.node q = some .directory) ∧
        t.node (destination p moves) = some (.file c) := by
  rw [← walk_eq_some_iff, read]
  rcases t.walk p moves with _ | ⟨_ | _⟩ <;> simp

/-- Above a node there are directories only. -/
theorem node_of_isPrefix (t : FileTree ν γ) {p q : List ν} (h : p <+: q) (hne : p ≠ q)
    (hq : t.node q ≠ none) : t.node p = some .directory := by
  obtain ⟨r, rfl⟩ := h
  induction r using List.reverseRecOn with
  | nil => exact absurd (List.append_nil p).symm hne
  | append_singleton r name ih =>
    rw [← List.append_assoc] at hq
    have hdir := t.parent (p ++ r) name hq
    by_cases hr : p = p ++ r
    · rwa [← hr] at hdir
    · exact ih hr (by simp [hdir])

theorem directory_of_isPrefix (t : FileTree ν γ) {p q : List ν} (h : p <+: q)
    (hq : t.node q = some .directory) : t.node p = some .directory := by
  by_cases hne : p = q
  · rw [hne, hq]
  · exact t.node_of_isPrefix h hne (by simp [hq])

theorem Agree.symm {base : List ν} {t t' : FileTree ν γ} (h : Agree base t t') :
    Agree base t' t where
  directory := by rw [← h.below base List.prefix_rfl, h.directory]
  below p hp := (h.below p hp).symm

theorem Agree.node_eq {base q : List ν} {t t' : FileTree ν γ} (h : Agree base t t')
    (hq : base <+: q ∨ q <+: base) : t.node q = t'.node q := by
  rcases hq with hbelow | habove
  · exact h.below q hbelow
  · rw [t.directory_of_isPrefix habove h.directory,
      t'.directory_of_isPrefix habove h.symm.directory]

theorem Agree.read_eq {base p : List ν} {t t' : FileTree ν γ} {moves : List (Move ν)}
    (h : Agree base t t') (hconfined : Confined base p moves) :
    t.read p moves = t'.read p moves := by
  have hdest := h.node_eq (hconfined _ List.mem_cons_self)
  have hvisited : (∀ q ∈ visited p moves, t.node q = some .directory) ↔
      ∀ q ∈ visited p moves, t'.node q = some .directory := by
    refine forall₂_congr fun q hq => ?_
    rw [h.node_eq (hconfined q (List.mem_cons_of_mem _ hq))]
  apply Option.ext
  intro c
  rw [read_eq_some_iff, read_eq_some_iff, hdest, hvisited]

/-- There is no file where a dead end leads. -/
theorem read_of_deadEnd {base p : List ν} (t : FileTree ν γ) {moves : List (Move ν)}
    (hbase : t.node base = some .directory) (h : DeadEnd base p moves) :
    t.read p moves = none := by
  obtain ⟨q, hq, habove⟩ := h
  apply Option.eq_none_iff_forall_ne_some.mpr
  intro c hc
  obtain ⟨hdirs, hfile⟩ := (t.read_eq_some_iff p moves c).mp hc
  have hdir : t.node q = some .directory := by
    rcases List.mem_cons.mp hq with rfl | hq
    · exact hbase
    · exact hdirs q hq
  rw [t.directory_of_isPrefix habove hdir] at hfile
  cases hfile

/-- A file is read exactly if the directories that its path needs are there. -/
theorem read_eq_some_iff_needed (t : FileTree ν γ) (p : List ν) (moves : List (Move ν)) (c : γ) :
    t.read p moves = some c ↔
      (∀ q ∈ needed p moves, t.node q = some .directory) ∧
        t.node (destination p moves) = some (.file c) := by
  rw [read_eq_some_iff, needed, List.forall_mem_cons, and_assoc]
  refine ⟨fun h => ⟨?_, h⟩, fun h => h.2⟩
  have hroot : destination p moves ≠ [] := by
    intro hnil
    rw [hnil, t.root] at h
    cases h.2
  apply t.node_of_isPrefix (List.dropLast_prefix _)
  · intro heq
    have hlength := congrArg List.length heq
    rw [List.length_dropLast] at hlength
    have hpos := List.length_pos_of_ne_nil hroot
    omega
  · rw [h.2]
    exact nofun

theorem directory_of_needsNoMore {p : List ν} {moves moves' : List (Move ν)}
    (h : NeedsNoMore p moves moves') {t : FileTree ν γ}
    (hdirs : ∀ q ∈ needed p moves', t.node q = some .directory) :
    ∀ q ∈ needed p moves, t.node q = some .directory := by
  intro q hq
  obtain ⟨w, hw, hpref⟩ := h q hq
  exact t.directory_of_isPrefix hpref (hdirs w hw)

/-- Such paths read the same in every tree. -/
theorem read_eq_of_sameFile {p : List ν} {moves moves' : List (Move ν)}
    (h : SameFile p moves moves') (t : FileTree ν γ) : t.read p moves = t.read p moves' := by
  apply Option.ext
  intro c
  rw [read_eq_some_iff_needed, read_eq_some_iff_needed, h.destination_eq]
  apply and_congr_left
  intro _
  exact ⟨directory_of_needsNoMore h.back, directory_of_needsNoMore h.forth⟩

section Construction

variable [DecidableEq ν]

/-- One file, and the directories that it and a list of locations need. -/
def oneFile (f : List ν) (c : γ) (dirs : List (List ν)) (hroot : f ≠ [])
    (hf : ∀ q ∈ dirs, ¬ f <+: q) : FileTree ν γ where
  node p :=
    if p = f then some (.file c)
    else if ∃ q ∈ f.dropLast :: dirs, p <+: q then some .directory else none
  root := by
    rw [if_neg hroot.symm, if_pos ⟨f.dropLast, List.mem_cons_self, List.nil_prefix⟩]
  parent p name h := by
    have hne : p ≠ f ∧ ∃ q ∈ f.dropLast :: dirs, p <+: q := by
      by_cases hfile : p ++ [name] = f
      · subst hfile
        rw [List.dropLast_concat]
        exact ⟨by simp, p, List.mem_cons_self, List.prefix_rfl⟩
      · rw [if_neg hfile, ite_ne_right_iff] at h
        obtain ⟨q, hq, hpref⟩ := h.1
        have habove : p <+: q := (List.prefix_append p [name]).trans hpref
        refine ⟨?_, q, hq, habove⟩
        rintro rfl
        rcases List.mem_cons.mp hq with rfl | hq
        · have hle := hpref.length_le
          simp only [List.length_append, List.length_dropLast, List.length_singleton] at hle
          omega
        · exact hf q hq habove
    rw [if_neg hne.1, if_pos hne.2]

theorem node_oneFile_eq {f q : List ν} (c : γ) {dirs : List (List ν)} (hroot : f ≠ [])
    (hf : ∀ q ∈ dirs, ¬ f <+: q) :
    (oneFile f c dirs hroot hf).node q =
      if q = f then some (.file c)
      else if ∃ w ∈ f.dropLast :: dirs, q <+: w then some .directory else none := rfl

theorem node_oneFile {f q : List ν} (c : γ) {dirs : List (List ν)} (hroot : f ≠ [])
    (hf : ∀ q ∈ dirs, ¬ f <+: q) (hq : q ∈ dirs) :
    (oneFile f c dirs hroot hf).node q = some .directory := by
  have hne : q ≠ f := by
    rintro rfl
    exact hf q hq List.prefix_rfl
  rw [node_oneFile_eq, if_neg hne, if_pos ⟨q, List.mem_cons_of_mem _ hq, List.prefix_rfl⟩]

/-- The tree after a location, unlike the root, is removed with all below it. -/
def without (t : FileTree ν γ) (v : List ν) (hv : v ≠ []) : FileTree ν γ where
  node p := if v <+: p then none else t.node p
  root := by
    rw [if_neg (by simpa using hv), t.root]
  parent p name h := by
    by_cases hp : v <+: p
    · rw [if_pos (hp.trans (List.prefix_append p [name]))] at h
      exact absurd rfl h
    · rw [if_neg hp]
      apply t.parent p name
      intro hnone
      exact h (by simp [hnone])

theorem read_oneFile {f p : List ν} {moves : List (Move ν)} (c : γ) {dirs : List (List ν)}
    (hroot : f ≠ []) (hf : ∀ q ∈ dirs, ¬ f <+: q) (hdest : destination p moves = f)
    (hvisited : ∀ q ∈ visited p moves, q ∈ dirs) :
    (oneFile f c dirs hroot hf).read p moves = some c := by
  rw [read_eq_some_iff]
  refine ⟨fun q hq => node_oneFile c hroot hf (hvisited q hq), ?_⟩
  rw [hdest]
  exact if_pos rfl

/-- A path that is no dead end reads a file in some tree, in which any other path that
reads something leads to the same place and needs no other directories. -/
theorem exists_read_eq_some {p : List ν} {moves : List (Move ν)} (hend : ¬ DeadEnd [] p moves)
    (c : γ) : ∃ t : FileTree ν γ, t.read p moves = some c ∧ ∀ moves' c',
      t.read p moves' = some c' → c' = c ∧ destination p moves = destination p moves' ∧
        NeedsNoMore p moves' moves := by
  have hroot : destination p moves ≠ [] := by
    intro hnil
    exact hend ⟨[], List.mem_cons_self, hnil ▸ List.nil_prefix⟩
  have hf : ∀ q ∈ visited p moves, ¬ destination p moves <+: q := by
    intro q hq hpref
    exact hend ⟨q, List.mem_cons_of_mem _ hq, hpref⟩
  refine ⟨oneFile (destination p moves) c (visited p moves) hroot hf,
    read_oneFile c hroot hf rfl fun q hq => hq, fun moves' c' hread => ?_⟩
  obtain ⟨hdirs, hfile⟩ := (read_eq_some_iff_needed _ p moves' c').mp hread
  have hplace : destination p moves' = destination p moves := by
    by_contra hne
    rw [node_oneFile_eq, if_neg hne] at hfile
    split_ifs at hfile
    cases hfile
  refine ⟨?_, hplace.symm, fun v hv => ?_⟩
  · rw [node_oneFile_eq, if_pos hplace] at hfile
    cases hfile
    rfl
  · have hdir := hdirs v hv
    rw [node_oneFile_eq] at hdir
    split_ifs at hdir with hv hneeded
    · cases hdir
    · exact hneeded

/-- No path leads through a location that was removed. -/
theorem read_without (t : FileTree ν γ) {v p : List ν} {moves : List (Move ν)} (hv : v ≠ [])
    (hon : v ∈ destination p moves :: visited p moves) : (t.without v hv).read p moves = none := by
  have hremoved : (t.without v hv).node v = none := if_pos List.prefix_rfl
  apply Option.eq_none_iff_forall_ne_some.mpr
  intro c hc
  obtain ⟨hdirs, hfile⟩ := ((t.without v hv).read_eq_some_iff p moves c).mp hc
  rcases List.mem_cons.mp hon with rfl | hon
  · rw [hremoved] at hfile
    cases hfile
  · have hdir := hdirs v hon
    rw [hremoved] at hdir
    cases hdir

/-- A location beside the base can be removed without a change at the base or below. -/
theorem agree_without {base v : List ν} {t : FileTree ν γ} (hbase : t.node base = some .directory)
    (hv : v ≠ []) (hbelow : ¬ base <+: v) (habove : ¬ v <+: base) :
    Agree base t (t.without v hv) where
  directory := hbase
  below p hp := by
    have hkept : ¬ v <+: p := by
      intro hvp
      exact (List.prefix_or_prefix_of_prefix hvp hp).elim habove hbelow
    exact (if_neg hkept).symm

/-- Any other path reads a file in one of two trees that are the same at the base and
below, and nothing in the other. -/
theorem exists_agree_read_ne {base p : List ν} {moves : List (Move ν)}
    (hconfined : ¬ Confined base p moves) (hend : ¬ DeadEnd base p moves) (c : γ) :
    ∃ t t' : FileTree ν γ, Agree base t t' ∧ t.read p moves = some c ∧ t'.read p moves = none := by
  have hf : ∀ q ∈ base :: visited p moves, ¬ destination p moves <+: q := by
    intro q hq hpref
    exact hend ⟨q, hq, hpref⟩
  have hroot : destination p moves ≠ [] := by
    intro hnil
    exact hf base List.mem_cons_self (hnil ▸ List.nil_prefix)
  unfold Confined at hconfined
  push Not at hconfined
  obtain ⟨v, hon, hbelow, habove⟩ := hconfined
  have hv : v ≠ [] := by
    rintro rfl
    exact habove List.nil_prefix
  have hread := read_oneFile c hroot hf rfl fun q hq => List.mem_cons_of_mem base hq
  have hbase := node_oneFile c hroot hf List.mem_cons_self
  exact ⟨_, _, agree_without hbase hv hbelow habove, hread, read_without _ hv hon⟩

end Construction

end FileTree

end BuildYourOwnStuff.Foundations
