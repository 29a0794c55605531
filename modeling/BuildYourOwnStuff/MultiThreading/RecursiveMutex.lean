import BuildYourOwnStuff.Foundations.Blocking

/-!
# A recursive mutex

Each thread calls a function that locks the mutex, prints, calls itself and unlocks. The
mutex is free again only after the outermost call has unlocked it, so the lines of a
thread are not mixed with those of others.
-/

namespace BuildYourOwnStuff.MultiThreading.RecursiveMutex

open Foundations Threads

/-- `buffer`, the lines that are printed with a thread and a number, and the threads of the lines
that say that the mutex was unlocked. -/
structure Shared (ι : Type) where
  buffer : ℕ
  lines : List (ι × ℕ)
  unlocks : List ι

/-- The places in `recursion`, with the number of calls that are to come and the number of times
that the thread has locked the mutex. -/
inductive Place
  | call (left depth : ℕ)
  | print (left depth : ℕ)
  | unlock (depth : ℕ)
  | say (depth : ℕ)
  deriving DecidableEq, Repr

/-- How many calls of `recursion` print. -/
def calls (loopFor : ℤ) : ℕ := (loopFor + 1).toNat

variable {ι : Type} [DecidableEq ι]

/-- `cout << c << " " << buffer++` -/
def Shared.print (v : Shared ι) (i : ι) : Shared ι :=
  { v with buffer := v.buffer + 1, lines := v.lines ++ [(i, v.buffer)] }

def Shared.say (v : Shared ι) (i : ι) : Shared ι := { v with unlocks := v.unlocks ++ [i] }

/-- A thread that has the mutex locks it again, and unlocks it but for the last time, without any
effect on other threads. -/
def program (i : ι) : Place → Op (Shared ι) Unit Empty Place
  | .call left 0 => if left = 0 then .done else .lock () (.print left 0)
  | .call left (depth + 1) =>
    .access fun v => (v, if left = 0 then .unlock (depth + 1) else .print left (depth + 1))
  | .print left depth => .access fun v => (v.print i, .call (left - 1) (depth + 1))
  | .unlock 0 => .done
  | .unlock 1 => .unlock () (.say 0)
  | .unlock (depth + 2) => .access fun v => (v, .say (depth + 1))
  | .say depth => .access fun v => (v.say i, .unlock depth)

def held : Place → Finset Unit
  | .call _ 0 | .unlock 0 | .say 0 => ∅
  | _ => {()}

variable (loopFor : ι → ℤ)

def init : Threads ι (Shared ι) Unit Empty Place :=
  start ⟨0, [], []⟩ fun i => .call (calls (loopFor i)) 0

/-- The threads of the lines, if the threads print one after the other. -/
def blocks (owners : List ι) : List ι :=
  owners.flatMap fun i => List.replicate (calls (loopFor i)) i

/-- Some threads have printed all their lines, one after the other, and then `i` has printed
`count` lines. -/
structure Turn (i : ι) (count : ℕ) (v : Shared ι) : Prop where
  buffer : v.buffer = v.lines.length
  numbers : v.lines.map Prod.snd = List.range v.lines.length
  owners : ∃ owners, owners.Nodup ∧ (∀ j ∈ owners, calls (loopFor j) ≠ 0) ∧ i ∉ owners ∧
    v.lines.map Prod.fst = blocks loopFor owners ++ List.replicate count i

/-- The threads that have printed have printed all their lines, one after the other. -/
structure InBlocks (v : Shared ι) : Prop where
  buffer : v.buffer = v.lines.length
  numbers : v.lines.map Prod.snd = List.range v.lines.length
  owners : ∃ owners, owners.Nodup ∧ (∀ j ∈ owners, calls (loopFor j) ≠ 0) ∧
    v.lines.map Prod.fst = blocks loopFor owners

/-- How many lines a thread has printed. -/
def printedBy (i : ι) (v : Shared ι) : ℕ := (v.lines.map Prod.fst).count i

def Asserts (i : ι) (l : Place) (v : Shared ι) : Prop :=
  match l with
  | .call left 0 => left = calls (loopFor i) ∧ printedBy i v = 0 ∧ v.unlocks.count i = 0
  | .call left (depth + 1) => left + (depth + 1) = calls (loopFor i) ∧
    Turn loopFor i (depth + 1) v ∧ v.unlocks.count i = 0
  | .print left depth => left ≠ 0 ∧ left + depth = calls (loopFor i) ∧ Turn loopFor i depth v ∧
    v.unlocks.count i = 0
  | .unlock 0 => printedBy i v = calls (loopFor i) ∧ v.unlocks.count i = calls (loopFor i)
  | .unlock (depth + 1) => Turn loopFor i (calls (loopFor i)) v ∧ calls (loopFor i) ≠ 0 ∧
    v.unlocks.count i + (depth + 1) = calls (loopFor i)
  | .say 0 => printedBy i v = calls (loopFor i) ∧ v.unlocks.count i + 1 = calls (loopFor i)
  | .say (depth + 1) => Turn loopFor i (calls (loopFor i)) v ∧ calls (loopFor i) ≠ 0 ∧
    v.unlocks.count i + (depth + 2) = calls (loopFor i)

omit [DecidableEq ι] in
theorem discipline : Discipline (program (ι := ι)) fun _ => held := by
  intro i l
  match l with
  | .call left 0 => by_cases h : left = 0 <;> simp [program, h, Op.Disciplined, held]
  | .call left (depth + 1) => exact fun v => by by_cases h : left = 0 <;> simp [h, held]
  | .print left depth => exact fun v => rfl
  | .unlock 0 => rfl
  | .unlock 1 => exact ⟨by simp [held], rfl⟩
  | .unlock (depth + 2) => exact fun v => rfl
  | .say 0 => exact fun v => rfl
  | .say (depth + 1) => exact fun v => rfl

variable {loopFor}

omit [DecidableEq ι] in
theorem Turn.print {i : ι} {count : ℕ} {v : Shared ι} (h : Turn loopFor i count v) :
    Turn loopFor i (count + 1) (v.print i) := by
  obtain ⟨owners, hnodup, hcalls, hi, hlines⟩ := h.owners
  have hlength : (v.print i).lines.length = v.lines.length + 1 := by simp [Shared.print]
  refine ⟨?_, ?_, owners, hnodup, hcalls, hi, ?_⟩
  · rw [hlength, ← h.buffer]
    rfl
  · rw [hlength, List.range_succ, ← h.numbers, ← h.buffer]
    simp [Shared.print]
  · rw [List.replicate_succ', ← List.append_assoc, ← hlines]
    simp [Shared.print]

omit [DecidableEq ι] in
theorem Turn.say {i : ι} {count : ℕ} {v : Shared ι} (h : Turn loopFor i count v) (j : ι) :
    Turn loopFor i count (v.say j) :=
  ⟨h.buffer, h.numbers, h.owners⟩

omit [DecidableEq ι] in
theorem InBlocks.say {v : Shared ι} (h : InBlocks loopFor v) (j : ι) :
    InBlocks loopFor (v.say j) :=
  ⟨h.buffer, h.numbers, h.owners⟩

theorem count_blocks {owners : List ι} (i : ι) :
    (blocks loopFor owners).count i = owners.count i * calls (loopFor i) := by
  induction owners with
  | nil => simp [blocks]
  | cons j owners ih =>
    rw [blocks, List.flatMap_cons, List.count_append, ← blocks, ih, List.count_replicate,
      List.count_cons]
    by_cases h : j = i
    · subst h
      simp
      ring
    · simp [h]

/-- A thread that has not printed yet begins its turn. -/
theorem InBlocks.turn {i : ι} {v : Shared ι} (h : InBlocks loopFor v)
    (hprinted : printedBy i v = 0) (hi : calls (loopFor i) ≠ 0) : Turn loopFor i 0 v := by
  obtain ⟨owners, hnodup, hcalls, hlines⟩ := h.owners
  refine ⟨h.buffer, h.numbers, owners, hnodup, hcalls, fun hmem => ?_, by simp [hlines]⟩
  rw [printedBy, hlines, count_blocks] at hprinted
  rcases Nat.mul_eq_zero.mp hprinted with hzero | hzero
  · exact List.count_pos_iff.mpr hmem |>.ne' hzero
  · exact hi hzero

omit [DecidableEq ι] in
theorem nodup_snoc {owners : List ι} {i : ι} (h : owners.Nodup) (hi : i ∉ owners) :
    (owners ++ [i]).Nodup :=
  List.nodup_append_comm.mp (List.nodup_cons.mpr ⟨hi, h⟩)

/-- The turn of a thread ends with its last line. -/
theorem Turn.finish {i : ι} {v : Shared ι} (h : Turn loopFor i (calls (loopFor i)) v)
    (hi : calls (loopFor i) ≠ 0) :
    InBlocks loopFor v ∧ printedBy i v = calls (loopFor i) := by
  obtain ⟨owners, hnodup, hcalls, hnot, hlines⟩ := h.owners
  have hblocks : v.lines.map Prod.fst = blocks loopFor (owners ++ [i]) := by
    rw [hlines]
    simp [blocks]
  refine ⟨⟨h.buffer, h.numbers, owners ++ [i], nodup_snoc hnodup hnot, ?_, hblocks⟩, ?_⟩
  · exact List.forall_mem_append.mpr ⟨hcalls, List.forall_mem_singleton.mpr hi⟩
  · rw [printedBy, hlines, List.count_append, count_blocks, List.count_eq_zero_of_not_mem hnot]
    simp

theorem printedBy_print {i j : ι} (hne : i ≠ j) (v : Shared ι) :
    printedBy j (v.print i) = printedBy j v := by
  simp [printedBy, Shared.print, hne]

theorem count_say {i j : ι} (hne : i ≠ j) (v : Shared ι) :
    (v.say i).unlocks.count j = v.unlocks.count j := by
  simp [Shared.say, hne]

theorem count_say_self (i : ι) (v : Shared ι) :
    (v.say i).unlocks.count i = v.unlocks.count i + 1 := by
  simp [Shared.say]

/-- What another thread prints with the mutex keeps what a thread without it knows. -/
theorem Asserts.print {i j : ι} {l : Place} {v : Shared ι} (h : Asserts loopFor j l v)
    (hne : i ≠ j) (hdisjoint : Disjoint {()} (held l)) : Asserts loopFor j l (v.print i) := by
  match l with
  | .call left 0 => exact ⟨h.1, (printedBy_print hne v).trans h.2.1, h.2.2⟩
  | .unlock 0 => exact ⟨(printedBy_print hne v).trans h.1, h.2⟩
  | .say 0 => exact ⟨(printedBy_print hne v).trans h.1, h.2⟩
  | .call left (depth + 1) => simp [held] at hdisjoint
  | .print left depth => simp [held] at hdisjoint
  | .unlock (depth + 1) => simp [held] at hdisjoint
  | .say (depth + 1) => simp [held] at hdisjoint

theorem Asserts.say {i j : ι} {l : Place} {v : Shared ι} (h : Asserts loopFor j l v)
    (hne : i ≠ j) : Asserts loopFor j l (v.say i) := by
  have hcount := count_say hne v
  match l with
  | .call left 0 => exact ⟨h.1, h.2.1, hcount.trans h.2.2⟩
  | .call left (depth + 1) => exact ⟨h.1, h.2.1.say i, hcount.trans h.2.2⟩
  | .print left depth => exact ⟨h.1, h.2.1, h.2.2.1.say i, hcount.trans h.2.2.2⟩
  | .unlock 0 => exact ⟨h.1, hcount.trans h.2⟩
  | .unlock (depth + 1) => exact ⟨h.1.say i, h.2.1, by rw [hcount]; exact h.2.2⟩
  | .say 0 => exact ⟨h.1, by rw [hcount]; exact h.2⟩
  | .say (depth + 1) => exact ⟨h.1.say i, h.2.1, by rw [hcount]; exact h.2.2⟩

theorem outline : Outline program (fun _ => held) (Asserts loopFor) fun _ => InBlocks loopFor := by
  intro i l
  match l with
  | .call left 0 =>
    rw [program]
    split_ifs with hleft
    · trivial
    · rintro v ⟨rfl, hprinted, hunlocks⟩ hR
      exact ⟨hleft, rfl, InBlocks.turn hR hprinted hleft, hunlocks⟩
  | .call left (depth + 1) =>
    rintro v ⟨hsum, hturn, hunlocks⟩
    refine ⟨?_, fun _ _ h => h, fun _ _ _ hA' _ => hA'⟩
    dsimp only
    split_ifs with hleft
    · have hdepth : depth + 1 = calls (loopFor i) := by omega
      rw [hdepth] at hturn
      exact ⟨hturn, by omega, by rw [hunlocks]; omega⟩
    · exact ⟨hleft, hsum, hturn, hunlocks⟩
  | .print left depth =>
    rintro v ⟨hleft, hsum, hturn, hunlocks⟩
    refine ⟨⟨by omega, hturn.print, hunlocks⟩, fun m hm => absurd (by simp [held]) hm, ?_⟩
    exact fun j l' hne hA' hdisjoint => Asserts.print hA' hne hdisjoint
  | .unlock 0 => trivial
  | .unlock 1 =>
    rintro v ⟨hturn, hcalls, hsum⟩
    obtain ⟨hblocks, hprinted⟩ := hturn.finish hcalls
    exact ⟨⟨hprinted, hsum⟩, hblocks⟩
  | .unlock (depth + 2) =>
    exact fun v hA => ⟨hA, fun _ _ h => h, fun _ _ _ hA' _ => hA'⟩
  | .say 0 =>
    rintro v ⟨hprinted, hsum⟩
    refine ⟨⟨hprinted, by rw [count_say_self]; exact hsum⟩, fun _ _ h => InBlocks.say h i, ?_⟩
    exact fun j l' hne hA' _ => Asserts.say hA' hne
  | .say (depth + 1) =>
    rintro v ⟨hturn, hcalls, hsum⟩
    refine ⟨⟨hturn.say i, hcalls, by rw [count_say_self]; omega⟩, fun _ _ h => InBlocks.say h i, ?_⟩
    exact fun j l' hne hA' _ => Asserts.say hA' hne

/-- The steps that a thread has left. -/
def stepsLeft : Place → ℕ
  | .call left depth => 4 * left + 2 * depth + 1
  | .print left depth => 4 * left + 2 * depth
  | .unlock depth => 2 * depth
  | .say depth => 2 * depth + 1

theorem pays (i : ι) (l : Place) :
    (program i l).Pays (Asserts loopFor i) stepsLeft stepsLeft (fun _ => 0) 0 l := by
  match l with
  | .call left 0 => by_cases h : left = 0 <;> simp [program, h, Op.Pays, stepsLeft]
  | .call left (depth + 1) =>
    intro v _
    by_cases h : left = 0
    · simp [h, stepsLeft]
    · simp [h, stepsLeft]
  | .print left depth =>
    rintro v ⟨hleft, -⟩
    simp only [stepsLeft]
    omega
  | .unlock 0 => trivial
  | .unlock 1 => simp [program, Op.Pays, stepsLeft]
  | .unlock (depth + 2) =>
    intro v _
    simp only [stepsLeft]
    omega
  | .say depth =>
    intro v _
    simp only [stepsLeft]
    omega

omit [DecidableEq ι] in
theorem not_next (i : ι) (l : Place) : ¬ (program i l).Next l := by
  match l with
  | .call left 0 => by_cases h : left = 0 <;> simp [program, h, Op.Next]
  | .call left (depth + 1) => by_cases h : left = 0 <;> simp [program, h, Op.Next]
  | .print left depth => simp [program, Op.Next]
  | .unlock 0 => simp [program, Op.Next]
  | .unlock 1 => simp [program, Op.Next]
  | .unlock (depth + 2) => simp [program, Op.Next]
  | .say depth => simp [program, Op.Next]

omit [DecidableEq ι] in
theorem ordered : Ordered (program (ι := ι)) (fun _ => held) fun _ => 0 := by
  intro i l
  match l with
  | .call left 0 => by_cases h : left = 0 <;> simp [program, h, Op.Ordered, held]
  | .call left (depth + 1) => trivial
  | .print left depth => trivial
  | .unlock 0 => trivial
  | .unlock 1 => trivial
  | .unlock (depth + 2) => trivial
  | .say depth => trivial

section Runs

variable [Fintype ι]

def run (loopFor : ι → ℤ) (actions : List (Action ι)) : Threads ι (Shared ι) Unit Empty Place :=
  actions.foldl (step program) (init loopFor)

omit [Fintype ι] in
theorem annotated : Annotated (program (ι := ι)) (fun _ => held) (Asserts loopFor)
    (fun _ => InBlocks loopFor) fun _ _ => False :=
  ⟨discipline, outline, fun _ _ c _ _ _ => c.elim⟩

theorem kept_run (loopFor : ι → ℤ) (actions : List (Action ι)) :
    Kept (fun _ => held) (Asserts loopFor) (fun _ => InBlocks loopFor) (fun _ _ => False)
      (run loopFor actions) := by
  refine Kept.run annotated (kept_start (fun _ => rfl) (fun i => ?_) fun _ => ?_) actions
  · exact ⟨rfl, rfl, rfl⟩
  · exact ⟨rfl, rfl, [], List.nodup_nil, by simp, rfl⟩

variable {actions : List (Action ι)}

/-- Every line so far has its number, and the lines are the first ones of threads that print one
after the other. -/
theorem lines_run (loopFor : ι → ℤ) (actions : List (Action ι)) :
    (run loopFor actions).memory.lines.map Prod.snd =
      List.range (run loopFor actions).memory.lines.length ∧
    ∃ owners, owners.Nodup ∧
      (run loopFor actions).memory.lines.map Prod.fst <+: blocks loopFor owners := by
  have hkept := kept_run loopFor actions
  cases hholder : (run loopFor actions).holder () with
  | none =>
    obtain ⟨-, hnumbers, owners, hnodup, -, hlines⟩ := hkept.asserted.free () hholder
    exact ⟨hnumbers, owners, hnodup, by rw [hlines]⟩
  | some i =>
    have hturn : ∃ count ≤ calls (loopFor i),
        Turn loopFor i count (run loopFor actions).memory := by
      have hheld := (hkept.exclusive () i).mp hholder
      have hplace := hkept.asserted.place i
      match hl : (run loopFor actions).place i with
      | .call left 0 => simp [hl, held] at hheld
      | .call left (depth + 1) =>
        rw [hl] at hplace
        obtain ⟨hsum, hturn, -⟩ := hplace
        exact ⟨depth + 1, by omega, hturn⟩
      | .print left depth =>
        rw [hl] at hplace
        obtain ⟨-, hsum, hturn, -⟩ := hplace
        exact ⟨depth, by omega, hturn⟩
      | .unlock 0 => simp [hl, held] at hheld
      | .unlock (depth + 1) =>
        rw [hl] at hplace
        exact ⟨_, le_rfl, hplace.1⟩
      | .say 0 => simp [hl, held] at hheld
      | .say (depth + 1) =>
        rw [hl] at hplace
        exact ⟨_, le_rfl, hplace.1⟩
    obtain ⟨count, hle, -, hnumbers, owners, hnodup, -, hnot, hlines⟩ := hturn
    refine ⟨hnumbers, owners ++ [i], nodup_snoc hnodup hnot,
      List.replicate (calls (loopFor i) - count) i, ?_⟩
    rw [hlines, List.append_assoc, List.replicate_append_replicate, Nat.add_sub_cancel' hle]
    simp [blocks]

/-- The lines are in blocks, one for each thread that is not called with a negative number, and
each thread has said as often that it has unlocked the mutex as it has printed. -/
structure Printed (loopFor : ι → ℤ) (v : Shared ι) : Prop where
  lines : ∃ owners, owners.Nodup ∧ (∀ i, i ∈ owners ↔ 0 ≤ loopFor i) ∧
    v.lines.map Prod.fst = blocks loopFor owners
  unlocks : ∀ i, v.unlocks.count i = calls (loopFor i)

theorem printed_of_halted (h : (run loopFor actions).Halted program) :
    Printed loopFor (run loopFor actions).memory := by
  have hkept := kept_run loopFor actions
  have hend := hkept.asleep_or_done annotated ordered (fun _ _ h => h.elim) not_next h
  have hown : ∀ i, printedBy i (run loopFor actions).memory = calls (loopFor i) ∧
      (run loopFor actions).memory.unlocks.count i = calls (loopFor i) ∧
        held ((run loopFor actions).place i) = ∅ := by
    intro i
    have hdone := (hend i).resolve_left fun hi => hi (Subsingleton.elim _ _)
    have hplace := hkept.asserted.place i
    match hl : (run loopFor actions).place i with
    | .call left 0 =>
      rw [hl] at hplace hdone
      obtain ⟨hleft, hprinted, hunlocks⟩ := hplace
      rw [program] at hdone
      split_ifs at hdone with hzero
      rw [← hleft, hzero]
      exact ⟨hprinted, hunlocks, rfl⟩
    | .call left (depth + 1) => rw [hl] at hdone; cases hdone
    | .print left depth => rw [hl] at hdone; cases hdone
    | .unlock 0 =>
      rw [hl] at hplace
      exact ⟨hplace.1, hplace.2, rfl⟩
    | .unlock 1 => rw [hl] at hdone; cases hdone
    | .unlock (depth + 2) => rw [hl] at hdone; cases hdone
    | .say depth => rw [hl] at hdone; cases hdone
  have hfree := hkept.exclusive.holder_eq_none (m := ()) fun i => by simp [(hown i).2.2]
  obtain ⟨-, -, owners, hnodup, hcalls, hlines⟩ := hkept.asserted.free () hfree
  refine ⟨⟨owners, hnodup, fun i => ⟨fun hi => ?_, fun hi => ?_⟩, hlines⟩, fun i => (hown i).2.1⟩
  · have := hcalls i hi
    rw [calls] at this
    omega
  · by_contra hnot
    have hprinted := (hown i).1
    rw [printedBy, hlines, count_blocks, List.count_eq_zero_of_not_mem hnot, calls] at hprinted
    omega

/-- Whatever the order of the steps, a thread prints all its lines with a number without such a
line of another thread between them, and the numbers go up by one. The threads can always go on
until all have printed their lines and unlocked the mutex as often. -/
theorem recursion_in_blocks (loopFor : ι → ℤ) (actions : List (Action ι)) :
    ((run loopFor actions).memory.lines.map Prod.snd =
      List.range (run loopFor actions).memory.lines.length ∧
    ∃ owners, owners.Nodup ∧
      (run loopFor actions).memory.lines.map Prod.fst <+: blocks loopFor owners) ∧
    ((run loopFor actions).Halted program → Printed loopFor (run loopFor actions).memory) ∧
    ∃ more, AllSteps (step program) (Changes program) (run loopFor actions) more ∧
      (run loopFor (actions ++ more)).Halted program := by
  refine ⟨lines_run loopFor actions, printed_of_halted, ?_⟩
  obtain ⟨more, hsteps, hhalted⟩ :=
    (kept_run loopFor actions).exists_halted annotated pays fun _ _ h => h.elim
  refine ⟨more, hsteps, ?_⟩
  rw [run, List.foldl_append]
  exact hhalted

end Runs

end BuildYourOwnStuff.MultiThreading.RecursiveMutex
