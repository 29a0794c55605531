import BuildYourOwnStuff.Foundations.KeyedUpdates
import BuildYourOwnStuff.SimpleKv.Restarts

/-!
# Saves that fail

The file engine changes its map, saves it and returns `true`, whatever becomes of
the save. An update is durable exactly when it makes no save or its save
succeeds.
-/

namespace BuildYourOwnStuff.SimpleKv

open Foundations

/-- The keys and values of the lines that are read back. -/
def CleanUpdate : Update Bytes Bytes → Prop
  | .put key value => CleanEntry (key, value)
  | .delete key => equals ∉ key ∧ newline ∉ key

/-- The file is opened and all of `content` is written. -/
def SaveOutcome.Written (content : Bytes) : SaveOutcome → Prop
  | complete => True
  | cannotOpen => False
  | stopped written => content.length ≤ written

theorem Clean.erase {store : Store} (h : Clean store) (key : Bytes) : Clean (store.erase key) := by
  intro k value hlookup
  by_cases hk : k = key
  · rw [hk, Finmap.lookup_erase] at hlookup
    cases hlookup
  · rw [Finmap.lookup_erase_ne hk] at hlookup
    exact h k value hlookup

theorem Clean.apply {store : Store} (h : Clean store) {u : Update Bytes Bytes}
    (hu : CleanUpdate u) : Clean (u.apply store) := by
  cases u with
  | put key value => exact h.insert hu
  | delete key => exact h.erase key

namespace FileBasedStorageEngine

variable (order : Iteration) (outcome : ℕ → SaveOutcome)

/-- A call of `write` or of `erase`. -/
def update (s : FileBasedStorageEngine) : Update Bytes Bytes → FileBasedStorageEngine × Bool
  | .put key value => write order outcome s key value
  | .delete key => erase order outcome s key

/-- The engine after a sequence of calls. -/
def run (s : FileBasedStorageEngine) (us : List (Update Bytes Bytes)) : FileBasedStorageEngine :=
  us.foldl (fun s u => (update order outcome s u).1) s

/-- The call gets to its save: the key is not empty, and an erased key is there. -/
def MakesSave (s : FileBasedStorageEngine) : Update Bytes Bytes → Prop
  | .put key _ => key ≠ []
  | .delete key => key ≠ [] ∧ key ∈ s.store

/-- The save that the call makes writes the whole updated map. -/
def SaveSucceeds (s : FileBasedStorageEngine) (u : Update Bytes Bytes) : Prop :=
  (outcome s.saves).Written (render (order.entries s.saves (u.apply s.store)))

/-- A call that returns `true` has left the updated map in the file, and a call
whose save fails returns `false` and leaves the map as it was. -/
def Durable (s : FileBasedStorageEngine) (u : Update Bytes Bytes) : Prop :=
  ((update order outcome s u).2 = true →
      loadFromFile (update order outcome s u).1.file = u.apply s.store) ∧
    (MakesSave s u → ¬ SaveSucceeds order outcome s u →
      (update order outcome s u).2 = false ∧ (update order outcome s u).1.store = s.store)

variable {order outcome}

theorem update_of_not_makesSave {s : FileBasedStorageEngine} {u : Update Bytes Bytes}
    (h : ¬ MakesSave s u) : update order outcome s u = (s, false) := by
  cases u with
  | put key value =>
    apply if_pos
    exact not_not.mp h
  | delete key =>
    change (if key = [] then (s, false) else _) = (s, false)
    split_ifs with hkey hmem
    · rfl
    · exact absurd ⟨hkey, hmem⟩ h
    · rfl

theorem update_of_makesSave {s : FileBasedStorageEngine} {u : Update Bytes Bytes}
    (h : MakesSave s u) : update order outcome s u =
      (saveToFile order outcome { s with store := u.apply s.store }, true) := by
  cases u with
  | put key value => exact if_neg h
  | delete key =>
    rw [update, erase, if_neg h.1, if_pos h.2]
    rfl

/-- A save that succeeds leaves all of the map in the file. -/
theorem file_saveToFile {s : FileBasedStorageEngine}
    (h : (outcome s.saves).Written (render (order.entries s.saves s.store))) :
    (saveToFile order outcome s).file = some (render (order.entries s.saves s.store)) := by
  rw [saveToFile]
  cases houtcome : outcome s.saves with
  | complete => simp
  | cannotOpen =>
    rw [houtcome] at h
    cases h
  | stopped written =>
    rw [houtcome] at h
    exact congrArg some (List.take_of_length_le h)

/-- Every reachable map is clean, whatever became of the saves. -/
theorem clean_run {us : List (Update Bytes Bytes)} (h : ∀ u ∈ us, CleanUpdate u)
    {s : FileBasedStorageEngine} (hs : Clean s.store) : Clean (run order outcome s us).store := by
  induction us generalizing s with
  | nil => exact hs
  | cons u us ih =>
    rw [List.forall_mem_cons] at h
    refine ih h.2 (s := (update order outcome s u).1) ?_
    by_cases hsave : MakesSave s u
    · rw [update_of_makesSave hsave]
      exact hs.apply h.1
    · rw [update_of_not_makesSave hsave]
      exact hs

theorem durable_iff {s : FileBasedStorageEngine} (hs : Clean s.store) {u : Update Bytes Bytes}
    (hu : CleanUpdate u) :
    Durable order outcome s u ↔ (MakesSave s u → SaveSucceeds order outcome s u) := by
  by_cases hsave : MakesSave s u
  · rw [Durable, update_of_makesSave hsave]
    constructor
    · rintro ⟨-, hfailed⟩ -
      by_contra hfails
      cases (hfailed hsave hfails).1
    · intro hsucceeds
      refine ⟨fun _ => ?_, fun _ hfails => absurd (hsucceeds hsave) hfails⟩
      rw [file_saveToFile (s := { s with store := u.apply s.store }) (hsucceeds hsave)]
      exact loadFromFile_render (order.enumerates _ _) (hs.apply hu)
  · rw [Durable, update_of_not_makesSave hsave]
    exact ⟨fun _ h => absurd h hsave, fun _ => ⟨nofun, fun h => absurd h hsave⟩⟩

/-- In every state that calls reach on a path with any file, an update is durable
exactly when it makes no save or its save succeeds. -/
theorem update_durable_iff (order : Iteration) (outcome : ℕ → SaveOutcome) (file : Option Bytes)
    (saves : ℕ) (us : List (Update Bytes Bytes)) (hus : ∀ u ∈ us, CleanUpdate u)
    (u : Update Bytes Bytes) (hu : CleanUpdate u) :
    Durable order outcome (run order outcome (construct file saves) us) u ↔
      (MakesSave (run order outcome (construct file saves) us) u →
        SaveSucceeds order outcome (run order outcome (construct file saves) us) u) :=
  durable_iff (clean_run hus (clean_loadFromFile file)) hu

theorem update_durable_erase :
    Durable anyOrder (fun _ => .complete)
      (run anyOrder (fun _ => .complete) (construct none 0) [.put [0x6B] [0x76]])
      (.delete [0x6B]) := by
  refine (update_durable_iff anyOrder (fun _ => .complete) none 0 [.put [0x6B] [0x76]] ?_
    (.delete [0x6B]) ⟨by decide, by decide⟩).mpr fun _ => trivial
  intro u hu
  rw [List.mem_singleton] at hu
  rw [hu]
  exact ⟨by decide, by decide, by decide⟩

/-- A write to a path that cannot be opened returns `true` and is in the map only. -/
theorem update_lost : ¬ ∀ (order : Iteration) (outcome : ℕ → SaveOutcome) (file : Option Bytes)
    (us : List (Update Bytes Bytes)), (∀ u ∈ us, CleanUpdate u) → ∀ u, CleanUpdate u →
      Durable order outcome (run order outcome (construct file 0) us) u := by
  intro h
  have hloads := (h anyOrder (fun _ => .cannotOpen) none [] nofun (.put [0x6B] [0x76])
    ⟨by decide, by decide, by decide⟩).1 rfl
  change (∅ : Store) = (∅ : Store).insert [0x6B] [0x76] at hloads
  have hlookup := congrArg (Finmap.lookup [0x6B]) hloads
  rw [Finmap.lookup_insert] at hlookup
  cases hlookup

end FileBasedStorageEngine

end BuildYourOwnStuff.SimpleKv
