import BuildYourOwnStuff.Foundations.Runs
import BuildYourOwnStuff.SimpleKv.FileFormat

/-!
# Restarts of the file engine

The file engine answers as the in-memory engine does as long as it is only
restarted while its map is clean. A restart with any other map loses or changes
a pair.
-/

namespace BuildYourOwnStuff.SimpleKv

open Foundations

inductive Event
  | request (r : Request)
  | restart
  deriving DecidableEq, Repr

/-- The requests of a sequence of events. -/
def requests : List Event → List Request
  | [] => []
  | .request r :: events => r :: requests events
  | .restart :: events => requests events

namespace FileBasedStorageEngine

variable (order : Iteration)

/-- The engine whose saves all succeed. -/
def savingEngine : IStorageEngine FileBasedStorageEngine := engine order fun _ => .complete

/-- Destroy the engine and construct a new one on the same path. -/
def restart (s : FileBasedStorageEngine) : FileBasedStorageEngine := construct s.file s.saves

def step (s : FileBasedStorageEngine) : Event → FileBasedStorageEngine
  | .request r => (KeyValueStore.handle (savingEngine order) s r).1
  | .restart => s.restart

/-- The responses to the requests, with restarts in between. -/
def responses (s : FileBasedStorageEngine) : List Event → List Response
  | [] => []
  | .request r :: events =>
    (KeyValueStore.handle (savingEngine order) s r).2 ::
      responses (step order s (.request r)) events
  | .restart :: events => responses s.restart events

/-- The engine on a path where no file is. -/
def start : FileBasedStorageEngine := construct none 0

/-- A restart finds a clean map. -/
def CleanRestart (s : FileBasedStorageEngine) (e : Event) : Prop := e = .restart → Clean s.store

/-- The file holds the pairs of the map in some order; without a file the map is empty. -/
def Saved (s : FileBasedStorageEngine) : Prop :=
  (s.file = none ∧ s.store = ∅) ∨
    ∃ entries, Enumerates entries s.store ∧ s.file = some (render entries)

theorem saved_start : start.Saved := .inl ⟨rfl, rfl⟩

theorem saved_saveToFile (s : FileBasedStorageEngine) :
    (saveToFile order (fun _ => .complete) s).Saved :=
  .inr ⟨order.entries s.saves s.store, order.enumerates s.saves s.store, rfl⟩

variable {order}

/-- Every change of the map is saved. -/
theorem Saved.handle {s : FileBasedStorageEngine} (h : s.Saved) (r : Request) :
    (KeyValueStore.handle (savingEngine order) s r).1.Saved := by
  cases r with
  | put key value =>
    change (write order (fun _ => .complete) s key value).1.Saved
    unfold write
    split_ifs
    · exact h
    · exact saved_saveToFile order _
  | get key => exact h
  | remove key =>
    change (erase order (fun _ => .complete) s key).1.Saved
    unfold erase
    split_ifs
    · exact h
    · exact saved_saveToFile order _
    · exact h

/-- A clean map is loaded as it was saved. -/
theorem Saved.restart {s : FileBasedStorageEngine} (h : s.Saved) (hclean : Clean s.store) :
    s.restart.store = s.store ∧ s.restart.Saved := by
  have hstore : s.restart.store = s.store := by
    change loadFromFile s.file = s.store
    rcases h with ⟨hfile, hstore⟩ | ⟨entries, henum, hfile⟩
    · rw [hfile, hstore]
      rfl
    · rw [hfile, loadFromFile_render henum hclean]
  refine ⟨hstore, ?_⟩
  unfold Saved
  rw [hstore]
  exact h

theorem erase_of_notMem {store : Store} {key : Bytes} (h : key ∉ store) :
    store.erase key = store := by
  refine Finmap.ext_lookup fun k => ?_
  by_cases hk : k = key
  · rw [hk, Finmap.lookup_erase, Finmap.lookup_eq_none.mpr h]
  · rw [Finmap.lookup_erase_ne hk]

/-- Between restarts the file engine does what the in-memory engine does. -/
theorem handle_agrees (s : FileBasedStorageEngine) (r : Request) :
    (KeyValueStore.handle (savingEngine order) s r).2 =
        (KeyValueStore.handle InMemoryStorageEngine.engine s.store r).2 ∧
      (KeyValueStore.handle (savingEngine order) s r).1.store =
        (KeyValueStore.handle InMemoryStorageEngine.engine s.store r).1 := by
  cases r with
  | put key value =>
    change Response.flag (write order (fun _ => .complete) s key value).2 =
        .flag (InMemoryStorageEngine.write s.store key value).2 ∧
      (write order (fun _ => .complete) s key value).1.store =
        (InMemoryStorageEngine.write s.store key value).1
    unfold write InMemoryStorageEngine.write
    split_ifs <;> exact ⟨rfl, rfl⟩
  | get key => exact ⟨rfl, rfl⟩
  | remove key =>
    change Response.flag (erase order (fun _ => .complete) s key).2 =
        .flag (InMemoryStorageEngine.erase s.store key).2 ∧
      (erase order (fun _ => .complete) s key).1.store =
        (InMemoryStorageEngine.erase s.store key).1
    unfold erase InMemoryStorageEngine.erase
    split_ifs with hkey hmem
    · exact ⟨rfl, rfl⟩
    · simp [hmem, saveToFile]
    · simp [hmem, erase_of_notMem]

theorem responses_eq {s : FileBasedStorageEngine} (hs : s.Saved) {events : List Event}
    (h : AllSteps (step order) CleanRestart s events) :
    responses order s events =
      KeyValueStore.responses InMemoryStorageEngine.engine s.store (requests events) := by
  induction events generalizing s with
  | nil => rfl
  | cons e events ih =>
    cases e with
    | request r =>
      obtain ⟨hresponse, hstore⟩ := @handle_agrees order s r
      rw [responses, requests, KeyValueStore.responses, hresponse, ← hstore]
      exact congrArg (List.cons _) (ih (hs.handle r) h.2)
    | restart =>
      obtain ⟨hstore, hsaved⟩ := hs.restart (h.1 rfl)
      rw [responses, requests, ih hsaved h.2, hstore]

/-- With restarts of clean maps only, the file engine returns what the in-memory
engine returns without them. -/
theorem drop_in_replacement (order : Iteration) (events : List Event)
    (h : AllSteps (step order) CleanRestart start events) :
    responses order start events =
      KeyValueStore.responses InMemoryStorageEngine.engine ∅ (requests events) :=
  responses_eq saved_start h

/-- Some order of iteration. -/
noncomputable def anyOrder : Iteration where
  entries _ store := store.entries.toList.map fun e => (e.1, e.2)
  enumerates _ store := by
    constructor
    · have hkeys := Multiset.nodup_keys.mpr store.nodupKeys
      rw [← Multiset.coe_toList store.entries, Multiset.coe_keys] at hkeys
      rw [List.map_map]
      exact Multiset.coe_nodup.mp hkeys
    · intro key value
      rw [Finmap.lookup_eq_some_iff, ← Multiset.mem_toList, List.mem_map]
      constructor
      · rintro ⟨⟨k, v⟩, he, heq⟩
        cases heq
        exact he
      · intro he
        exact ⟨⟨key, value⟩, he, rfl⟩

theorem drop_in_replacement_put_get :
    responses anyOrder start [.request (.put [0x6B] [0x76]), .restart, .request (.get [0x6B])] =
      KeyValueStore.responses InMemoryStorageEngine.engine ∅
        [.put [0x6B] [0x76], .get [0x6B]] := by
  refine drop_in_replacement anyOrder _ ⟨nofun, fun _ => ?_, nofun, trivial⟩
  exact clean_empty.insert (e := ([0x6B], [0x76])) ⟨by decide, by decide, by decide⟩

/-- A key with the separator in it is not found after a restart. -/
theorem drop_in_replacement_fails : ¬ ∀ (order : Iteration) (events : List Event),
    responses order start events =
      KeyValueStore.responses InMemoryStorageEngine.engine ∅ (requests events) := by
  intro h
  have hget := h anyOrder [.request (.put [0x61, 0x3D, 0x62] [0x63]), .restart,
    .request (.get [0x61, 0x3D, 0x62])]
  change [Response.flag true, .value (Finmap.lookup [0x61, 0x3D, 0x62] (loadFromFile _))] =
    [.flag true, .value (Finmap.lookup [0x61, 0x3D, 0x62]
      ((∅ : Store).insert [0x61, 0x3D, 0x62] [0x63]))] at hget
  rw [Finmap.lookup_insert] at hget
  simp only [List.cons.injEq, Response.value.injEq, true_and, and_true] at hget
  exact (clean_loadFromFile _ _ _ hget).1 (by decide)

/-- After a restart with a map that is not clean, some key is read differently. -/
theorem read_restart_ne {s : FileBasedStorageEngine} (hempty : ([] : Bytes) ∉ s.store)
    (hclean : ¬ Clean s.store) : ∃ key, s.restart.read key ≠ s.read key := by
  by_contra hsame
  push Not at hsame
  refine hclean fun key value hlookup => ?_
  have hkey : key ≠ [] := by
    rintro rfl
    exact hempty (Finmap.mem_iff.mpr ⟨value, hlookup⟩)
  have hread := hsame key
  rw [read, read, if_neg hkey, if_neg hkey, hlookup] at hread
  exact clean_loadFromFile s.file key value hread

end FileBasedStorageEngine

end BuildYourOwnStuff.SimpleKv
