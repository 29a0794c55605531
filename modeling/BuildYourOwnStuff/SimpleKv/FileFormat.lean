import BuildYourOwnStuff.SimpleKv.Engines
import Mathlib.Data.List.TakeWhile

/-!
# The file of the file engine

Loading what was saved gives the map back if no key contains `=` or a newline
and no value contains a newline. A loaded map is always of this kind, so any
other map changes when it is saved and loaded, and a file is normalised by the
first load.
-/

namespace BuildYourOwnStuff.SimpleKv

open Foundations

/-- A pair whose line is read back as the pair. -/
def CleanEntry (e : Entry) : Prop := equals ∉ e.1 ∧ newline ∉ e.1 ∧ newline ∉ e.2

/-- A map of such pairs. -/
def Clean (store : Store) : Prop :=
  ∀ key value, store.lookup key = some value → CleanEntry (key, value)

theorem clean_empty : Clean ∅ := by
  intro key value h
  rw [Finmap.lookup_empty] at h
  cases h

theorem Clean.insert {store : Store} (h : Clean store) {e : Entry} (he : CleanEntry e) :
    Clean (store.insert e.1 e.2) := by
  intro key value hlookup
  by_cases hkey : key = e.1
  · rw [hkey, Finmap.lookup_insert] at hlookup
    cases hlookup
    rwa [hkey]
  · rw [Finmap.lookup_insert_of_ne _ hkey] at hlookup
    exact h key value hlookup

namespace FileBasedStorageEngine

theorem parseLine_append {key : Bytes} (h : equals ∉ key) (value : Bytes) :
    parseLine (key ++ equals :: value) = some (key, value) :=
  cut_append_sep h value

/-- The parts of a line have no newline, and the key no sign. -/
theorem clean_of_parseLine {text : Bytes} {e : Entry} (h : newline ∉ text)
    (he : parseLine text = some e) : CleanEntry e := by
  unfold parseLine at he
  split_ifs at he
  cases he
  refine ⟨fun hmem => ?_, fun hmem => ?_, fun hmem => ?_⟩
  · have hne := List.mem_takeWhile_imp hmem
    simp at hne
  · exact h ((List.takeWhile_prefix _).subset hmem)
  · exact h ((List.dropWhile_suffix _).subset (List.mem_of_mem_tail hmem))

theorem lines_render {entries : List Entry} (h : ∀ e ∈ entries, CleanEntry e) :
    lines newline (render entries) = entries.map fun e => e.1 ++ equals :: e.2 := by
  have hrender : render entries =
      (entries.map fun e => e.1 ++ equals :: e.2).flatMap (fun l => l ++ [newline]) ++ [] := by
    rw [List.append_nil, List.flatMap_map]
    rfl
  rw [hrender, lines_terminated, lines_nil, List.append_nil]
  intro l hl
  obtain ⟨e, he, rfl⟩ := List.mem_map.mp hl
  obtain ⟨-, hkey, hvalue⟩ := h e he
  simp only [List.mem_append, List.mem_cons, not_or]
  exact ⟨hkey, by decide, hvalue⟩

/-- Put pairs into a map, one after another. -/
def insertAll (store : Store) (entries : List Entry) : Store :=
  entries.foldl (fun s e => s.insert e.1 e.2) store

theorem lookup_insertAll_of_notMem {entries : List Entry} {key : Bytes}
    (h : key ∉ entries.map Prod.fst) (store : Store) :
    (insertAll store entries).lookup key = store.lookup key := by
  induction entries generalizing store with
  | nil => rfl
  | cons e entries ih =>
    rw [List.map_cons, List.mem_cons, not_or] at h
    exact (ih h.2 _).trans (Finmap.lookup_insert_of_ne _ h.1)

theorem lookup_insertAll_of_mem {entries : List Entry} {key value : Bytes}
    (hnodup : (entries.map Prod.fst).Nodup) (h : (key, value) ∈ entries) (store : Store) :
    (insertAll store entries).lookup key = some value := by
  induction entries generalizing store with
  | nil => cases h
  | cons e entries ih =>
    rw [List.map_cons, List.nodup_cons] at hnodup
    rcases List.mem_cons.mp h with rfl | h
    · exact (lookup_insertAll_of_notMem hnodup.1 _).trans (Finmap.lookup_insert _)
    · exact ih hnodup.2 h _

/-- The pairs of a map, put into the empty map, give the map. -/
theorem insertAll_eq {entries : List Entry} {store : Store} (h : Enumerates entries store) :
    insertAll ∅ entries = store := by
  refine Finmap.ext_lookup fun key => ?_
  cases hlookup : store.lookup key with
  | some value =>
    exact lookup_insertAll_of_mem h.nodup_keys ((h.mem_iff key value).mpr hlookup) ∅
  | none =>
    rw [lookup_insertAll_of_notMem, Finmap.lookup_empty]
    intro hmem
    obtain ⟨⟨key', value⟩, he, rfl⟩ := List.mem_map.mp hmem
    rw [(h.mem_iff key' value).mp he] at hlookup
    cases hlookup

/-- Loading what was saved gives a clean map back. -/
theorem loadFromFile_render {entries : List Entry} {store : Store}
    (h : Enumerates entries store) (hclean : Clean store) :
    loadFromFile (some (render entries)) = store := by
  have hentries : ∀ e ∈ entries, CleanEntry e :=
    fun e he => hclean e.1 e.2 ((h.mem_iff e.1 e.2).mp he)
  have hload : ∀ (es : List Entry) (s : Store), (∀ e ∈ es, CleanEntry e) →
      (es.map fun e => e.1 ++ equals :: e.2).foldl loadLine s = insertAll s es := by
    intro es
    induction es with
    | nil => intros; rfl
    | cons e es ih =>
      intro s hes
      rw [List.forall_mem_cons] at hes
      rw [List.map_cons, List.foldl_cons, loadLine, parseLine_append hes.1.1]
      exact ih _ hes.2
  rw [loadFromFile, lines_render hentries, hload entries ∅ hentries, insertAll_eq h]

/-- A loaded map is clean. -/
theorem clean_loadFromFile (file : Option Bytes) : Clean (loadFromFile file) := by
  have hload : ∀ (ls : List Bytes) (s : Store), (∀ l ∈ ls, newline ∉ l) → Clean s →
      Clean (ls.foldl loadLine s) := by
    intro ls
    induction ls with
    | nil => exact fun s _ hs => hs
    | cons l ls ih =>
      intro s hls hs
      rw [List.forall_mem_cons] at hls
      refine ih _ hls.2 ?_
      rw [loadLine]
      cases hparse : parseLine l with
      | none => exact hs
      | some e => exact hs.insert (clean_of_parseLine hls.1 hparse)
  cases file with
  | none => exact clean_empty
  | some content => exact hload _ _ (fun l hl => notMem_of_mem_lines hl) clean_empty

/-- Whatever is in the file, loading it, saving the map in any order and loading
again gives the map that was loaded first. -/
theorem load_save_load (order : Iteration) (content : Bytes) (saves : ℕ) :
    loadFromFile (saveToFile order (fun _ => .complete) (construct (some content) saves)).file =
      loadFromFile (some content) :=
  loadFromFile_render (order.enumerates saves (loadFromFile (some content)))
    (clean_loadFromFile (some content))

end FileBasedStorageEngine

end BuildYourOwnStuff.SimpleKv
