import BuildYourOwnStuff.Wal.Log

/-!
# Strings that are not UTF-8

The map has the bytes of a key as they are, and the log has a replacement
character for each invalid byte. A log with such records gives the map back only
if nothing of them survives.
-/

namespace BuildYourOwnStuff.Wal

open Foundations GoStd Utf8

namespace KVStore

/-- Each put that no later call on its key follows has a key and a value in valid
UTF-8, and no later key becomes its key by the replacement. -/
def SurvivorsKept (calls : List Call) : Prop :=
  ∀ pre key value post, calls = pre ++ .put key value :: post → (∀ c ∈ post, c.key ≠ key) →
    validString key = true ∧ validString value = true ∧ ∀ c ∈ post, coerce c.key ≠ key

/-- Whatever the bytes, the log is opened with the replay of its records. -/
theorem newKVStore_log_coerced {calls : List Call} (hfits : ∀ c ∈ calls, Call.Fits c) :
    newKVStore (log calls) = .ok ⟨Update.replay ∅ (calls.map Call.coerced), log calls⟩ := by
  have hscan := scan_log_coerced hfits [] ∅
  rw [List.append_nil] at hscan
  exact newKVStore_eq_ok.mpr ⟨hscan, rfl⟩

/-- Opening the log of any calls gives back the store exactly when what survives
of them is not changed by the replacement. -/
theorem keys_recovered_iff (calls : List Call) (hfits : ∀ c ∈ calls, Call.Fits c) :
    newKVStore (fresh.run calls).logFile = .ok (fresh.run calls) ↔ SurvivorsKept calls := by
  rw [run_fresh, newKVStore_log_coerced hfits]
  simp only [Except.ok.injEq, KVStore.mk.injEq, and_true]
  refine (Update.replay_map_eq_iff coerce_coerce coerce_coerce).trans ?_
  simp only [SurvivorsKept, coerce_eq_self_iff]

theorem keys_recovered_deleted : newKVStore (fresh.run [.put [0xFF] [], .delete [0xFF]]).logFile =
    .ok (fresh.run [.put [0xFF] [], .delete [0xFF]]) := by
  refine (keys_recovered_iff [.put [0xFF] [], .delete [0xFF]] (by decide)).mpr ?_
  intro pre key value post heq hpost
  rcases pre with _ | ⟨c, pre⟩
  · obtain ⟨hput, rfl⟩ := List.cons.inj heq
    cases hput
    exact absurd rfl (hpost _ List.mem_cons_self)
  · have hrest := (List.cons.inj heq).2
    rcases pre with _ | ⟨c', pre⟩
    · cases (List.cons.inj hrest).1
    · simp at hrest

/-- Two keys of one invalid byte each become one key. -/
theorem keys_merged : ¬ ∀ calls : List Call, (∀ c ∈ calls, Call.Fits c) →
    newKVStore (fresh.run calls).logFile = .ok (fresh.run calls) := by
  intro h
  have hopen := h [.put [0xFE] [0x61], .put [0xFF] [0x62]] (by decide)
  rw [run_fresh, newKVStore_log_coerced (by decide)] at hopen
  have hstore := congrArg (Finmap.lookup [0xFE]) (congrArg KVStore.store (Except.ok.inj hopen))
  exact absurd hstore (by decide)

end KVStore

end BuildYourOwnStuff.Wal
