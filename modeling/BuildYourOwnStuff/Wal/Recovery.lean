import BuildYourOwnStuff.Wal.Log

/-!
# Recovery from a log

A log whose records all fit into the buffer of the scanner gives back the map,
and a log that was cut gives back the calls whose records were complete. The
writer does not check the size of a record, and it does not start a new line
after a record that was cut off.
-/

namespace BuildYourOwnStuff.Wal

open Foundations GoStd Utf8

namespace KVStore

/-- Opening the log of a run gives back the store exactly when every record fits. -/
theorem recovery_iff (calls : List Call) (hvalid : ∀ c ∈ calls, Call.Valid c) :
    newKVStore (fresh.run calls).logFile = .ok (fresh.run calls) ↔
      ∀ c ∈ calls, Call.Fits c := by
  rw [run_fresh]
  constructor
  · intro h c hc
    by_contra hlong
    rw [newKVStore_eq_ok, scan_log_eq_none hc hlong] at h
    cases h.1
  · exact newKVStore_log hvalid

/-- A key is written, deleted and written again between the records of another one. -/
theorem recovery_with_delete :
    let calls : List Call := [.put [0x61] [0x62], .put [0x63] [0x64], .delete [0x61],
      .put [0x61] [0x65], .delete [0x63]]
    newKVStore (fresh.run calls).logFile = .ok (fresh.run calls) :=
  (recovery_iff _ (by decide)).mpr (by decide)

/-- A record with a key of 64 KiB is written, and the log cannot be opened any more. -/
theorem recovery_fails : ¬ ∀ calls : List Call, (∀ c ∈ calls, Call.Valid c) →
    newKVStore (fresh.run calls).logFile = .ok (fresh.run calls) := by
  intro h
  obtain ⟨key, hlen, hascii⟩ : ∃ key : Bytes, key.length = maxScanTokenSize ∧
      ∀ b ∈ key, b.toNat < 0x80 := by
    refine ⟨List.replicate maxScanTokenSize 0x61, List.length_replicate, fun b hb => ?_⟩
    rw [List.eq_of_mem_replicate hb]
    decide
  have hlong : ¬ Call.Fits (.delete key) := by
    have hkey := Call.length_key_lt_json (.delete key)
    simp only [Update.key, hlen] at hkey
    exact Nat.not_lt.mpr hkey.le
  have hopen := h [.delete key] (List.forall_mem_singleton.mpr (validString_of_ascii hascii))
  rw [run_fresh, newKVStore_eq_ok, scan_log_eq_none List.mem_cons_self hlong] at hopen
  cases hopen.1

section CrashPrefix

/-- Where the JSON text of record `i` ends: the records up to it, without the last newline. -/
def textEnd (calls : List Call) (i : ℕ) : ℕ := (log (calls.take (i + 1))).length - 1

/-- The number of records whose JSON text lies before the cut. -/
def completeRecords (calls : List Call) (cut : ℕ) : ℕ :=
  (List.range calls.length).countP fun i => textEnd calls i ≤ cut

theorem length_record (c : Call) : (Call.record c).length = (Call.json c).length + 1 := by
  rw [Call.record, List.length_append, List.length_singleton]

theorem textEnd_succ (c : Call) {calls : List Call} {i : ℕ} (hi : i < calls.length) :
    textEnd (c :: calls) (i + 1) = (Call.record c).length + textEnd calls i := by
  have hpos : 0 < (log (calls.take (i + 1))).length := by
    obtain ⟨d, ds, hds⟩ := List.exists_cons_of_length_pos (l := calls.take (i + 1))
      (by rw [List.length_take]; omega)
    rw [hds, log_cons, List.length_append, length_record]
    omega
  have hlog : (log ((c :: calls).take (i + 1 + 1))).length =
      (Call.record c).length + (log (calls.take (i + 1))).length := by
    rw [List.take_succ_cons, log_cons, List.length_append]
  rw [textEnd, textEnd, hlog]
  omega

theorem completeRecords_cons (c : Call) (calls : List Call) (cut : ℕ) :
    completeRecords (c :: calls) cut =
      (if (Call.json c).length ≤ cut then 1 else 0) +
        if (Call.record c).length ≤ cut then completeRecords calls (cut - (Call.record c).length)
        else 0 := by
  have hfirst : textEnd (c :: calls) 0 = (Call.json c).length := by
    simp [textEnd, log, length_record]
  have hcount : completeRecords (c :: calls) cut = (if (Call.json c).length ≤ cut then 1 else 0) +
      (List.range calls.length).countP fun i => (Call.record c).length + textEnd calls i ≤ cut := by
    rw [completeRecords, List.length_cons, List.range_succ_eq_map, List.countP_cons, hfirst,
      List.countP_map, Nat.add_comm]
    congr 1
    · simp
    · refine List.countP_congr fun i hi => ?_
      simp [textEnd_succ c (List.mem_range.mp hi)]
  rw [hcount]
  congr 1
  split_ifs with hrecord
  · refine List.countP_congr fun i _ => ?_
    simp only [decide_eq_true_eq]
    omega
  · refine List.countP_eq_zero.mpr fun i _ => ?_
    simp only [decide_eq_true_eq]
    omega

theorem scan_cut {calls : List Call} (hvalid : ∀ c ∈ calls, Call.Valid c)
    (hfits : ∀ c ∈ calls, Call.Fits c) (cut : ℕ) (store : Store) :
    scan recoverLine ((log calls).take cut) store =
      some (Update.replay store (calls.take (completeRecords calls cut))) := by
  induction calls generalizing cut store with
  | nil => rw [log, List.flatMap_nil, List.take_nil]; rfl
  | cons c calls ih =>
    rw [List.forall_mem_cons] at hvalid hfits
    have hlen := length_record c
    rw [log_cons, completeRecords_cons]
    rcases Nat.lt_or_ge (Call.json c).length cut with hcut | hcut
    · have hlog' : log [c] = Call.record c := List.flatMap_singleton _ _
      have hsingle := scan_log (List.forall_mem_singleton.mpr hvalid.1)
        (List.forall_mem_singleton.mpr hfits.1)
        ((log calls).take (cut - (Call.record c).length)) store
      rw [hlog'] at hsingle
      rw [List.take_append, List.take_of_length_le (by omega), hsingle,
        ih hvalid.2 hfits.2, if_pos hcut.le, if_pos (by omega), Nat.add_comm, List.take_succ_cons]
      rfl
    · have htake : (Call.record c ++ log calls).take cut = (Call.json c).take cut := by
        rw [Call.record, List.append_assoc, List.take_append_of_le_length hcut]
      have hrecord : ¬ (Call.record c).length ≤ cut := by omega
      rw [htake, scan_torn hvalid.1 hfits.1 hcut, if_neg hrecord, Nat.add_zero]
      split_ifs with heq hle hle
      · rfl
      · omega
      · omega
      · rfl

/-- A log cut at any byte gives back the calls whose records end before the cut. -/
theorem crash_prefix_recovered (calls : List Call) (hvalid : ∀ c ∈ calls, Call.Valid c)
    (hfits : ∀ c ∈ calls, Call.Fits c) (cut : ℕ) :
    newKVStore ((fresh.run calls).logFile.take cut) =
      .ok ⟨(fresh.run (calls.take (completeRecords calls cut))).store,
        (fresh.run calls).logFile.take cut⟩ := by
  rw [run_fresh, run_fresh, newKVStore_eq_ok]
  exact ⟨scan_cut hvalid hfits cut ∅, rfl⟩

/-- The cut lies within the last of four records, behind the one that deletes. -/
theorem crash_prefix_recovered_after_delete :
    let calls : List Call := [.put [0x61] [0x62], .put [0x63] [0x64], .delete [0x61],
      .put [0x65] [0x66]]
    completeRecords calls 130 = 3 ∧
    newKVStore ((fresh.run calls).logFile.take 130) =
      .ok ⟨(fresh.run (calls.take (completeRecords calls 130))).store,
        (fresh.run calls).logFile.take 130⟩ :=
  ⟨by decide +kernel, crash_prefix_recovered _ (by decide) (by decide) 130⟩

end CrashPrefix

section TornRecord

/-- A log whose last record was cut off after `n` bytes, by a write that failed. -/
def tornLog (calls : List Call) (torn : Call) (n : ℕ) : Bytes :=
  ((fresh.run calls).call torn (.short n)).1.logFile

/-- The map that opening a torn log gives: the torn record counts if only its
newline is missing. -/
def openedStore (calls : List Call) (torn : Call) (n : ℕ) : Store :=
  (fresh.run (if n = (Call.json torn).length then calls ++ [torn] else calls)).store

/-- Nothing of the torn record was written, or nothing is written after it, or
the record glued to it is not missed: the line fits, and every key on which that
record or the torn one made a difference is updated again. -/
def TornHarmless (calls : List Call) (torn : Call) (n : ℕ) (more : List Call) : Prop :=
  n = 0 ∨ more = [] ∨ ∃ first rest, more = first :: rest ∧
    n + (Call.json first).length < maxScanTokenSize ∧
    ∀ key, (∀ c ∈ rest, c.key ≠ key) →
      (fresh.run calls).store.lookup key = (first.apply (openedStore calls torn n)).lookup key

theorem tornLog_eq {calls : List Call} {torn : Call} {n : ℕ} (hn : n ≤ (Call.json torn).length) :
    tornLog calls torn n = log calls ++ (Call.json torn).take n := by
  rw [tornLog, call_short, run_fresh, Call.record, List.take_append_of_le_length hn]

theorem openedStore_eq (calls : List Call) (torn : Call) (n : ℕ) : openedStore calls torn n =
    if n = (Call.json torn).length then torn.apply (Update.replay ∅ calls)
    else Update.replay ∅ calls := by
  rw [openedStore]
  split_ifs
  · rw [run_fresh, Update.replay_append]
    rfl
  · rw [run_fresh]

variable {calls : List Call} {torn : Call} {n : ℕ}

/-- A torn log is opened. -/
theorem newKVStore_tornLog (hvalid : ∀ c ∈ calls, Call.Valid c) (hfits : ∀ c ∈ calls, Call.Fits c)
    (htorn : Call.Valid torn) (htorn' : Call.Fits torn) (hn : n ≤ (Call.json torn).length) :
    newKVStore (tornLog calls torn n) = .ok ⟨openedStore calls torn n, tornLog calls torn n⟩ := by
  rw [newKVStore_eq_ok, and_iff_left rfl, tornLog_eq hn, scan_log hvalid hfits,
    scan_torn htorn htorn' hn, openedStore_eq]

/-- The first record after a torn one is lost on reopening. -/
theorem scan_tornLog_cons (hvalid : ∀ c ∈ calls, Call.Valid c) (hfits : ∀ c ∈ calls, Call.Fits c)
    (hn : n ≤ (Call.json torn).length) (hpos : n ≠ 0) (first : Call) {rest : List Call}
    (hrest : ∀ c ∈ rest, Call.Valid c) (hrest' : ∀ c ∈ rest, Call.Fits c) :
    scan recoverLine (tornLog calls torn n ++ log (first :: rest)) ∅ =
      if n + (Call.json first).length < maxScanTokenSize then
        some (Update.replay (Update.replay ∅ calls) rest)
      else none := by
  have htail := scan_log hrest hrest' [] (Update.replay ∅ calls)
  rw [List.append_nil] at htail
  rw [tornLog_eq hn, log_cons, List.append_assoc, scan_log hvalid hfits, ← List.append_assoc,
    scan_glued hn hpos]
  split_ifs
  · exact htail
  · rfl

/-- What a store opened on a torn log does next is recovered exactly when the scanner
reads its log as the map it has. -/
theorem reopen_tornLog_iff (hvalid : ∀ c ∈ calls, Call.Valid c) (hfits : ∀ c ∈ calls, Call.Fits c)
    (htorn : Call.Valid torn) (htorn' : Call.Fits torn) (hn : n ≤ (Call.json torn).length)
    (more : List Call) :
    (∃ kv, newKVStore (tornLog calls torn n) = .ok kv ∧
      newKVStore (kv.run more).logFile = .ok (kv.run more)) ↔
      scan recoverLine (tornLog calls torn n ++ log more) ∅ =
        some (Update.replay (openedStore calls torn n) more) := by
  rw [newKVStore_tornLog hvalid hfits htorn htorn' hn]
  simp only [Except.ok.injEq, exists_eq_left', run_eq, newKVStore_eq_ok, and_true]
  rfl

/-- After a record was cut off, a store opened on the log and used further is
recovered exactly when the cut is harmless. -/
theorem torn_record_iff (calls : List Call) (torn : Call) (n : ℕ) (more : List Call)
    (hvalid : ∀ c ∈ calls ++ torn :: more, Call.Valid c)
    (hfits : ∀ c ∈ calls ++ torn :: more, Call.Fits c) (hn : n ≤ (Call.json torn).length) :
    (∃ kv, newKVStore (tornLog calls torn n) = .ok kv ∧
      newKVStore (kv.run more).logFile = .ok (kv.run more)) ↔ TornHarmless calls torn n more := by
  rw [List.forall_mem_append, List.forall_mem_cons] at hvalid hfits
  obtain ⟨hcalls, htorn, hmore⟩ := hvalid
  obtain ⟨hcalls', htorn', hmore'⟩ := hfits
  rw [reopen_tornLog_iff hcalls hcalls' htorn htorn' hn]
  rcases Nat.eq_zero_or_pos n with rfl | hpos
  · refine iff_of_true ?_ (.inl rfl)
    have hempty : ¬ 0 = (Call.json torn).length := by
      have hlen := List.length_pos_of_ne_nil (Call.json_ne_nil torn)
      omega
    have hlog := scan_log hmore hmore' [] (Update.replay ∅ calls)
    rw [List.append_nil] at hlog
    rw [tornLog_eq hn, List.take_zero, List.append_nil, scan_log hcalls hcalls', hlog,
      openedStore_eq, if_neg hempty]
    rfl
  · rcases more with _ | ⟨first, rest⟩
    · refine iff_of_true ?_ (.inr (.inl rfl))
      have hopen := newKVStore_tornLog hcalls hcalls' htorn htorn' hn
      have hscan := (newKVStore_eq_ok.mp hopen).1
      rwa [log, List.flatMap_nil, List.append_nil]
    · rw [List.forall_mem_cons] at hmore hmore'
      rw [scan_tornLog_cons hcalls hcalls' hn hpos.ne' first hmore.2 hmore'.2, TornHarmless,
        run_fresh, Update.replay_cons]
      have hne : ¬ n = 0 := hpos.ne'
      simp only [hne, false_or, reduceCtorEq, List.cons.injEq]
      constructor
      · intro h
        split_ifs at h with hroom
        refine ⟨first, rest, ⟨rfl, rfl⟩, hroom, ?_⟩
        exact Update.replay_eq_replay_iff.mp (Option.some_inj.mp h)
      · rintro ⟨_, _, ⟨rfl, rfl⟩, hroom, hkeys⟩
        rw [if_pos hroom, Update.replay_eq_replay_iff.mpr hkeys]

/-- A record that is repeated after the glued one makes up for it. -/
theorem torn_record_repeated : ∃ kv, newKVStore (tornLog [] (.put [0x61] [0x62]) 3) = .ok kv ∧
    newKVStore (kv.run [.delete [0x63], .delete [0x63]]).logFile =
      .ok (kv.run [.delete [0x63], .delete [0x63]]) := by
  refine (torn_record_iff [] (.put [0x61] [0x62]) 3 [.delete [0x63], .delete [0x63]]
    (by decide) (by decide) (by decide)).mpr ?_
  refine .inr (.inr ⟨.delete [0x63], [.delete [0x63]], rfl, by decide, fun key hkey => ?_⟩)
  have hne := hkey _ List.mem_cons_self
  rw [Update.lookup_apply, if_neg hne, openedStore_eq, if_neg (by decide)]
  rfl

/-- After one byte of a record, the next call is acknowledged and lost. -/
theorem torn_record_lost : ¬ ∀ (calls : List Call) (torn : Call) (n : ℕ) (more : List Call),
    (∀ c ∈ calls ++ torn :: more, Call.Valid c) → (∀ c ∈ calls ++ torn :: more, Call.Fits c) →
    n ≤ (Call.json torn).length → ∃ kv, newKVStore (tornLog calls torn n) = .ok kv ∧
      newKVStore (kv.run more).logFile = .ok (kv.run more) := by
  intro h
  obtain ⟨kv, hopen, hreopen⟩ := h [] (.put [0x61] [0x62]) 1 [.put [0x63] [0x64]]
    (by decide) (by decide) (by decide)
  have hlost : scan recoverLine (tornLog [] (.put [0x61] [0x62]) 1 ++ log [.put [0x63] [0x64]]) ∅ =
      if 1 + (Call.json (.put [0x63] [0x64])).length < maxScanTokenSize then some ∅ else none :=
    scan_tornLog_cons (by decide) (by decide) (by decide) (by decide) _ (by decide) (by decide)
  rw [newKVStore_tornLog (by decide) (by decide) (by decide) (by decide) (by decide)] at hopen
  cases hopen
  rw [run_eq, newKVStore_eq_ok] at hreopen
  have hstore := hlost.symm.trans hreopen.1
  rw [if_pos (by decide)] at hstore
  have hlookup := congrArg (Finmap.lookup [0x63]) (Option.some_inj.mp hstore)
  have hkey : (Update.put [0x63] [0x64] : Call).key = [0x63] := rfl
  rw [Update.replay_cons, Update.replay_nil, Update.lookup_apply, if_pos hkey,
    Finmap.lookup_empty] at hlookup
  cases hlookup

end TornRecord

end KVStore

end BuildYourOwnStuff.Wal
