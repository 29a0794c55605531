import BuildYourOwnStuff.Foundations.Runs
import BuildYourOwnStuff.Wal.Recovery

/-!
# Concurrent calls

A call appends its record and then, in a second step, updates the map under the
mutex. The append is not under the mutex, so the steps of different calls
interleave. While no call overtakes another call on the same key between its
two steps, the log and the map agree whenever no call is between its steps.
-/

namespace BuildYourOwnStuff.Wal

open Foundations GoStd

namespace KVStore

/-- The first step of a call: one complete write at the end of the log. -/
def logCall (kv : KVStore) (c : Call) : KVStore := (kv.writeToWAL (Call.entry c) .complete).1

/-- The second step of a call: the update of the map. -/
def applyCall (kv : KVStore) (c : Call) : KVStore := { kv with store := c.apply kv.store }

/-- A call that is not interrupted is its two steps. -/
theorem applyCall_logCall (kv : KVStore) (c : Call) :
    (kv.logCall c).applyCall c = (kv.call c .complete).1 := by
  cases c <;> rfl

theorem logCall_eq (kv : KVStore) (c : Call) :
    kv.logCall c = ⟨kv.store, kv.logFile ++ Call.record c⟩ := rfl

end KVStore

inductive Phase
  | ready
  | logged
  | done
  deriving DecidableEq, Repr

/-- A step of one of the calls. -/
inductive Action (ι : Type)
  | log (i : ι)
  | update (i : ι)

/-- A store with calls in progress; `waiting` are those between their two steps,
in the order of their records. -/
structure Concurrent (ι : Type) where
  kv : KVStore
  phase : ι → Phase
  waiting : List ι

namespace Concurrent

variable {ι : Type} (call : ι → Call)

def start : Concurrent ι := ⟨KVStore.fresh, fun _ => .ready, []⟩

/-- A step that the call cannot take leaves the state as it is. -/
def step [DecidableEq ι] (s : Concurrent ι) : Action ι → Concurrent ι
  | .log i =>
    if s.phase i = .ready then
      ⟨s.kv.logCall (call i), Function.update s.phase i .logged, s.waiting ++ [i]⟩
    else s
  | .update i =>
    if s.phase i = .logged then
      ⟨s.kv.applyCall (call i), Function.update s.phase i .done, s.waiting.erase i⟩
    else s

/-- No call is between its two steps. -/
def Quiescent (s : Concurrent ι) : Prop := ∀ i, s.phase i ≠ .logged

/-- A call that updates the map does not overtake a waiting call on the same key
whose record comes before its own. -/
def InOrder (s : Concurrent ι) (a : Action ι) : Prop :=
  ∀ i pre post, a = .update i → s.waiting = pre ++ i :: post →
    ∀ j ∈ pre, (call j).key ≠ (call i).key

/-- `logged` are the calls in the order of their records and `applied` those in
the order of their updates; for each key they differ by the waiting calls. -/
structure Agrees (s : Concurrent ι) (logged applied : List Call) : Prop where
  kv_eq : s.kv = ⟨Update.replay ∅ applied, KVStore.log logged⟩
  from_calls : ∀ c ∈ logged, ∃ i, c = call i
  by_key : ∀ k, (logged.filter fun c => c.key = k) =
    (applied.filter fun c => c.key = k) ++ (s.waiting.map call).filter fun c => c.key = k
  mem_waiting : ∀ i, i ∈ s.waiting ↔ s.phase i = .logged
  nodup : s.waiting.Nodup

variable {call}

theorem agrees_start : (start : Concurrent ι).Agrees call [] [] where
  kv_eq := rfl
  from_calls := by simp
  by_key := by simp [start]
  mem_waiting := by simp [start]
  nodup := List.nodup_nil

theorem Agrees.log [DecidableEq ι] {s : Concurrent ι} {logged applied : List Call}
    (h : s.Agrees call logged applied) {i : ι} (hi : s.phase i = .ready) :
    (s.step call (.log i)).Agrees call (logged ++ [call i]) applied := by
  have hnot : i ∉ s.waiting := by
    rw [h.mem_waiting, hi]
    exact Phase.noConfusion
  rw [step, if_pos hi]
  refine ⟨?_, ?_, fun k => ?_, fun j => ?_, ?_⟩
  · rw [KVStore.logCall_eq, h.kv_eq, KVStore.log, KVStore.log, List.flatMap_append,
      List.flatMap_singleton]
  · intro c hc
    rcases List.mem_append.mp hc with hc | hc
    · exact h.from_calls c hc
    · exact ⟨i, List.mem_singleton.mp hc⟩
  · rw [List.filter_append, h.by_key k, List.map_append, List.filter_append, List.append_assoc]
    rfl
  · by_cases hj : j = i
    · simp [hj]
    · simp [hj, h.mem_waiting]
  · refine List.nodup_append.mpr ⟨h.nodup, List.nodup_singleton i, ?_⟩
    rintro j hj _ hji rfl
    exact hnot (List.mem_singleton.mp hji ▸ hj)

theorem Agrees.update [DecidableEq ι] {s : Concurrent ι} {logged applied : List Call}
    (h : s.Agrees call logged applied) {i : ι} (hi : s.phase i = .logged)
    (horder : s.InOrder call (.update i)) :
    (s.step call (.update i)).Agrees call logged (applied ++ [call i]) := by
  obtain ⟨pre, post, hnot, hwaiting, herase⟩ := List.exists_erase_eq ((h.mem_waiting i).mpr hi)
  have hpre := horder i pre post rfl hwaiting
  rw [step, if_pos hi]
  refine ⟨?_, h.from_calls, fun k => ?_, fun j => ?_, h.nodup.erase i⟩
  · rw [KVStore.applyCall, h.kv_eq, Update.replay_append]
    rfl
  · dsimp only
    rw [h.by_key k, herase, hwaiting]
    simp only [List.map_append, List.map_cons, List.filter_append]
    by_cases hk : (call i).key = k
    · have hpre' : ((pre.map call).filter fun c => c.key = k) = [] := by
        refine List.filter_eq_nil_iff.mpr fun c hc => ?_
        obtain ⟨j, hj, rfl⟩ := List.mem_map.mp hc
        rw [← hk]
        simpa using hpre j hj
      rw [hpre', List.filter_cons_of_pos (by simpa using hk),
        List.filter_cons_of_pos (by simpa using hk)]
      simp
    · rw [List.filter_cons_of_neg (by simpa using hk), List.filter_cons_of_neg (by simpa using hk)]
      simp
  · dsimp only
    rw [h.nodup.mem_erase_iff]
    by_cases hj : j = i
    · simp [hj]
    · simp [hj, h.mem_waiting]

/-- A step in order keeps the log and the map in agreement. -/
theorem Agrees.step [DecidableEq ι] {s : Concurrent ι} {logged applied : List Call}
    (h : s.Agrees call logged applied) (a : Action ι) (horder : s.InOrder call a) :
    ∃ logged applied, (s.step call a).Agrees call logged applied := by
  cases a with
  | log i =>
    by_cases hi : s.phase i = .ready
    · exact ⟨_, _, h.log hi⟩
    · rw [Concurrent.step, if_neg hi]
      exact ⟨_, _, h⟩
  | update i =>
    by_cases hi : s.phase i = .logged
    · exact ⟨_, _, h.update hi horder⟩
    · rw [Concurrent.step, if_neg hi]
      exact ⟨_, _, h⟩

/-- When no call waits, the calls that were logged and those that were applied
have the same replay. -/
theorem Agrees.replay_eq {s : Concurrent ι} {logged applied : List Call}
    (h : s.Agrees call logged applied) (hquiet : s.Quiescent) :
    Update.replay ∅ logged = Update.replay ∅ applied := by
  have hwaiting : s.waiting = [] := by
    refine List.eq_nil_iff_forall_not_mem.mpr fun i hi => ?_
    exact hquiet i ((h.mem_waiting i).mp hi)
  refine Update.replay_eq_of_filter_eq ∅ fun k => ?_
  rw [h.by_key k, hwaiting, List.map_nil, List.filter_nil, List.append_nil]

theorem Agrees.recovered {s : Concurrent ι} {logged applied : List Call}
    (h : s.Agrees call logged applied) (hvalid : ∀ i, Call.Valid (call i))
    (hfits : ∀ i, Call.Fits (call i)) (hquiet : s.Quiescent) :
    KVStore.newKVStore s.kv.logFile = .ok s.kv := by
  have hvalid' : ∀ c ∈ logged, Call.Valid c := by
    intro c hc
    obtain ⟨i, rfl⟩ := h.from_calls c hc
    exact hvalid i
  have hfits' : ∀ c ∈ logged, Call.Fits c := by
    intro c hc
    obtain ⟨i, rfl⟩ := h.from_calls c hc
    exact hfits i
  rw [h.kv_eq, ← h.replay_eq hquiet]
  exact KVStore.newKVStore_log hvalid' hfits'

/-- If no update of the map overtakes another one on the same key, then whenever
no call is between its steps, the log gives back the map. -/
theorem log_order_kept [DecidableEq ι] (hvalid : ∀ i, Call.Valid (call i))
    (hfits : ∀ i, Call.Fits (call i)) (actions : List (Action ι))
    (horder : AllSteps (step call) (InOrder call) start actions) :
    AllStates (step call) (fun s => s.Quiescent →
      KVStore.newKVStore s.kv.logFile = .ok s.kv) start actions := by
  refine allStates_of_allSteps (I := fun s : Concurrent ι => ∃ logged applied,
    s.Agrees call logged applied) ?_ ?_ ⟨[], [], agrees_start⟩ horder
  · rintro s a ⟨logged, applied, h⟩ ha
    exact h.step a ha
  · rintro s ⟨logged, applied, h⟩
    exact h.recovered hvalid hfits

/-- Two calls that put different values for one key. -/
def twoPuts (i : Bool) : Call := .put [0x6B] (if i then [0x62] else [0x61])

theorem twoPuts_valid (i : Bool) : Call.Valid (twoPuts i) := by
  cases i <;> decide

theorem twoPuts_fits (i : Bool) : Call.Fits (twoPuts i) := by
  cases i <;> decide

theorem inOrder_log (s : Concurrent ι) (i : ι) : s.InOrder call (.log i) := by
  rintro _ _ _ ⟨⟩

/-- The first of the waiting calls overtakes none. -/
theorem inOrder_head {s : Concurrent ι} {i : ι} {rest : List ι} (h : s.waiting = i :: rest)
    (hnot : i ∉ rest) : s.InOrder call (.update i) := by
  rintro _ pre post ⟨⟩ hwaiting j hj
  rw [h] at hwaiting
  rcases pre with _ | ⟨i', pre⟩
  · cases hj
  · obtain ⟨-, rfl⟩ := List.cons.inj hwaiting
    exact absurd (by simp) hnot

theorem log_order_kept_twoPuts : AllStates (step twoPuts) (fun s => s.Quiescent →
    KVStore.newKVStore s.kv.logFile = .ok s.kv) start
      [.log false, .log true, .update false, .update true] := by
  refine log_order_kept twoPuts_valid twoPuts_fits _ ?_
  have hfirst : true ∉ [] := List.not_mem_nil
  have hsecond : false ∉ [true] := by decide
  exact ⟨inOrder_log _ _, inOrder_log _ _, inOrder_head rfl hsecond, inOrder_head rfl hfirst,
    trivial⟩

/-- The second call to log its record updates the map first. -/
theorem log_order_broken : ¬ ∀ (ι : Type) (_ : DecidableEq ι) (call : ι → Call),
    (∀ i, Call.Valid (call i)) → (∀ i, Call.Fits (call i)) → ∀ actions : List (Action ι),
      AllStates (step call) (fun s => s.Quiescent →
        KVStore.newKVStore s.kv.logFile = .ok s.kv) start actions := by
  intro h
  have hlast := (h Bool inferInstance twoPuts twoPuts_valid twoPuts_fits
    [.log false, .log true, .update true, .update false]).last
  have hkv : ([Action.log false, .log true, .update true, .update false].foldl
      (step twoPuts) start).kv = ⟨Update.replay ∅ [twoPuts true, twoPuts false],
        KVStore.log [twoPuts false, twoPuts true]⟩ := rfl
  have hquiet : ([Action.log false, .log true, .update true, .update false].foldl
      (step twoPuts) start).Quiescent := by
    intro i
    cases i <;> decide
  have hclaim := hlast hquiet
  have hopen : KVStore.newKVStore (KVStore.log [twoPuts false, twoPuts true]) = _ :=
    KVStore.newKVStore_log (by decide) (by decide)
  rw [hkv, hopen] at hclaim
  have hstore := congrArg (Finmap.lookup [0x6B]) (congrArg KVStore.store (Except.ok.inj hclaim))
  exact absurd hstore (by decide)

end Concurrent

end BuildYourOwnStuff.Wal
