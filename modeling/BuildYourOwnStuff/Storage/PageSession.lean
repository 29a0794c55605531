import BuildYourOwnStuff.Storage.PageInvariant

/-!
# What a client of a page may rely on

A client remembers the byte string behind every index that `AddTuple` returned
to it, and forgets an index when it deletes it. The page simulates that table,
so no live tuple is ever overwritten. The tuple count is kept less carefully:
`DeleteTuple` decrements it for a slot that is already deleted as well.
-/

namespace BuildYourOwnStuff.Storage

open Foundations GoStd

/-- A table of tuples by slot index. -/
abbrev TupleTable := Finmap fun _ : ℕ => Bytes

/-- A page, the byte string of the last `AddTuple` call that returned each
index, and those of them whose index was not deleted since. -/
structure Session where
  page : Page
  given : TupleTable
  live : TupleTable

namespace Session

def start (id : UInt32) : Session := ⟨newPage id, ∅, ∅⟩

def step (s : Session) : PageCall → Session
  | .addTuple tuple =>
    match s.page.addTuple tuple with
    | .ok (p, i) => ⟨p, s.given.insert i tuple, s.live.insert i tuple⟩
    | .error _ => s
  | .deleteTuple slotIndex =>
    match s.page.deleteTuple slotIndex with
    | .ok p => { s with page := p, live := s.live.erase slotIndex.toNat }
    | .error _ => s

def run (s : Session) (calls : List PageCall) : Session := calls.foldl step s

/-- The page simulates the client's table. -/
structure Simulates (s : Session) : Prop where
  stacked : s.page.Stacked
  read_eq : ∀ i, s.page.read i = s.live.lookup i
  given_of_live : ∀ i d, s.live.lookup i = some d → s.given.lookup i = some d

theorem simulates_start (id : UInt32) : (start id).Simulates where
  stacked := Page.stacked_newPage id
  read_eq := by simp [start, newPage, Page.read]
  given_of_live := by simp [start]

theorem Simulates.add {s : Session} (hs : s.Simulates) {tuple : Bytes} {r : Page × ℕ}
    (h : s.page.addTuple tuple = .ok r) :
    Simulates ⟨r.1, s.given.insert r.2 tuple, s.live.insert r.2 tuple⟩ := by
  obtain ⟨hadm, -, rfl⟩ := Page.addTuple_eq_ok.mp h
  refine ⟨hs.stacked.withTuple hadm, fun i => ?_, fun i d hi => ?_⟩
  · dsimp only
    rw [Page.read_withTuple hs.stacked hadm]
    split_ifs with heq
    · rw [heq, Finmap.lookup_insert]
    · rw [Finmap.lookup_insert_of_ne _ heq, hs.read_eq]
  · dsimp only at hi ⊢
    by_cases heq : i = s.page.slots.length
    · rw [heq, Finmap.lookup_insert] at hi ⊢
      exact hi
    · rw [Finmap.lookup_insert_of_ne _ heq] at hi ⊢
      exact hs.given_of_live i d hi

theorem Simulates.delete {s : Session} (hs : s.Simulates) {p : Page} {k : ℤ}
    (h : s.page.deleteTuple k = .ok p) :
    Simulates { s with page := p, live := s.live.erase k.toNat } := by
  obtain ⟨i, hi, rfl, rfl⟩ := Page.deleteTuple_eq_ok.mp h
  refine ⟨hs.stacked.withoutTuple hi, fun j => ?_, fun j d hj => ?_⟩
  · dsimp only
    rw [Page.read_withoutTuple hi, Int.toNat_natCast]
    split_ifs with heq
    · rw [heq, Finmap.lookup_erase]
    · rw [Finmap.lookup_erase_ne heq, hs.read_eq]
  · dsimp only at hj
    apply hs.given_of_live
    by_cases heq : j = i
    · rw [heq, Int.toNat_natCast, Finmap.lookup_erase] at hj
      cases hj
    · rwa [Int.toNat_natCast, Finmap.lookup_erase_ne heq] at hj

theorem simulates_step (s : Session) (call : PageCall) (hs : s.Simulates) :
    (s.step call).Simulates := by
  cases call with
  | addTuple tuple =>
    cases h : s.page.addTuple tuple with
    | error f => simpa [step, h] using hs
    | ok r => simpa [step, h] using hs.add h
  | deleteTuple k =>
    cases h : s.page.deleteTuple k with
    | error f => simpa [step, h] using hs
    | ok p => simpa [step, h] using hs.delete h

theorem simulates_run (id : UInt32) (calls : List PageCall) :
    ((start id).run calls).Simulates :=
  foldl_invariant simulates_step (simulates_start id) calls

theorem Simulates.not_deleted {s : Session} (hs : s.Simulates) {i : ℕ} {slot : Slot}
    (hi : i ∈ s.live) (hslot : s.page.slots[i]? = some slot) : slot.isDeleted = false := by
  obtain ⟨d, hd⟩ := Finmap.mem_iff.mp hi
  rw [← hs.read_eq] at hd
  obtain ⟨slot', hslot', hlive, -⟩ := Page.read_eq_some.mp hd
  rw [hslot] at hslot'
  cases hslot'
  exact hlive

theorem Simulates.disjoint {s : Session} (hs : s.Simulates) {i j : ℕ} {slot slot' : Slot}
    (hne : i ≠ j) (hi : i ∈ s.live) (hj : j ∈ s.live) (hslot : s.page.slots[i]? = some slot)
    (hslot' : s.page.slots[j]? = some slot') :
    Disjoint (Set.Ico slot.offset.toNat (slot.offset.toNat + slot.size.toNat))
      (Set.Ico slot'.offset.toNat (slot'.offset.toNat + slot'.size.toNat)) := by
  have hlive := hs.not_deleted hi hslot
  have hlive' := hs.not_deleted hj hslot'
  rcases Nat.lt_or_gt_of_ne hne with hij | hji
  · have hbelow := hs.stacked.below i j slot slot' hij hslot hslot' hlive hlive'
    exact Set.Ico_disjoint_Ico.mpr (by omega)
  · have hbelow := hs.stacked.below j i slot' slot hji hslot' hslot hlive' hlive
    exact Set.Ico_disjoint_Ico.mpr (by omega)

theorem Simulates.notMem_of_addTuple {s : Session} (hs : s.Simulates) {tuple : Bytes} {p : Page}
    {i : ℕ} (h : s.page.addTuple tuple = .ok (p, i)) : i ∉ s.live := by
  obtain ⟨-, -, heq⟩ := Page.addTuple_eq_ok.mp h
  cases heq
  intro hlive
  obtain ⟨d, hd⟩ := Finmap.mem_iff.mp hlive
  rw [← hs.read_eq] at hd
  obtain ⟨slot, hslot, -⟩ := Page.read_eq_some.mp hd
  simp at hslot

/-- No live tuple is clobbered: behind every index that was returned and not
deleted since lies the byte string it was returned for, the ranges of two such
indices are disjoint, and a new index is not one of them. -/
theorem tuples_intact (id : UInt32) (calls : List PageCall) :
    let s := (start id).run calls
    (∀ i d, s.live.lookup i = some d → ∃ slot, s.page.slots[i]? = some slot ∧
      slot.isDeleted = false ∧
      slice s.page.data slot.offset.toNat (slot.offset.toNat + slot.size.toNat) = some d ∧
      s.page.freeSpaceOffset.toNat ≤ slot.offset.toNat ∧
      slot.offset.toNat + slot.size.toNat ≤ pageSize) ∧
    (∀ i j slot slot', i ≠ j → i ∈ s.live → j ∈ s.live →
      s.page.slots[i]? = some slot → s.page.slots[j]? = some slot' →
      Disjoint (Set.Ico slot.offset.toNat (slot.offset.toNat + slot.size.toNat))
        (Set.Ico slot'.offset.toNat (slot'.offset.toNat + slot'.size.toNat))) ∧
    (∀ tuple p i, s.page.addTuple tuple = .ok (p, i) → i ∉ s.live) := by
  intro s
  have hs : s.Simulates := simulates_run id calls
  refine ⟨fun i d hi => ?_, fun i j slot slot' hne hi hj hslot hslot' => ?_,
    fun tuple p i hadd => hs.notMem_of_addTuple hadd⟩
  · rw [← hs.read_eq] at hi
    obtain ⟨slot, hslot, hlive, hd⟩ := Page.read_eq_some.mp hi
    exact ⟨slot, hslot, hlive, hd, hs.stacked.live_range i slot hslot hlive⟩
  · exact hs.disjoint hne hi hj hslot hslot'

end Session

namespace Page

/-- The number of slots that are not deleted. -/
def liveCount (p : Page) : ℕ := p.slots.countP fun slot => !slot.isDeleted

/-- The tuple count moved by one at most, so it did not wrap around. -/
def NoWrap (p : Page) (call : PageCall) : Prop :=
  (p.step call).tupleCount.toNat ≤ p.tupleCount.toNat + 1 ∧
    p.tupleCount.toNat ≤ (p.step call).tupleCount.toNat + 1

/-- A `DeleteTuple` call whose index is in range hits a slot that is not deleted. -/
def DeletesLive (p : Page) (call : PageCall) : Prop :=
  ∀ (i : ℕ) (slot : Slot), call = .deleteTuple i → p.slots[i]? = some slot →
    slot.isDeleted = false

theorem liveCount_le (p : Page) : p.liveCount ≤ p.slots.length := List.countP_le_length

theorem Stacked.length_slots_lt {p : Page} (hp : p.Stacked) : p.slots.length < 2 ^ 16 - 1 := by
  have hle := hp.freeSpaceOffset_le
  have hslots := hp.slots_le
  simp only [pageSize] at hle
  omega

theorem liveCount_withTuple {p : Page} (hle : p.freeSpaceOffset.toNat ≤ pageSize)
    (tuple : Bytes) : (p.withTuple tuple).liveCount = p.liveCount + 1 := by
  have hlive : (p.tupleSlot tuple).isDeleted = false := tupleSlot_live hle
  have hslots : (p.withTuple tuple).slots = p.slots ++ [p.tupleSlot tuple] := rfl
  rw [liveCount, hslots, List.countP_append, List.countP_singleton]
  simp [hlive, liveCount]

theorem liveCount_withoutTuple {p : Page} {i : ℕ} {slot : Slot} (hi : p.slots[i]? = some slot) :
    (p.withoutTuple i).liveCount + (if slot.isDeleted then 0 else 1) = p.liveCount := by
  obtain ⟨hlt, hget⟩ := List.getElem?_eq_some_iff.mp hi
  have hmem : slot ∈ p.slots := List.mem_of_getElem? hi
  have hdel : deletedSlot.isDeleted = true := rfl
  rw [liveCount, withoutTuple_slots, List.countP_set hlt, hget]
  cases hslot : slot.isDeleted
  · have hpos : 0 < p.slots.countP fun slot => !slot.isDeleted :=
      List.countP_pos_iff.mpr ⟨slot, hmem, by simp [hslot]⟩
    simp only [hdel, liveCount, Bool.not_false, Bool.not_true, Bool.false_eq_true, if_true,
      if_false]
    omega
  · simp [hdel, liveCount]

/-- From an exact count, deleting a slot keeps it exact unless the slot is deleted already. -/
theorem tupleCount_withoutTuple_iff {p : Page} (hp : p.Stacked)
    (hcount : p.tupleCount.toNat = p.liveCount) {i : ℕ} {slot : Slot}
    (hi : p.slots[i]? = some slot) :
    (p.withoutTuple i).tupleCount.toNat = (p.withoutTuple i).liveCount ↔
      slot.isDeleted = false := by
  have hlen := hp.length_slots_lt
  have hlive := liveCount_withoutTuple hi
  have hbound := (p.withoutTuple i).liveCount_le
  have hslots : (p.withoutTuple i).slots.length = p.slots.length := by simp
  rw [withoutTuple_tupleCount, UInt16.toNat_sub, UInt16.toNat_one]
  cases hdel : slot.isDeleted
  · simp only [hdel, Bool.false_eq_true, if_false] at hlive
    exact iff_of_true (by omega) rfl
  · simp only [hdel, if_true] at hlive
    exact iff_of_false (by omega) Bool.noConfusion

/-- From a page whose count is exact, a call keeps it exact unless it deletes a
slot that is deleted already. -/
theorem tupleCount_step_iff (p : Page) (call : PageCall) (hp : p.Stacked)
    (hcount : p.tupleCount.toNat = p.liveCount) :
    (p.step call).tupleCount.toNat = (p.step call).liveCount ↔ p.DeletesLive call := by
  have hlen := hp.length_slots_lt
  have hle := p.liveCount_le
  cases call with
  | addTuple tuple =>
    rw [step_addTuple hp.freeSpaceOffset_le]
    split_ifs with hadm
    · rw [liveCount_withTuple hp.freeSpaceOffset_le, withTuple_tupleCount,
        UInt16.toNat_add, UInt16.toNat_one, Nat.mod_eq_of_lt (by omega)]
      simp [hcount, DeletesLive]
    · simp [hcount, DeletesLive]
  | deleteTuple k =>
    rw [step_deleteTuple]
    split_ifs with hrange
    · obtain ⟨i, rfl⟩ := Int.eq_ofNat_of_zero_le hrange.1
      have hi : i < p.slots.length := by omega
      have hget := List.getElem?_eq_getElem hi
      rw [Int.toNat_natCast, tupleCount_withoutTuple_iff hp hcount hget]
      constructor
      · rintro hlive j slot ⟨⟩ hslot
        rw [hget] at hslot
        cases hslot
        exact hlive
      · intro hall
        exact hall i _ rfl hget
    · refine iff_of_true hcount fun i slot hi hslot => ?_
      cases hi
      have hlt := (List.getElem?_eq_some_iff.mp hslot).1
      omega

theorem noWrap_of_exact (p : Page) (call : PageCall) (hp : p.Stacked)
    (hcount : p.tupleCount.toNat = p.liveCount)
    (hcount' : (p.step call).tupleCount.toNat = (p.step call).liveCount) : p.NoWrap call := by
  rw [NoWrap, hcount, hcount']
  cases call with
  | addTuple tuple =>
    rw [step_addTuple hp.freeSpaceOffset_le]
    split_ifs with hadm
    · rw [liveCount_withTuple hp.freeSpaceOffset_le]
      omega
    · omega
  | deleteTuple k =>
    rw [step_deleteTuple]
    split_ifs with hrange
    · have hlive := liveCount_withoutTuple (List.getElem?_eq_getElem (l := p.slots)
        (i := k.toNat) (by omega))
      split_ifs at hlive <;> omega
    · omega

/-- The tuple count is the number of live tuples throughout a run, and does not
wrap around, exactly when no call of the run deletes a deleted slot. -/
theorem tupleCount_exact_iff (id : UInt32) (calls : List PageCall) :
    (AllStates step (fun p => p.tupleCount.toNat = p.liveCount) (newPage id) calls ∧
      AllSteps step NoWrap (newPage id) calls) ↔
    AllSteps step DeletesLive (newPage id) calls := by
  have hiff := allStates_iff_allSteps (I := Stacked)
    (Q := fun p => p.tupleCount.toNat = p.liveCount) stacked_step
    (fun p call => tupleCount_step_iff p call) (stacked_newPage id) rfl calls
  refine ⟨fun h => hiff.mp h.1, fun h => ⟨hiff.mpr h, ?_⟩⟩
  exact allSteps_of_allStates stacked_step noWrap_of_exact (stacked_newPage id) (hiff.mpr h)

/-- Deleting the only tuple twice leaves no tuple and the count 65535. -/
theorem tupleCount_drifts : ¬ ∀ id calls,
    AllStates step (fun p => p.tupleCount.toNat = p.liveCount) (newPage id) calls ∧
      AllSteps step NoWrap (newPage id) calls := by
  intro h
  have hlast := (h 0 [.addTuple [0x61], .deleteTuple 0, .deleteTuple 0]).1.last
  exact absurd hlast (by decide)

end Page

end BuildYourOwnStuff.Storage
