import BuildYourOwnStuff.Storage.PageInvariant

/-!
# The space of deleted tuples

`DeleteTuple` sets the offset of a slot to 0xFFFF and its size to zero, so the
slot no longer says where its space is. The first-fit loop of `AddTuple` takes a
deleted slot whose size is large enough; on a page that the calls have built,
only an empty tuple finds one, and then `Data` is sliced at 0xFFFF.
-/

namespace BuildYourOwnStuff.Storage

open Foundations GoStd

namespace Page

/-- The bounds of the slice of `Data` that `AddTuple` takes, if it takes one. -/
def dataSlice (p : Page) (tuple : Bytes) : Option (ℕ × ℕ) :=
  match p.slots.findIdx? (canReuse tuple.length) with
  | some i =>
    let slot := p.slots.getD i deletedSlot
    some (slot.offset.toNat, slot.offset.toNat + tuple.length)
  | none =>
    if p.freeSpaceOffset.toNat < tuple.length + 2 * p.slots.length then none
    else
      let offset := p.freeSpaceOffset.toNat - tuple.length
      some (offset, offset + tuple.length)

/-- `AddTuple` returns an index or an error, and slices `Data` within the page. -/
def AddsSafely (p : Page) (tuple : Bytes) : Prop :=
  ((∃ r, p.addTuple tuple = .ok r) ∨ ∃ message, p.addTuple tuple = .error (.error message)) ∧
    ∀ lo hi, p.dataSlice tuple = some (lo, hi) → lo ≤ hi ∧ hi ≤ pageSize

/-- Deleted slots are as `DeleteTuple` leaves them. -/
def Cleared (p : Page) : Prop := ∀ slot ∈ p.slots, slot.isDeleted = true → slot = deletedSlot

theorem dataSlice_ordered {p : Page} {tuple : Bytes} {lo hi : ℕ}
    (h : p.dataSlice tuple = some (lo, hi)) : lo ≤ hi := by
  unfold dataSlice at h
  split at h
  · cases h
    exact Nat.le_add_right _ _
  · split_ifs at h
    cases h
    exact Nat.le_add_right _ _

/-- `AddTuple` panics exactly when it slices past the end of the page. -/
theorem addTuple_panics_iff {p : Page} {tuple : Bytes} : p.addTuple tuple = .error .panic ↔
    ∃ lo hi, p.dataSlice tuple = some (lo, hi) ∧ pageSize < hi := by
  unfold addTuple dataSlice
  cases p.slots.findIdx? (canReuse tuple.length) with
  | some i =>
    simp only [reuseSlot, Option.some.injEq, Prod.mk.injEq]
    split_ifs with hfit
    · simp only [false_iff]
      rintro ⟨lo, hi, ⟨rfl, rfl⟩, hlt⟩
      omega
    · exact iff_of_true rfl ⟨_, _, ⟨rfl, rfl⟩, by omega⟩
  | none =>
    dsimp only
    split_ifs with hspace hfit
    · simp
    · simp only [Option.some.injEq, Prod.mk.injEq, false_iff]
      rintro ⟨lo, hi, ⟨rfl, rfl⟩, hlt⟩
      omega
    · exact iff_of_true rfl ⟨_, _, rfl, by omega⟩

theorem addsSafely_iff_not_panic {p : Page} {tuple : Bytes} :
    p.AddsSafely tuple ↔ p.addTuple tuple ≠ .error .panic := by
  constructor
  · rintro ⟨⟨r, hr⟩ | ⟨message, hr⟩, -⟩ <;> simp [hr]
  · intro hpanic
    refine ⟨?_, fun lo hi hslice => ⟨dataSlice_ordered hslice, ?_⟩⟩
    · cases hadd : p.addTuple tuple with
      | ok r => exact .inl ⟨r, rfl⟩
      | error fault =>
        cases fault with
        | error message => exact .inr ⟨message, rfl⟩
        | panic => exact absurd hadd hpanic
    · by_contra hlt
      exact hpanic (addTuple_panics_iff.mpr ⟨lo, hi, hslice, not_le.mp hlt⟩)

/-- `AddTuple` is safe exactly when its first-fit loop takes no slot. -/
theorem addsSafely_iff_none {p : Page} {tuple : Bytes} (hle : p.freeSpaceOffset.toNat ≤ pageSize) :
    p.AddsSafely tuple ↔ ∀ slot ∈ p.slots, canReuse tuple.length slot = false := by
  rw [addsSafely_iff_not_panic]
  constructor
  · intro hpanic slot hmem
    by_contra htaken
    exact hpanic (addTuple_panics_of_canReuse hmem (Bool.eq_true_of_not_eq_false htaken))
  · intro hnone hpanic
    obtain ⟨lo, hi, hslice, hlt⟩ := addTuple_panics_iff.mp hpanic
    simp only [dataSlice, List.findIdx?_eq_none_iff.mpr hnone] at hslice
    split_ifs at hslice
    cases hslice
    omega

theorem cleared_newPage (id : UInt32) : (newPage id).Cleared := by simp [Cleared, newPage]

theorem Cleared.withTuple {p : Page} (hp : p.Cleared) (hle : p.freeSpaceOffset.toNat ≤ pageSize)
    (tuple : Bytes) : (p.withTuple tuple).Cleared := by
  intro slot hmem hdel
  rw [withTuple_slots, List.mem_append, List.mem_singleton] at hmem
  rcases hmem with hold | hnew
  · exact hp slot hold hdel
  · have hlive : (p.tupleSlot tuple).isDeleted = false := tupleSlot_live hle
    rw [tupleSlot, ← hnew, hdel] at hlive
    simp at hlive

theorem Cleared.withoutTuple {p : Page} (hp : p.Cleared) (i : ℕ) : (p.withoutTuple i).Cleared := by
  intro slot hmem hdel
  rw [withoutTuple_slots] at hmem
  rcases List.mem_or_eq_of_mem_set hmem with hold | hnew
  · exact hp slot hold hdel
  · exact hnew

theorem cleared_step (p : Page) (call : PageCall) (hp : p.Stacked ∧ p.Cleared) :
    (p.step call).Stacked ∧ (p.step call).Cleared :=
  step_preserves (I := fun p => p.Stacked ∧ p.Cleared) (fun _ hp => hp.1.freeSpaceOffset_le)
    (fun _ tuple hp h => ⟨hp.1.withTuple h, hp.2.withTuple hp.1.freeSpaceOffset_le tuple⟩)
    (fun _ i hp hi => ⟨hp.1.withoutTuple hi, hp.2.withoutTuple i⟩) p call hp

theorem cleared_run (id : UInt32) (calls : List PageCall) : ((newPage id).run calls).Cleared :=
  (foldl_invariant cleared_step ⟨stacked_newPage id, cleared_newPage id⟩ calls).2

/-- A cleared slot has room for the empty tuple only. -/
theorem Cleared.canReuse_iff {p : Page} (hp : p.Cleared) {slot : Slot} (hmem : slot ∈ p.slots)
    (tuple : Bytes) : canReuse tuple.length slot = true ↔ tuple = [] ∧ slot.isDeleted = true := by
  rw [canReuse, Bool.and_eq_true, decide_eq_true_eq, and_comm]
  apply and_congr_left
  intro hdel
  rw [hp slot hmem hdel, ← List.length_eq_zero_iff]
  exact Nat.le_zero

/-- On a page that the calls have built, `AddTuple` is safe exactly when the
tuple is not empty or no slot is deleted. -/
theorem addsSafely_iff (id : UInt32) (calls : List PageCall) (tuple : Bytes) :
    ((newPage id).run calls).AddsSafely tuple ↔
      tuple ≠ [] ∨ ∀ slot ∈ ((newPage id).run calls).slots, slot.isDeleted = false := by
  rw [addsSafely_iff_none (stacked_run id calls).freeSpaceOffset_le]
  constructor
  · intro hnone
    rw [or_iff_not_imp_left, not_not]
    intro hempty slot hmem
    by_contra hdel
    have htaken := ((cleared_run id calls).canReuse_iff hmem tuple).mpr
      ⟨hempty, Bool.eq_true_of_not_eq_false hdel⟩
    simp [hnone slot hmem] at htaken
  · intro hcond slot hmem
    by_contra htaken
    obtain ⟨hempty, hdel⟩ := ((cleared_run id calls).canReuse_iff hmem tuple).mp
      (Bool.eq_true_of_not_eq_false htaken)
    rcases hcond with hne | hlive
    · exact hne hempty
    · simp [hlive slot hmem] at hdel

theorem admits_single (id : UInt32) (b : UInt8) : (newPage id).Admits [b] := by
  have hspace : 1 + 2 * 0 ≤ pageSize := by decide
  exact ⟨List.forall_mem_nil _, hspace⟩

/-- Adding the empty tuple after a deletion slices `Data` at 0xFFFF. -/
theorem addTuple_unsafe : ¬ ∀ id calls tuple, ((newPage id).run calls).AddsSafely tuple := by
  intro h
  have hsafe := h 0 [.addTuple [0x61], .deleteTuple 0] []
  have hadm := admits_single 0 0x61
  have hslot : 0 < ((newPage 0).withTuple [0x61]).slots.length := by simp [withTuple_slots]
  have hstacked := ((stacked_newPage 0).withTuple hadm).withoutTuple hslot
  rw [run, List.foldl_cons, List.foldl_cons, List.foldl_nil, step_addTuple le_rfl, if_pos hadm,
    step_deleteTuple, if_pos ⟨le_rfl, by exact_mod_cast hslot⟩, Int.toNat_zero,
    addsSafely_iff_none hstacked.freeSpaceOffset_le] at hsafe
  have hnone := hsafe deletedSlot (List.mem_set hslot _)
  simp [canReuse, deletedSlot, Slot.isDeleted] at hnone

/-- What a deletion is for: once slot `i` is deleted, `AddTuple` puts `d` into a
deleted slot, no space is used up and the other tuples stay. -/
def ReusesSpace (p : Page) (i : ℕ) (d : Bytes) : Prop :=
  ∀ p₁, p.deleteTuple i = .ok p₁ → ∃ p₂ j, p₁.addTuple d = .ok (p₂, j) ∧
    (∃ slot, p₁.slots[j]? = some slot ∧ slot.isDeleted = true) ∧ p₂.read j = some d ∧
    p₂.freeSpaceOffset = p₁.freeSpaceOffset ∧ p₂.slots.length = p₁.slots.length ∧
    ∀ k t, p₁.read k = some t → p₂.read k = some t

theorem lt_of_read {p : Page} {i : ℕ} {t : Bytes} (h : p.read i = some t) : i < p.slots.length := by
  obtain ⟨slot, hslot, -⟩ := read_eq_some.mp h
  exact (List.getElem?_eq_some_iff.mp hslot).1

/-- A tuple is only ever put into a new slot. -/
theorem not_reusesSpace_of_lt {p : Page} {i : ℕ} (hi : i < p.slots.length) (d : Bytes) :
    ¬ p.ReusesSpace i d := by
  intro h
  obtain ⟨p₂, j, hadd, ⟨slot, hslot, -⟩, -⟩ := h _ (deleteTuple_eq_ok.mpr ⟨i, hi, rfl, rfl⟩)
  obtain ⟨-, -, hr⟩ := addTuple_eq_ok.mp hadd
  have hj : j = (p.withoutTuple i).slots.length := (Prod.mk.inj hr).2
  have hlt := (List.getElem?_eq_some_iff.mp hslot).1
  omega

/-- The space of a deleted tuple is reused on no page and for no tuple. -/
theorem space_never_reused (id : UInt32) (calls : List PageCall) {i : ℕ} {t : Bytes}
    (hread : ((newPage id).run calls).read i = some t) (d : Bytes) :
    ¬ ((newPage id).run calls).ReusesSpace i d :=
  not_reusesSpace_of_lt (lt_of_read hread) d

theorem read_single (id : UInt32) (b : UInt8) :
    ((newPage id).run [.addTuple [b]]).read 0 = some [b] := by
  have hadm := admits_single id b
  rw [run, List.foldl_cons, List.foldl_nil, step_addTuple le_rfl, if_pos hadm,
    read_withTuple (stacked_newPage id) hadm]
  rfl

theorem space_never_reused_single : ((newPage 0).run [.addTuple [0x61]]).read 0 = some [0x61] ∧
    ¬ ((newPage 0).run [.addTuple [0x61]]).ReusesSpace 0 [0x62] :=
  ⟨read_single 0 0x61, space_never_reused 0 [.addTuple [0x61]] (read_single 0 0x61) [0x62]⟩

/-- One byte added and deleted, then one byte added. -/
theorem space_lost : ¬ ∀ id calls i t d, ((newPage id).run calls).read i = some t →
    1 ≤ t.length → 1 ≤ d.length → d.length ≤ t.length →
      ((newPage id).run calls).ReusesSpace i d := by
  intro h
  have hread := read_single 0 0x61
  exact not_reusesSpace_of_lt (lt_of_read hread) [0x62]
    (h 0 [.addTuple [0x61]] 0 [0x61] [0x62] hread le_rfl le_rfl le_rfl)

end Page

end BuildYourOwnStuff.Storage
