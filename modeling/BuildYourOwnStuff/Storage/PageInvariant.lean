import BuildYourOwnStuff.Storage.PageCalls
import Mathlib.Data.Finmap
import Mathlib.Order.CompletePartialOrder
import Mathlib.Order.Interval.Set.Disjoint

/-!
# The tuples of a page

Tuples are stacked: a live slot holds a range between the free-space offset and
the end of the page, and later slots lie below earlier ones. On such a page
`read` gives the tuple behind a slot index, and a page simulates a table of
tuples: `AddTuple` inserts at a new index and `DeleteTuple` erases an index.
-/

namespace BuildYourOwnStuff.Storage

open Foundations GoStd

namespace Page

/-- The slot that `AddTuple` appends. -/
def tupleSlot (p : Page) (tuple : Bytes) : Slot :=
  ⟨UInt16.ofNat (p.freeSpaceOffset.toNat - tuple.length), UInt16.ofNat tuple.length⟩

/-- Live slots hold stacked ranges, and the directory has outgrown the data by
one slot at most (at the two bytes a slot that the admission test charges). -/
structure Stacked (p : Page) : Prop where
  freeSpaceOffset_le : p.freeSpaceOffset.toNat ≤ pageSize
  slots_le : 2 * p.slots.length ≤ p.freeSpaceOffset.toNat + 2
  live_range : ∀ (i : ℕ) (slot : Slot), p.slots[i]? = some slot → slot.isDeleted = false →
    p.freeSpaceOffset.toNat ≤ slot.offset.toNat ∧
      slot.offset.toNat + slot.size.toNat ≤ pageSize
  below : ∀ (i j : ℕ) (slot slot' : Slot), i < j → p.slots[i]? = some slot →
    p.slots[j]? = some slot' → slot.isDeleted = false → slot'.isDeleted = false →
      slot'.offset.toNat + slot'.size.toNat ≤ slot.offset.toNat

/-- The tuple behind a slot index: `Data[Offset : Offset + Size]` of a live slot. -/
def read (p : Page) (i : ℕ) : Option Bytes :=
  match p.slots[i]? with
  | none => none
  | some slot =>
    if slot.isDeleted then none
    else slice p.data slot.offset.toNat (slot.offset.toNat + slot.size.toNat)

section TupleSlot

variable {p : Page} {tuple : Bytes}

theorem getElem?_withTuple (i : ℕ) : (p.withTuple tuple).slots[i]? =
    if i = p.slots.length then some (p.tupleSlot tuple) else p.slots[i]? := by
  rw [withTuple_slots, List.getElem?_append]
  split_ifs with hlt heq heq
  · omega
  · rfl
  · simp [heq, tupleSlot]
  · rw [List.getElem?_eq_none (by simp; omega), List.getElem?_eq_none (by omega)]

theorem tupleSlot_offset : (p.tupleSlot tuple).offset.toNat =
    p.freeSpaceOffset.toNat - tuple.length :=
  withTuple_freeSpaceOffset p tuple

theorem tupleSlot_size (h : p.Admits tuple) : (p.tupleSlot tuple).size.toNat = tuple.length := by
  have hlt := p.freeSpaceOffset.toNat_lt
  have hspace := h.2
  exact UInt16.toNat_ofNat_of_lt' (by change _ < 2 ^ 16; omega)

theorem tupleSlot_live (hle : p.freeSpaceOffset.toNat ≤ pageSize) :
    (p.tupleSlot tuple).isDeleted = false := by
  by_contra hdel
  have hoff := offset_of_isDeleted (Bool.eq_true_of_not_eq_false hdel)
  rw [tupleSlot_offset] at hoff
  simp only [pageSize] at hle
  omega

theorem getElem?_withoutTuple {i : ℕ} (hi : i < p.slots.length) (j : ℕ) :
    (p.withoutTuple i).slots[j]? = if j = i then some deletedSlot else p.slots[j]? := by
  rw [withoutTuple_slots]
  by_cases hj : j = i
  · rw [if_pos hj, hj, List.getElem?_set_self hi]
  · rw [if_neg hj, List.getElem?_set_ne (Ne.symm hj)]

end TupleSlot

theorem stacked_newPage (id : UInt32) : (newPage id).Stacked where
  freeSpaceOffset_le := le_rfl
  slots_le := Nat.zero_le _
  live_range := by simp [newPage]
  below := by simp [newPage]

theorem Stacked.withTuple {p : Page} (hp : p.Stacked) {tuple : Bytes} (h : p.Admits tuple) :
    (p.withTuple tuple).Stacked where
  freeSpaceOffset_le := by
    have hle := hp.freeSpaceOffset_le
    rw [withTuple_freeSpaceOffset]
    omega
  slots_le := by
    have hspace := h.2
    rw [withTuple_freeSpaceOffset, withTuple_slots, List.length_append, List.length_singleton]
    omega
  live_range := by
    intro i slot hi hlive
    have hspace := h.2
    have hle := hp.freeSpaceOffset_le
    rw [withTuple_freeSpaceOffset]
    rw [getElem?_withTuple] at hi
    split_ifs at hi with heq
    · cases hi
      rw [tupleSlot_offset, tupleSlot_size h]
      omega
    · have hrange := hp.live_range i slot hi hlive
      omega
  below := by
    intro i j slot slot' hij hi hj hlive hlive'
    have hspace := h.2
    rw [getElem?_withTuple] at hi hj
    split_ifs at hj with hjn
    · cases hj
      rw [if_neg (by omega)] at hi
      rw [tupleSlot_offset, tupleSlot_size h]
      have hrange := hp.live_range i slot hi hlive
      omega
    · have hjlt := (List.getElem?_eq_some_iff.mp hj).1
      rw [if_neg (by omega)] at hi
      exact hp.below i j slot slot' hij hi hj hlive hlive'

theorem Stacked.withoutTuple {p : Page} (hp : p.Stacked) {i : ℕ} (hi : i < p.slots.length) :
    (p.withoutTuple i).Stacked := by
  have hold : ∀ (j : ℕ) (slot : Slot), (p.withoutTuple i).slots[j]? = some slot →
      slot.isDeleted = false →
      p.slots[j]? = some slot := by
    intro j slot hj hlive
    rw [getElem?_withoutTuple hi] at hj
    split_ifs at hj with heq
    · cases hj
      simp [deletedSlot, Slot.isDeleted] at hlive
    · exact hj
  constructor
  · exact hp.freeSpaceOffset_le
  · simpa using hp.slots_le
  · intro j slot hj hlive
    exact hp.live_range j slot (hold j slot hj hlive) hlive
  · intro j k slot slot' hjk hj hk hlive hlive'
    exact hp.below j k slot slot' hjk (hold j slot hj hlive) (hold k slot' hk hlive')
      hlive hlive'

theorem stacked_step (p : Page) (call : PageCall) (hp : p.Stacked) : (p.step call).Stacked :=
  step_preserves (I := Stacked) (fun _ hp => hp.freeSpaceOffset_le)
    (fun _ _ hp h => hp.withTuple h) (fun _ _ hp hi => hp.withoutTuple hi) p call hp

theorem stacked_run (id : UInt32) (calls : List PageCall) : ((newPage id).run calls).Stacked :=
  foldl_invariant stacked_step (stacked_newPage id) calls

theorem read_of_slot {p : Page} {i : ℕ} {slot : Slot} (hi : p.slots[i]? = some slot)
    (hlive : slot.isDeleted = false) :
    p.read i = slice p.data slot.offset.toNat (slot.offset.toNat + slot.size.toNat) := by
  simp [read, hi, hlive]

theorem read_eq_some {p : Page} {i : ℕ} {d : Bytes} : p.read i = some d ↔
    ∃ slot, p.slots[i]? = some slot ∧ slot.isDeleted = false ∧
      slice p.data slot.offset.toNat (slot.offset.toNat + slot.size.toNat) = some d := by
  unfold read
  cases hi : p.slots[i]? with
  | none => simp
  | some slot => cases hdel : slot.isDeleted <;> simp [hdel]

/-- An appended tuple is read at the new index; the write is below every other tuple. -/
theorem read_withTuple {p : Page} (hp : p.Stacked) {tuple : Bytes} (h : p.Admits tuple) (i : ℕ) :
    (p.withTuple tuple).read i = if i = p.slots.length then some tuple else p.read i := by
  have hspace := h.2
  have hle := hp.freeSpaceOffset_le
  unfold read
  rw [getElem?_withTuple]
  split_ifs with heq
  · dsimp only
    rw [tupleSlot_live hle, if_neg Bool.false_ne_true, tupleSlot_offset, tupleSlot_size h,
      withTuple_data]
    apply slice_overwrite_self
    rw [p.data_length]
    omega
  · cases hi : p.slots[i]? with
    | none => rfl
    | some slot =>
      dsimp only
      split_ifs with hdel
      · rfl
      · have hrange := hp.live_range i slot hi (Bool.eq_false_of_not_eq_true hdel)
        rw [withTuple_data]
        exact slice_overwrite_of_disjoint (.inr (by omega))

theorem read_withoutTuple {p : Page} {i : ℕ} (hi : i < p.slots.length) (j : ℕ) :
    (p.withoutTuple i).read j = if j = i then none else p.read j := by
  unfold read
  rw [getElem?_withoutTuple hi]
  split_ifs with heq
  · simp [deletedSlot, Slot.isDeleted]
  · rfl

/-- A live slot always has its tuple inside the page. -/
theorem Stacked.exists_read {p : Page} (hp : p.Stacked) {i : ℕ} {slot : Slot}
    (hi : p.slots[i]? = some slot) (hlive : slot.isDeleted = false) : ∃ d, p.read i = some d := by
  have hrange := hp.live_range i slot hi hlive
  rw [read_of_slot hi hlive]
  exact ⟨_, slice_eq_some.mpr ⟨by omega, by rw [p.data_length]; omega, rfl⟩⟩

end Page

end BuildYourOwnStuff.Storage
