import BuildYourOwnStuff.Foundations.Runs
import BuildYourOwnStuff.Storage.Page

/-!
# What the calls on a page do

`AddTuple` never succeeds on a deleted slot: the slot holds the offset 0xFFFF,
outside every page, so taking it panics. What is left is to append a tuple, to
mark a slot as deleted, or to leave the page as it is. `Page.step_addTuple` and
`Page.step_deleteTuple` say so once; every invariant of a page is derived from
them.
-/

namespace BuildYourOwnStuff.Storage

open Foundations GoStd

inductive PageCall
  | addTuple (tuple : Bytes)
  | deleteTuple (slotIndex : ℤ)
  deriving DecidableEq, Repr

namespace Page

/-- The page after a call; an error or a panic leaves it unchanged. -/
def step (p : Page) : PageCall → Page
  | .addTuple tuple =>
    match p.addTuple tuple with
    | .ok (p', _) => p'
    | .error _ => p
  | .deleteTuple slotIndex =>
    match p.deleteTuple slotIndex with
    | .ok p' => p'
    | .error _ => p

def run (p : Page) (calls : List PageCall) : Page := calls.foldl step p

/-- The admission test of `AddTuple`: no deleted slot is taken, and the space
asked for is below the free-space offset. -/
def Admits (p : Page) (tuple : Bytes) : Prop :=
  (∀ slot ∈ p.slots, canReuse tuple.length slot = false) ∧
    tuple.length + 2 * p.slots.length ≤ p.freeSpaceOffset.toNat

instance (p : Page) (tuple : Bytes) : Decidable (p.Admits tuple) :=
  inferInstanceAs (Decidable (_ ∧ _))

@[simp] theorem withTuple_tupleCount (p : Page) (tuple : Bytes) :
    (p.withTuple tuple).tupleCount = p.tupleCount + 1 := rfl

theorem withTuple_slots (p : Page) (tuple : Bytes) : (p.withTuple tuple).slots =
    p.slots ++ [⟨UInt16.ofNat (p.freeSpaceOffset.toNat - tuple.length),
      UInt16.ofNat tuple.length⟩] := rfl

@[simp] theorem withTuple_data (p : Page) (tuple : Bytes) : (p.withTuple tuple).data =
    overwrite p.data (p.freeSpaceOffset.toNat - tuple.length) tuple := rfl

@[simp] theorem withTuple_freeSpaceOffset (p : Page) (tuple : Bytes) :
    (p.withTuple tuple).freeSpaceOffset.toNat = p.freeSpaceOffset.toNat - tuple.length := by
  have hlt := p.freeSpaceOffset.toNat_lt
  exact UInt16.toNat_ofNat_of_lt' (by change _ < 2 ^ 16; omega)

@[simp] theorem withoutTuple_tupleCount (p : Page) (i : ℕ) :
    (p.withoutTuple i).tupleCount = p.tupleCount - 1 := rfl

@[simp] theorem withoutTuple_slots (p : Page) (i : ℕ) :
    (p.withoutTuple i).slots = p.slots.set i deletedSlot := rfl

@[simp] theorem withoutTuple_data (p : Page) (i : ℕ) : (p.withoutTuple i).data = p.data := rfl

@[simp] theorem withoutTuple_freeSpaceOffset (p : Page) (i : ℕ) :
    (p.withoutTuple i).freeSpaceOffset = p.freeSpaceOffset := rfl

theorem offset_of_isDeleted {slot : Slot} (h : slot.isDeleted = true) :
    slot.offset.toNat = 0xFFFF := by
  have hoff : slot.offset = 0xFFFF := by simpa [Slot.isDeleted] using h
  rw [hoff]
  rfl

/-- The reuse path always slices outside the page. -/
theorem reuseSlot_panics (p : Page) (tuple : Bytes) (i : ℕ) {slot : Slot}
    (h : slot.isDeleted = true) : p.reuseSlot tuple i slot = .error .panic := by
  have hoff := offset_of_isDeleted h
  rw [reuseSlot, if_neg]
  simp only [hoff, pageSize]
  omega

theorem addTuple_panics_of_canReuse {p : Page} {tuple : Bytes} {slot : Slot}
    (hmem : slot ∈ p.slots) (h : canReuse tuple.length slot = true) :
    p.addTuple tuple = .error .panic := by
  unfold addTuple
  cases hfind : p.slots.findIdx? (canReuse tuple.length) with
  | none =>
    rw [List.findIdx?_eq_none_iff] at hfind
    simp [hfind slot hmem] at h
  | some i =>
    obtain ⟨hlt, hi, _⟩ := List.findIdx?_eq_some_iff_getElem.mp hfind
    apply reuseSlot_panics
    rw [List.getD_eq_getElem?_getD, List.getElem?_eq_getElem hlt, Option.getD_some]
    simp only [canReuse, Bool.and_eq_true] at hi
    exact hi.1

/-- `AddTuple` returns exactly when the admission test passes, and then it has
appended a slot. -/
theorem addTuple_eq_ok {p : Page} {tuple : Bytes} {r : Page × ℕ} :
    p.addTuple tuple = .ok r ↔ p.Admits tuple ∧ p.freeSpaceOffset.toNat ≤ pageSize ∧
      r = (p.withTuple tuple, p.slots.length) := by
  by_cases hreuse : ∀ slot ∈ p.slots, canReuse tuple.length slot = false
  · have hfind := List.findIdx?_eq_none_iff.mpr hreuse
    simp only [addTuple, hfind, Admits]
    split_ifs with hspace hfit
    · simp only [false_iff]
      omega
    · simp only [Except.ok.injEq]
      constructor
      · rintro rfl
        exact ⟨⟨hreuse, by omega⟩, by omega, rfl⟩
      · rintro ⟨-, -, rfl⟩
        rfl
    · simp only [false_iff]
      omega
  · push Not at hreuse
    obtain ⟨slot, hmem, hslot⟩ := hreuse
    rw [addTuple_panics_of_canReuse hmem (by simpa using hslot)]
    simp only [reduceCtorEq, false_iff]
    rintro ⟨⟨hno, -⟩, -⟩
    exact hslot (hno slot hmem)

theorem deleteTuple_eq_ok {p p' : Page} {slotIndex : ℤ} :
    p.deleteTuple slotIndex = .ok p' ↔
      ∃ i < p.slots.length, slotIndex = i ∧ p' = p.withoutTuple i := by
  unfold deleteTuple
  split_ifs with hrange
  · simp only [false_iff]
    rintro ⟨i, hi, rfl, -⟩
    omega
  · simp only [Except.ok.injEq]
    constructor
    · rintro rfl
      exact ⟨slotIndex.toNat, by omega, by omega, rfl⟩
    · rintro ⟨i, -, rfl, rfl⟩
      simp

/-- On a page whose free-space offset is in range, `AddTuple` acts exactly when
the admission test passes. -/
theorem step_addTuple {p : Page} (h : p.freeSpaceOffset.toNat ≤ pageSize) (tuple : Bytes) :
    p.step (.addTuple tuple) = if p.Admits tuple then p.withTuple tuple else p := by
  split_ifs with hadm
  · simp [step, addTuple_eq_ok.mpr ⟨hadm, h, rfl⟩]
  · cases hadd : p.addTuple tuple with
    | error f => simp [step, hadd]
    | ok r => exact absurd (addTuple_eq_ok.mp hadd).1 hadm

theorem step_deleteTuple (p : Page) (slotIndex : ℤ) :
    p.step (.deleteTuple slotIndex) =
      if 0 ≤ slotIndex ∧ slotIndex < p.slots.length then p.withoutTuple slotIndex.toNat else p := by
  split_ifs with hrange
  · have hdel : p.deleteTuple slotIndex = .ok (p.withoutTuple slotIndex.toNat) :=
      deleteTuple_eq_ok.mpr ⟨slotIndex.toNat, by omega, by omega, rfl⟩
    simp [step, hdel]
  · cases hdel : p.deleteTuple slotIndex with
    | error f => simp [step, hdel]
    | ok p' =>
      obtain ⟨i, hi, rfl, -⟩ := deleteTuple_eq_ok.mp hdel
      omega

/-- A property that both ways of changing a page keep is kept by every call. -/
theorem step_preserves {I : Page → Prop}
    (hle : ∀ p, I p → p.freeSpaceOffset.toNat ≤ pageSize)
    (hadd : ∀ p tuple, I p → p.Admits tuple → I (p.withTuple tuple))
    (hdel : ∀ p i, I p → i < p.slots.length → I (p.withoutTuple i))
    (p : Page) (call : PageCall) (hp : I p) : I (p.step call) := by
  cases call with
  | addTuple tuple =>
    rw [step_addTuple (hle p hp)]
    split_ifs with hadm
    · exact hadd p tuple hp hadm
    · exact hp
  | deleteTuple slotIndex =>
    rw [step_deleteTuple]
    split_ifs with hrange
    · exact hdel p slotIndex.toNat hp (by omega)
    · exact hp

end Page

end BuildYourOwnStuff.Storage
