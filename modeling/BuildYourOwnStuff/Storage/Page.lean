import BuildYourOwnStuff.GoStd.Slices

/-!
# The page of `simple_page_impl`

A page has a header, a directory of slots growing from its start, and tuple
data growing from its end. In memory the slots are kept apart from the data,
which has the size of the whole page; `serialize` lays both out in one buffer
and `deserializePage` reads such a buffer back.
-/

namespace BuildYourOwnStuff.Storage

open Foundations GoStd

def pageSize : ℕ := 4096

/-- ID (4 bytes), tuple count (2) and free-space offset (2). -/
def headerSize : ℕ := 8

/-- Each slot has an offset (2 bytes) and a size (2 bytes). -/
def slotSize : ℕ := 4

structure Slot where
  offset : UInt16
  size : UInt16
  deriving DecidableEq, Repr

def Slot.isDeleted (s : Slot) : Bool := s.offset == 0xFFFF

/-- What `DeleteTuple` leaves in a slot. -/
def deletedSlot : Slot := ⟨0xFFFF, 0⟩

/-- A page in memory; its data always has the size of a page. -/
structure Page where
  id : UInt32
  tupleCount : UInt16
  freeSpaceOffset : UInt16
  slots : List Slot
  data : Bytes
  data_length : data.length = pageSize

namespace Page

/-- The header, written at the start of the buffer. -/
def putHeader (p : Page) (buf : Bytes) : Outcome Bytes := do
  let buf ← putUint32 buf 0 p.id
  let buf ← putUint16 buf 4 p.tupleCount
  putUint16 buf 6 p.freeSpaceOffset

/-- Entry `i` of the slot directory. -/
def putSlot (buf : Bytes) (i : ℕ) (slot : Slot) : Outcome Bytes := do
  let base := headerSize + i * slotSize
  let buf ← putUint16 buf base slot.offset
  putUint16 buf (base + 2) slot.size

/-- The slot loop of `Serialize`, from entry `i` on. -/
def putSlots (buf : Bytes) (i : ℕ) : List Slot → Outcome Bytes
  | [] => .ok buf
  | slot :: slots => do
    let buf ← putSlot buf i slot
    putSlots buf (i + 1) slots

def serialize (p : Page) : Outcome Bytes := do
  let buf ← p.putHeader (List.replicate pageSize 0)
  let buf ← putSlots buf 0 p.slots
  -- both buffers have the size of a page, so one bound serves for both slices
  if p.freeSpaceOffset.toNat ≤ pageSize then
    .ok (overwrite buf p.freeSpaceOffset.toNat (p.data.drop p.freeSpaceOffset.toNat))
  else .error .panic

/-- Entry `i` of the slot directory. -/
def readSlot (data : GoSlice) (i : ℕ) : Outcome Slot := do
  let base := headerSize + i * slotSize
  let offset ← uint16 (← data.tail base)
  let size ← uint16 (← data.tail (base + 2))
  return ⟨offset, size⟩

/-- The slot loop of `DeserializePage`: the next `count` entries, from entry `i` on. -/
def readSlots (data : GoSlice) (i : ℕ) : ℕ → Outcome (List Slot)
  | 0 => .ok []
  | count + 1 => do
    let slot ← readSlot data i
    let slots ← readSlots data (i + 1) count
    return slot :: slots

def deserializePage (data : GoSlice) : Outcome Page := do
  let id ← uint32 (← data.sub 0 4)
  let tupleCount ← uint16 (← data.sub 4 6)
  let freeSpaceOffset ← uint16 (← data.sub 6 8)
  let slots ← readSlots data 0 tupleCount.toNat
  let rest ← data.tail (headerSize + tupleCount.toNat * slotSize)
  return {
    id, tupleCount, freeSpaceOffset, slots
    data := overwrite (List.replicate pageSize 0) 0 rest
    data_length := by simp }

/-- The slots that the first-fit loop of `AddTuple` takes. -/
def canReuse (tupleSize : ℕ) (slot : Slot) : Bool :=
  slot.isDeleted && decide (tupleSize ≤ slot.size.toNat)

/-- Write a tuple at the offset that a deleted slot holds. -/
def reuseSlot (p : Page) (tuple : Bytes) (i : ℕ) (slot : Slot) : Outcome (Page × ℕ) :=
  if slot.offset.toNat + tuple.length ≤ pageSize then
    .ok ({ p with
      data := overwrite p.data slot.offset.toNat tuple
      data_length := by simp [p.data_length]
      slots := p.slots.set i { slot with size := UInt16.ofNat tuple.length } }, i)
  else .error .panic

/-- The page with a tuple written below the tuple data and its slot appended. -/
def withTuple (p : Page) (tuple : Bytes) : Page :=
  let offset := p.freeSpaceOffset.toNat - tuple.length
  { p with
    data := overwrite p.data offset tuple
    data_length := by simp [p.data_length]
    slots := p.slots ++ [⟨UInt16.ofNat offset, UInt16.ofNat tuple.length⟩]
    freeSpaceOffset := UInt16.ofNat offset
    tupleCount := p.tupleCount + 1 }

def addTuple (p : Page) (tuple : Bytes) : Outcome (Page × ℕ) :=
  match p.slots.findIdx? (canReuse tuple.length) with
  | some i => p.reuseSlot tuple i (p.slots.getD i deletedSlot)
  | none =>
    if p.freeSpaceOffset.toNat < tuple.length + 2 * p.slots.length then
      .error (.error "not enough space in page")
    else if p.freeSpaceOffset.toNat - tuple.length + tuple.length ≤ pageSize then
      .ok (p.withTuple tuple, p.slots.length)
    else .error .panic

/-- The page with slot `i` marked as deleted. -/
def withoutTuple (p : Page) (i : ℕ) : Page :=
  { p with slots := p.slots.set i deletedSlot, tupleCount := p.tupleCount - 1 }

def deleteTuple (p : Page) (slotIndex : ℤ) : Outcome Page :=
  if slotIndex < 0 ∨ (p.slots.length : ℤ) ≤ slotIndex then
    .error (.error s!"slot index out of range: {slotIndex}")
  else .ok (p.withoutTuple slotIndex.toNat)

end Page

/-- The page that `AllocateNewPage` builds. -/
def newPage (id : UInt32) : Page where
  id := id
  tupleCount := 0
  freeSpaceOffset := UInt16.ofNat pageSize
  slots := []
  data := List.replicate pageSize 0
  data_length := List.length_replicate

end BuildYourOwnStuff.Storage
