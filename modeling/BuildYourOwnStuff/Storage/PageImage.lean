import BuildYourOwnStuff.Storage.PageInvariant

/-!
# The image of a page on disk

`serialize` writes the directory (header and slots) and then copies the tuple
data from the free-space offset on, over whatever lies there. `deserializePage`
reads a directory with as many slots as its tuple count says and takes all that
follows as tuple data.
-/

namespace BuildYourOwnStuff.Storage

open Foundations GoStd

def Slot.bytes (s : Slot) : Bytes := leBytes 2 s.offset.toNat ++ leBytes 2 s.size.toNat

/-- The header and the slots as `serialize` lays them out. -/
def directory (id : UInt32) (count freeSpaceOffset : UInt16) (slots : List Slot) : Bytes :=
  leBytes 4 id.toNat ++ leBytes 2 count.toNat ++ leBytes 2 freeSpaceOffset.toNat ++
    slots.flatMap Slot.bytes

@[simp] theorem Slot.length_bytes (s : Slot) : s.bytes.length = slotSize := by
  simp [Slot.bytes, slotSize]

@[simp] theorem length_flatMap_bytes (slots : List Slot) :
    (slots.flatMap Slot.bytes).length = slotSize * slots.length := by
  induction slots with
  | nil => rfl
  | cons slot slots ih =>
    rw [List.flatMap_cons, List.length_append, ih, Slot.length_bytes, List.length_cons]
    ring

@[simp] theorem length_directory (id : UInt32) (count fso : UInt16) (slots : List Slot) :
    (directory id count fso slots).length = headerSize + slotSize * slots.length := by
  simp only [directory, List.length_append, length_leBytes, length_flatMap_bytes, headerSize]

namespace Page

theorem putSlot_append (slot : Slot) {pre rest : Bytes} {i : ℕ}
    (hpre : pre.length = headerSize + i * slotSize) (h : slotSize ≤ rest.length) :
    putSlot (pre ++ rest) i slot = .ok (pre ++ slot.bytes ++ rest.drop slotSize) := by
  simp only [slotSize] at h
  have hpre' : (pre ++ leBytes 2 slot.offset.toNat).length = headerSize + i * slotSize + 2 := by
    rw [List.length_append, hpre, length_leBytes]
  refine bind_eq_ok.mpr ⟨_, writeLe_append _ _ hpre (by omega), ?_⟩
  rw [putUint16, writeLe_append _ _ hpre' (by rw [List.length_drop]; omega), List.drop_drop,
    Slot.bytes, List.append_assoc pre]
  rfl

theorem putSlot_panics (slot : Slot) {buf : Bytes} {i : ℕ}
    (h : buf.length < headerSize + i * slotSize + slotSize) :
    putSlot buf i slot = .error .panic := by
  simp only [slotSize] at h
  by_cases hoff : headerSize + i * slotSize + 2 ≤ buf.length
  · have hput : putUint16 buf (headerSize + i * slotSize) slot.offset = .ok _ := if_pos hoff
    simp only [putSlot, hput, bind, Except.bind]
    exact writeLe_panics _ (by rw [length_overwrite]; simp only [slotSize]; omega)
  · have hput : putUint16 buf (headerSize + i * slotSize) slot.offset = .error .panic := if_neg hoff
    simp only [putSlot, hput, bind, Except.bind]

theorem length_append_bytes (slot : Slot) {pre : Bytes} {i : ℕ}
    (hpre : pre.length = headerSize + i * slotSize) :
    (pre ++ slot.bytes).length = headerSize + (i + 1) * slotSize := by
  rw [List.length_append, hpre, Slot.length_bytes, Nat.succ_mul, Nat.add_assoc]

theorem putSlots_append (slots : List Slot) (rest : Bytes) {pre : Bytes} {i : ℕ}
    (hpre : pre.length = headerSize + i * slotSize) (h : slotSize * slots.length ≤ rest.length) :
    putSlots (pre ++ rest) i slots =
      .ok (pre ++ slots.flatMap Slot.bytes ++ rest.drop (slotSize * slots.length)) := by
  induction slots generalizing pre rest i with
  | nil => simp [putSlots]
  | cons slot slots ih =>
    rw [List.length_cons, Nat.mul_succ] at h
    have htail := ih (rest.drop slotSize) (length_append_bytes slot hpre)
      (by rw [List.length_drop]; omega)
    refine bind_eq_ok.mpr ⟨_, putSlot_append slot hpre (by omega), ?_⟩
    rw [htail, List.drop_drop, List.flatMap_cons, List.append_assoc pre, List.length_cons,
      Nat.mul_succ, Nat.add_comm slotSize]

theorem putSlots_panics (slots : List Slot) (rest : Bytes) {pre : Bytes} {i : ℕ}
    (hpre : pre.length = headerSize + i * slotSize) (h : rest.length < slotSize * slots.length) :
    putSlots (pre ++ rest) i slots = .error .panic := by
  induction slots generalizing pre rest i with
  | nil => simp at h
  | cons slot slots ih =>
    rw [List.length_cons, Nat.mul_succ] at h
    rw [putSlots]
    by_cases hfit : slotSize ≤ rest.length
    · rw [putSlot_append slot hpre hfit]
      exact ih _ (length_append_bytes slot hpre) (by rw [List.length_drop]; omega)
    · rw [putSlot_panics slot (by rw [List.length_append, hpre]; omega)]
      rfl

theorem putHeader_eq (p : Page) (buf : Bytes) (h : headerSize ≤ buf.length) :
    p.putHeader buf = .ok (leBytes 4 p.id.toNat ++ leBytes 2 p.tupleCount.toNat ++
      leBytes 2 p.freeSpaceOffset.toNat ++ buf.drop headerSize) := by
  simp only [headerSize] at h
  refine bind_eq_ok.mpr ⟨_, writeLe_append [] _ rfl (by omega), ?_⟩
  refine bind_eq_ok.mpr ⟨_, writeLe_append _ _ (by simp) (by rw [List.length_drop]; omega), ?_⟩
  rw [putUint16, writeLe_append _ _ (by simp) (by simp only [List.length_drop]; omega),
    List.drop_drop, List.drop_drop]
  rfl

/-- The header and slots of a page as it is in memory. -/
def directory (p : Page) : Bytes :=
  Storage.directory p.id p.tupleCount p.freeSpaceOffset p.slots

/-- The end of the directory. -/
def directoryEnd (p : Page) : ℕ := headerSize + slotSize * p.slots.length

@[simp] theorem length_directory (p : Page) : p.directory.length = p.directoryEnd :=
  Storage.length_directory _ _ _ _

/-- The directory followed by zeros, with the tuple data copied over it. -/
def image (p : Page) : Bytes :=
  (p.directory ++ List.replicate (pageSize - p.directoryEnd) 0).take p.freeSpaceOffset.toNat ++
    p.data.drop p.freeSpaceOffset.toNat

/-- `Serialize` returns exactly when the directory and the free-space offset fit
in a page. -/
theorem serialize_eq_ok {p : Page} {buf : Bytes} : p.serialize = .ok buf ↔
    p.directoryEnd ≤ pageSize ∧ p.freeSpaceOffset.toNat ≤ pageSize ∧ buf = p.image := by
  have hheader : headerSize ≤ pageSize := by decide
  have hput := p.putHeader_eq (List.replicate pageSize 0) (by simpa using hheader)
  rw [List.drop_replicate] at hput
  have hpre : (leBytes 4 p.id.toNat ++ leBytes 2 p.tupleCount.toNat ++
      leBytes 2 p.freeSpaceOffset.toNat).length = headerSize + 0 * slotSize := by
    simp [headerSize]
  unfold directoryEnd
  by_cases hdir : headerSize + slotSize * p.slots.length ≤ pageSize
  · have hslots := putSlots_append p.slots (List.replicate (pageSize - headerSize) 0) hpre
      (by rw [List.length_replicate]; omega)
    rw [List.drop_replicate, Nat.sub_sub] at hslots
    have hlen : (p.directory ++
        List.replicate (pageSize - (headerSize + slotSize * p.slots.length)) 0).length =
          pageSize := by
      rw [List.length_append, length_directory, directoryEnd, List.length_replicate]
      omega
    rw [serialize, hput]
    change (putSlots _ 0 p.slots >>= _) = _ ↔ _
    rw [hslots]
    change (if _ then _ else _) = _ ↔ _
    split_ifs with hle
    · have himage := @overwrite_to_end _ (p.directory ++
          List.replicate (pageSize - (headerSize + slotSize * p.slots.length)) 0)
        (p.data.drop p.freeSpaceOffset.toNat) p.freeSpaceOffset.toNat
        (by rw [hlen, List.length_drop, p.data_length]; omega)
      rw [Except.ok.injEq, eq_comm]
      simp only [hdir, hle, true_and]
      exact Eq.congr_right himage
    · simp [hle]
  · have hslots := putSlots_panics p.slots (List.replicate (pageSize - headerSize) 0) hpre
      (by rw [List.length_replicate]; omega)
    rw [serialize, hput]
    change (putSlots _ 0 p.slots >>= _) = _ ↔ _
    rw [hslots]
    simp [hdir, bind, Except.bind]

theorem getElem?_image {p : Page} (hdir : p.directoryEnd ≤ pageSize)
    (hfso : p.freeSpaceOffset.toNat ≤ pageSize) (x : ℕ) : p.image[x]? =
      if x < p.freeSpaceOffset.toNat then
        (p.directory ++ List.replicate (pageSize - p.directoryEnd) 0)[x]?
      else p.data[x]? := by
  have hlen : ((p.directory ++ List.replicate (pageSize - p.directoryEnd) 0).take
      p.freeSpaceOffset.toNat).length = p.freeSpaceOffset.toNat := by
    rw [List.length_take, List.length_append, length_directory, List.length_replicate]
    omega
  rw [image, List.getElem?_append, hlen, List.getElem?_take, List.getElem?_drop]
  split_ifs with hx
  · rfl
  · rw [Nat.add_sub_cancel' (by omega)]

/-- The byte at `x` of a page as it is laid out: the directory and zeros below
the free-space offset, the tuple data above it. -/
def layoutByte (p : Page) (x : ℕ) : UInt8 :=
  if x < p.freeSpaceOffset.toNat then p.directory.getD x 0 else p.data.getD x 0

theorem getD_image {p : Page} (hdir : p.directoryEnd ≤ pageSize)
    (hfso : p.freeSpaceOffset.toNat ≤ pageSize) (x : ℕ) :
    p.image.getD x 0 = p.layoutByte x := by
  rw [List.getD_eq_getElem?_getD, getElem?_image hdir hfso, layoutByte]
  split_ifs with hx
  · rw [List.getElem?_append, List.getD_eq_getElem?_getD]
    split_ifs with hlt
    · rfl
    · rw [List.getElem?_eq_none (Nat.not_lt.mp hlt), List.getElem?_replicate]
      split_ifs <;> rfl
  · rfl

theorem length_of_serialize {p : Page} {buf : Bytes} (h : p.serialize = .ok buf) :
    buf.length = pageSize := by
  obtain ⟨hdir, hfso, rfl⟩ := serialize_eq_ok.mp h
  rw [image, List.length_append, List.length_take, List.length_append, length_directory,
    List.length_replicate, List.length_drop, p.data_length]
  omega

theorem readSlot_append (slot : Slot) (rest spare : Bytes) {pre : Bytes} {i : ℕ}
    (hpre : pre.length = headerSize + i * slotSize) :
    readSlot ⟨pre ++ slot.bytes ++ rest, spare⟩ i = .ok slot := by
  have hoff : GoSlice.tail ⟨pre ++ slot.bytes ++ rest, spare⟩ (headerSize + i * slotSize) =
      .ok (leBytes 2 slot.offset.toNat ++ (leBytes 2 slot.size.toNat ++ rest)) := by
    rw [GoSlice.tail, if_pos (by simp [hpre]), ← hpre, List.append_assoc, List.drop_left,
      Slot.bytes, List.append_assoc]
  have hsize : GoSlice.tail ⟨pre ++ slot.bytes ++ rest, spare⟩ (headerSize + i * slotSize + 2) =
      .ok (leBytes 2 slot.size.toNat ++ rest) := by
    rw [GoSlice.tail, if_pos (by simp [hpre, slotSize]; omega), ← List.drop_drop, ← hpre,
      List.append_assoc, List.drop_left, Slot.bytes, List.append_assoc]
    rfl
  simp only [readSlot, hoff, hsize, uint16_append, bind, Except.bind, pure, Except.pure]

theorem readSlots_append (slots : List Slot) (rest spare : Bytes) {pre : Bytes} {i : ℕ}
    (hpre : pre.length = headerSize + i * slotSize) :
    readSlots ⟨pre ++ slots.flatMap Slot.bytes ++ rest, spare⟩ i slots.length = .ok slots := by
  induction slots generalizing pre i with
  | nil => rfl
  | cons slot slots ih =>
    have hsplit : pre ++ (slot :: slots).flatMap Slot.bytes ++ rest =
        pre ++ slot.bytes ++ (slots.flatMap Slot.bytes ++ rest) := by
      rw [List.flatMap_cons, List.append_assoc, List.append_assoc, List.append_assoc]
    have hslot := readSlot_append slot (slots.flatMap Slot.bytes ++ rest) spare hpre
    have htail := ih (length_append_bytes slot hpre)
    rw [List.append_assoc] at htail
    rw [hsplit, List.length_cons]
    exact bind_eq_ok.mpr ⟨_, hslot, bind_eq_ok.mpr ⟨_, htail, rfl⟩⟩

theorem bytes_of_readSlot {data : GoSlice} {i : ℕ} {slot : Slot} (h : readSlot data i = .ok slot) :
    slot.bytes = (data.elements.drop (headerSize + i * slotSize)).take slotSize := by
  simp only [readSlot, bind_eq_ok] at h
  obtain ⟨_, hoff, offset, hoffset, _, hsz, size, hsize, hslot⟩ := h
  cases hslot
  have hoffset' := leBytes_of_uint16 hoffset
  have hsize' := leBytes_of_uint16 hsize
  unfold GoSlice.tail at hoff hsz
  split_ifs at hoff hsz
  cases hoff
  cases hsz
  rw [Slot.bytes, hoffset', hsize', ← List.drop_drop (i := 2)]
  exact (List.take_add (i := 2) (j := 2)).symm

/-- The slots read are those whose bytes follow. -/
theorem bytes_of_readSlots {data : GoSlice} {i count : ℕ} {slots : List Slot}
    (h : readSlots data i count = .ok slots) :
    slots.length = count ∧ slots.flatMap Slot.bytes =
      (data.elements.drop (headerSize + i * slotSize)).take (slotSize * count) := by
  induction count generalizing i slots with
  | zero =>
    cases h
    simp
  | succ count ih =>
    simp only [readSlots, bind_eq_ok] at h
    obtain ⟨slot, hslot, slots', hslots, heq⟩ := h
    cases heq
    obtain ⟨hlen, hbytes⟩ := ih hslots
    refine ⟨by rw [List.length_cons, hlen], ?_⟩
    rw [List.flatMap_cons, bytes_of_readSlot hslot, hbytes, Nat.mul_succ, Nat.add_comm _ slotSize,
      List.take_add, List.drop_drop, Nat.succ_mul, Nat.add_assoc]

theorem length_loaded (rest : Bytes) :
    (overwrite (List.replicate pageSize 0) 0 rest).length = pageSize := by
  rw [length_overwrite, List.length_replicate]

/-- The page that `DeserializePage` makes of a directory and the bytes after it. -/
def ofDirectory (id : UInt32) (count fso : UInt16) (slots : List Slot) (rest : Bytes) : Page where
  id := id
  tupleCount := count
  freeSpaceOffset := fso
  slots := slots
  data := overwrite (List.replicate pageSize 0) 0 rest
  data_length := length_loaded rest

theorem ofDirectory_data (id : UInt32) (count fso : UInt16) (slots : List Slot) (rest : Bytes) :
    (ofDirectory id count fso slots rest).data =
      overwrite (List.replicate pageSize 0) 0 rest := rfl

theorem sub_append (pre mid post : Bytes) {lo hi : ℕ} (hpre : pre.length = lo)
    (hmid : lo + mid.length = hi) :
    GoSlice.sub (.ofBytes (pre ++ (mid ++ post))) lo hi = .ok mid := by
  rw [GoSlice.sub_ofBytes _ (by omega) (by simp only [List.length_append]; omega), ← hpre,
    List.drop_left, List.take_left' (by omega)]

/-- Reading back a directory whose count is the number of its slots. -/
theorem deserializePage_directory (id : UInt32) (fso : UInt16) {count : UInt16} {slots : List Slot}
    (h : slots.length = count.toNat) (rest : Bytes) :
    deserializePage (.ofBytes (Storage.directory id count fso slots ++ rest)) =
      .ok (ofDirectory id count fso slots rest) := by
  have hbuf : Storage.directory id count fso slots ++ rest = leBytes 4 id.toNat ++
      (leBytes 2 count.toNat ++ (leBytes 2 fso.toNat ++ (slots.flatMap Slot.bytes ++ rest))) := by
    simp only [Storage.directory, List.append_assoc]
  have hid := sub_append [] (leBytes 4 id.toNat)
    (leBytes 2 count.toNat ++ (leBytes 2 fso.toNat ++ (slots.flatMap Slot.bytes ++ rest)))
    rfl (show 0 + _ = 4 by simp)
  have hcount := sub_append (leBytes 4 id.toNat) (leBytes 2 count.toNat)
    (leBytes 2 fso.toNat ++ (slots.flatMap Slot.bytes ++ rest))
    (length_leBytes 4 _) (show 4 + _ = 6 by simp)
  have hfso := sub_append (leBytes 4 id.toNat ++ leBytes 2 count.toNat) (leBytes 2 fso.toNat)
    (slots.flatMap Slot.bytes ++ rest) (show _ = 6 by simp) (show 6 + _ = 8 by simp)
  have hslots := @readSlots_append slots rest []
    (leBytes 4 id.toNat ++ leBytes 2 count.toNat ++ leBytes 2 fso.toNat) 0 (by simp [headerSize])
  have hlen : (Storage.directory id count fso slots).length =
      headerSize + count.toNat * slotSize := by
    rw [Storage.length_directory, h, Nat.mul_comm]
  have htail : GoSlice.tail (.ofBytes (Storage.directory id count fso slots ++ rest))
      (headerSize + count.toNat * slotSize) = .ok rest := by
    rw [GoSlice.tail, GoSlice.ofBytes, if_pos (by simp only [List.length_append]; omega), ← hlen,
      List.drop_left]
  have h16 (v : UInt16) : uint16 (leBytes 2 v.toNat) = .ok v := by
    simpa using uint16_append v []
  have h32 : uint32 (leBytes 4 id.toNat) = .ok id := by simpa using uint32_append id []
  rw [h] at hslots
  simp only [List.append_assoc, List.nil_append] at hid hcount hfso hslots
  rw [hbuf] at htail ⊢
  refine bind_eq_ok.mpr ⟨_, hid, bind_eq_ok.mpr ⟨_, h32, bind_eq_ok.mpr ⟨_, hcount,
    bind_eq_ok.mpr ⟨_, h16 _, bind_eq_ok.mpr ⟨_, hfso, bind_eq_ok.mpr ⟨_, h16 _,
    bind_eq_ok.mpr ⟨_, hslots, bind_eq_ok.mpr ⟨_, htail, rfl⟩⟩⟩⟩⟩⟩⟩⟩

/-- A page is only read from a buffer that begins with its directory. -/
theorem directory_of_deserializePage {buf : Bytes} {q : Page}
    (h : deserializePage (.ofBytes buf) = .ok q) :
    q.slots.length = q.tupleCount.toNat ∧ buf.take q.directoryEnd = q.directory ∧
      q.directoryEnd ≤ buf.length := by
  simp only [deserializePage, bind_eq_ok] at h
  obtain ⟨b0, hb0, id, hid, b1, hb1, count, hcount, b2, hb2, fso, hfso, slots, hslots, rest, htail,
    heq⟩ := h
  cases heq
  obtain ⟨hlen, hbytes⟩ := bytes_of_readSlots hslots
  have hend : headerSize + slotSize * slots.length ≤ buf.length := by
    unfold GoSlice.tail at htail
    split_ifs at htail with hle
    rw [hlen, Nat.mul_comm]
    exact hle
  refine ⟨hlen, ?_, hend⟩
  have hid' := leBytes_of_uint32 hid
  have hcount' := leBytes_of_uint16 hcount
  have hfso' := leBytes_of_uint16 hfso
  rw [GoSlice.eq_of_sub_ofBytes hb0] at hid'
  rw [GoSlice.eq_of_sub_ofBytes hb1] at hcount'
  rw [GoSlice.eq_of_sub_ofBytes hb2] at hfso'
  rw [directory, directoryEnd, Storage.directory]
  dsimp only at hbytes ⊢
  rw [hid', hcount', hfso', hbytes, hlen]
  simp only [GoSlice.ofBytes, headerSize, Nat.zero_mul, Nat.add_zero, List.take_take,
    List.drop_zero]
  rw [show 8 + slotSize * count.toNat = 4 + (2 + (2 + slotSize * count.toNat)) by ring,
    List.take_add, List.take_add, List.take_add, List.drop_drop, List.drop_drop]
  simp only [List.append_assoc]
  rfl

/-- The 16-bit number that starts at `x` in bytes given by their positions. -/
def uint16At (byte : ℕ → UInt8) (x : ℕ) : UInt16 := UInt16.ofNat (leNat [byte x, byte (x + 1)])

theorem uint16At_getD {bs : Bytes} {x : ℕ} (h : x + 2 ≤ bs.length) :
    uint16 ((bs.drop x).take 2) = .ok (uint16At (fun y => bs.getD y 0) x) := by
  have hlen : ((bs.drop x).take 2).length = 2 := by
    rw [List.length_take, List.length_drop]
    omega
  have hbytes : ((bs.drop x).take 2).take 2 = [bs.getD x 0, bs.getD (x + 1) 0] := by
    have hfirst : x < bs.length := by omega
    have hsecond : x + 1 < bs.length := by omega
    rw [List.take_take, Nat.min_self, List.drop_eq_getElem_cons hfirst,
      List.drop_eq_getElem_cons hsecond, List.getD_eq_getElem?_getD, List.getD_eq_getElem?_getD,
      List.getElem?_eq_getElem hfirst, List.getElem?_eq_getElem hsecond]
    rfl
  rw [uint16_eq_ok hlen.ge, hbytes, uint16At]

theorem uint16At_eq {byte : ℕ → UInt8} {buf pre post : Bytes} {v : UInt16} {x : ℕ}
    (hbuf : buf = pre ++ (leBytes 2 v.toNat ++ post)) (hpre : pre.length = x)
    (h : ∀ y < x + 2, byte y = buf.getD y 0) : uint16At byte x = v := by
  have hbytes : [byte x, byte (x + 1)] = leBytes 2 v.toNat := by
    rw [h x (by omega), h (x + 1) (by omega), hbuf, ← hpre]
    simp [leBytes, List.getD_eq_getElem?_getD]
  have hlt : v.toNat < 256 ^ 2 := v.toNat_lt
  rw [uint16At, hbytes, leNat_leBytes, Nat.mod_eq_of_lt hlt, UInt16.ofNat_toNat]

/-- Bytes that begin with a directory hold its count. -/
theorem uint16At_count {byte : ℕ → UInt8} {p : Page}
    (h : ∀ x < p.directoryEnd, byte x = p.directory.getD x 0) :
    uint16At byte 4 = p.tupleCount := by
  have hbuf : p.directory = leBytes 4 p.id.toNat ++ (leBytes 2 p.tupleCount.toNat ++
      (leBytes 2 p.freeSpaceOffset.toNat ++ p.slots.flatMap Slot.bytes)) := by
    simp only [directory, Storage.directory, List.append_assoc]
  refine uint16At_eq hbuf (length_leBytes 4 p.id.toNat) fun y hy => h y ?_
  simp only [directoryEnd, headerSize]
  omega

/-- Bytes that begin with a directory hold its slots. -/
theorem uint16At_slot {byte : ℕ → UInt8} {p : Page}
    (h : ∀ x < p.directoryEnd, byte x = p.directory.getD x 0) {i : ℕ} {slot : Slot}
    (hi : p.slots[i]? = some slot) :
    (⟨uint16At byte (headerSize + slotSize * i),
      uint16At byte (headerSize + slotSize * i + 2)⟩ : Slot) = slot := by
  obtain ⟨hlt, hget⟩ := List.getElem?_eq_some_iff.mp hi
  have hslots : p.slots.flatMap Slot.bytes = (p.slots.take i).flatMap Slot.bytes ++
      (slot.bytes ++ (p.slots.drop (i + 1)).flatMap Slot.bytes) := by
    rw [← List.flatMap_cons, ← List.flatMap_append, ← hget, List.getElem_cons_drop,
      List.take_append_drop]
  have hend : headerSize + slotSize * i + slotSize ≤ p.directoryEnd := by
    rw [directoryEnd, Nat.add_assoc, ← Nat.mul_succ]
    exact Nat.add_le_add_left (Nat.mul_le_mul_left _ hlt) _
  simp only [slotSize] at hend
  generalize hpre : leBytes 4 p.id.toNat ++ (leBytes 2 p.tupleCount.toNat ++
    (leBytes 2 p.freeSpaceOffset.toNat ++ (p.slots.take i).flatMap Slot.bytes)) = pre
  have hlen : pre.length = headerSize + slotSize * i := by
    rw [← hpre]
    simp only [List.length_append, length_leBytes, length_flatMap_bytes,
      List.length_take_of_le hlt.le, headerSize]
    omega
  have hbuf : p.directory = pre ++ (leBytes 2 slot.offset.toNat ++
      (leBytes 2 slot.size.toNat ++ (p.slots.drop (i + 1)).flatMap Slot.bytes)) := by
    rw [directory, Storage.directory, hslots, ← hpre]
    simp only [Slot.bytes, List.append_assoc]
  have hoffset : uint16At byte (headerSize + slotSize * i) = slot.offset :=
    uint16At_eq hbuf hlen fun y hy => h y (by simp only [slotSize] at hy; omega)
  have hsize : uint16At byte (headerSize + slotSize * i + 2) = slot.size := by
    rw [← List.append_assoc] at hbuf
    refine uint16At_eq hbuf ?_ fun y hy => h y (by simp only [slotSize] at hy; omega)
    rw [List.length_append, hlen, length_leBytes]
  rw [hoffset, hsize]

theorem exists_readSlot (data : GoSlice) {i : ℕ}
    (h : headerSize + (i + 1) * slotSize ≤ data.elements.length) :
    ∃ slot, readSlot data i = .ok slot := by
  rw [Nat.succ_mul, slotSize] at h
  have hoff : data.tail (headerSize + i * slotSize) =
      .ok (data.elements.drop (headerSize + i * slotSize)) :=
    if_pos (by simp only [slotSize]; omega)
  have hsize : data.tail (headerSize + i * slotSize + 2) =
      .ok (data.elements.drop (headerSize + i * slotSize + 2)) :=
    if_pos (by simp only [slotSize]; omega)
  have hlen : 2 ≤ (data.elements.drop (headerSize + i * slotSize)).length := by
    rw [List.length_drop, slotSize]
    omega
  have hlen' : 2 ≤ (data.elements.drop (headerSize + i * slotSize + 2)).length := by
    rw [List.length_drop, slotSize]
    omega
  exact ⟨_, bind_eq_ok.mpr ⟨_, hoff, bind_eq_ok.mpr ⟨_, uint16_eq_ok hlen,
    bind_eq_ok.mpr ⟨_, hsize, bind_eq_ok.mpr ⟨_, uint16_eq_ok hlen', rfl⟩⟩⟩⟩⟩

theorem exists_readSlots (data : GoSlice) {i count : ℕ}
    (h : headerSize + (i + count) * slotSize ≤ data.elements.length) :
    ∃ slots, readSlots data i count = .ok slots := by
  induction count generalizing i with
  | zero => exact ⟨[], rfl⟩
  | succ count ih =>
    have hle : (i + 1) * slotSize ≤ (i + (count + 1)) * slotSize :=
      Nat.mul_le_mul_right _ (by omega)
    obtain ⟨slot, hslot⟩ := exists_readSlot data (show headerSize + (i + 1) * slotSize ≤ _ by omega)
    obtain ⟨slots, hslots⟩ := @ih (i + 1) (by rwa [Nat.add_assoc, Nat.add_comm 1])
    exact ⟨_, bind_eq_ok.mpr ⟨slot, hslot, bind_eq_ok.mpr ⟨slots, hslots, rfl⟩⟩⟩

/-- A buffer is read unless the directory it announces is longer than the buffer. -/
theorem exists_deserializePage {buf : Bytes} {count : UInt16}
    (hcount : uint16 ((buf.drop 4).take 2) = .ok count) (hlen : headerSize ≤ buf.length)
    (h : headerSize + slotSize * count.toNat ≤ buf.length) :
    ∃ q, deserializePage (.ofBytes buf) = .ok q := by
  simp only [headerSize] at hlen
  have hid := GoSlice.sub_ofBytes buf (Nat.zero_le 4) (by omega)
  have hcnt := GoSlice.sub_ofBytes buf (show 4 ≤ 6 by omega) (by omega)
  have hfso := GoSlice.sub_ofBytes buf (show 6 ≤ 8 by omega) (by omega)
  have hid' : 4 ≤ ((buf.drop 0).take (4 - 0)).length := by
    rw [List.length_take, List.length_drop]
    omega
  have hfso' : 2 ≤ ((buf.drop 6).take (8 - 6)).length := by
    rw [List.length_take, List.length_drop]
    omega
  have hdir : headerSize + (0 + count.toNat) * slotSize ≤ buf.length := by
    rwa [Nat.zero_add, Nat.mul_comm]
  obtain ⟨slots, hslots⟩ := exists_readSlots (.ofBytes buf) hdir
  have htail : GoSlice.tail (.ofBytes buf) (headerSize + count.toNat * slotSize) = .ok _ :=
    if_pos (by rwa [Nat.mul_comm])
  exact ⟨_, bind_eq_ok.mpr ⟨_, hid, bind_eq_ok.mpr ⟨_, uint32_eq_ok hid', bind_eq_ok.mpr ⟨_, hcnt,
    bind_eq_ok.mpr ⟨_, hcount, bind_eq_ok.mpr ⟨_, hfso, bind_eq_ok.mpr ⟨_, uint16_eq_ok hfso',
    bind_eq_ok.mpr ⟨_, hslots, bind_eq_ok.mpr ⟨_, htail, rfl⟩⟩⟩⟩⟩⟩⟩⟩⟩

end Page

end BuildYourOwnStuff.Storage
