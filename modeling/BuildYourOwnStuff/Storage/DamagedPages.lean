import BuildYourOwnStuff.Storage.PageManager

/-!
# Reading damaged pages

`DeserializePage` trusts the tuple count and the slots that it reads. It panics
when the directory that the count announces is longer than the buffer, and the
slots of a page that it returns may lie anywhere.
-/

namespace BuildYourOwnStuff.Storage

open Foundations GoStd

namespace Page

/-- `ReadFromFile`, given what `os.ReadFile` returns: an error, or the content of
the file in a slice that may have room for more. -/
def readFromFile : Except String GoSlice → Outcome Page
  | .error message => .error (.error message)
  | .ok buf => deserializePage buf

/-- Every live slot lies in the data of the page. -/
def LiveInside (p : Page) : Prop :=
  ∀ slot ∈ p.slots, slot.isDeleted = false →
    slot.offset.toNat + slot.size.toNat ≤ p.data.length

/-- A read that ends with an error, or with a page whose live slots lie in its data. -/
def ReadInside : Outcome Page → Prop
  | .ok p => p.LiveInside
  | .error (.error _) => True
  | .error .panic => False

/-- The number of slots that the header in a buffer announces. -/
def announced (buf : Bytes) : ℕ := (uint16At (fun x => buf.getD x 0) 4).toNat

/-- Entry `i` of the directory in a buffer. -/
def slotAt (buf : Bytes) (i : ℕ) : Slot :=
  ⟨uint16At (fun x => buf.getD x 0) (headerSize + slotSize * i),
    uint16At (fun x => buf.getD x 0) (headerSize + slotSize * i + 2)⟩

/-- The announced directory is in the buffer and its live slots are inside a page. -/
structure DirectoryInside (buf : Bytes) : Prop where
  fits : headerSize + slotSize * announced buf ≤ buf.length
  live : ∀ i < announced buf, (slotAt buf i).isDeleted = false →
    (slotAt buf i).offset.toNat + (slotAt buf i).size.toNat ≤ pageSize

section NoMessage

variable {message : String}

theorem sub_ne_error (data : GoSlice) (lo hi : ℕ) :
    data.sub lo hi ≠ .error (.error message) := by
  unfold GoSlice.sub
  split <;> simp

theorem tail_ne_error (data : GoSlice) (lo : ℕ) : data.tail lo ≠ .error (.error message) := by
  unfold GoSlice.tail
  split_ifs <;> simp

/-- The decoders of `binary.LittleEndian` panic or return. -/
theorem map_readLe_ne_error {α : Type} (f : ℕ → α) (k : ℕ) (b : Bytes) :
    (readLe k b).map f ≠ .error (.error message) := by
  unfold readLe
  split_ifs <;> simp [Except.map]

theorem uint16_ne_error (b : Bytes) : uint16 b ≠ .error (.error message) :=
  map_readLe_ne_error UInt16.ofNat 2 b

theorem uint32_ne_error (b : Bytes) : uint32 b ≠ .error (.error message) :=
  map_readLe_ne_error UInt32.ofNat 4 b

theorem bind_ne_error {α β : Type} {x : Outcome α} {f : α → Outcome β}
    (hx : x ≠ .error (.error message)) (hf : ∀ a, f a ≠ .error (.error message)) :
    x >>= f ≠ .error (.error message) := by
  cases x with
  | ok a => exact hf a
  | error e => exact fun h => hx (by simpa [bind, Except.bind] using h)

theorem readSlot_ne_error (data : GoSlice) (i : ℕ) :
    readSlot data i ≠ .error (.error message) := by
  refine bind_ne_error (tail_ne_error _ _) fun _ => bind_ne_error (uint16_ne_error _) fun _ => ?_
  refine bind_ne_error (tail_ne_error _ _) fun _ => bind_ne_error (uint16_ne_error _) fun _ => ?_
  simp [pure, Except.pure]

theorem readSlots_ne_error (data : GoSlice) (i count : ℕ) :
    readSlots data i count ≠ .error (.error message) := by
  induction count generalizing i with
  | zero => simp [readSlots]
  | succ count ih =>
    refine bind_ne_error (readSlot_ne_error data i) fun _ => bind_ne_error (ih _) fun _ => ?_
    simp [pure, Except.pure]

/-- `DeserializePage` has no error to return: it returns a page or panics. -/
theorem deserializePage_ne_error (data : GoSlice) :
    deserializePage data ≠ .error (.error message) := by
  refine bind_ne_error (sub_ne_error _ _ _) fun _ => bind_ne_error (uint32_ne_error _) fun _ => ?_
  refine bind_ne_error (sub_ne_error _ _ _) fun _ => bind_ne_error (uint16_ne_error _) fun _ => ?_
  refine bind_ne_error (sub_ne_error _ _ _) fun _ => bind_ne_error (uint16_ne_error _) fun _ => ?_
  refine bind_ne_error (readSlots_ne_error _ _ _) fun _ => ?_
  refine bind_ne_error (tail_ne_error _ _) fun _ => ?_
  simp [pure, Except.pure]

end NoMessage

/-- A read from a buffer is inside exactly when it returns a page that is. -/
theorem readInside_deserializePage (data : GoSlice) :
    ReadInside (deserializePage data) ↔ ∃ q, deserializePage data = .ok q ∧ q.LiveInside := by
  cases h : deserializePage data with
  | ok q => simp [ReadInside]
  | error e =>
    cases e with
    | error message => exact absurd h (deserializePage_ne_error data)
    | panic => simp [ReadInside]

theorem headerSize_le_of_deserializePage {data : GoSlice} {q : Page}
    (h : deserializePage data = .ok q) : headerSize ≤ data.elements.length := by
  simp only [deserializePage, bind_eq_ok] at h
  obtain ⟨_, -, _, -, _, -, count, -, _, -, _, -, _, -, _, htail, -⟩ := h
  unfold GoSlice.tail at htail
  split_ifs at htail with hle
  omega

theorem sub_spare {buf : Bytes} (spare : Bytes) {lo hi : ℕ} (h : hi ≤ buf.length) :
    GoSlice.sub ⟨buf, spare⟩ lo hi = (GoSlice.ofBytes buf).sub lo hi := by
  have hslice : slice (buf ++ spare) lo hi = slice (buf ++ []) lo hi := by
    rw [List.append_nil, slice, slice, List.length_append]
    by_cases hlo : lo ≤ hi
    · rw [if_pos ⟨hlo, by omega⟩, if_pos ⟨hlo, h⟩, List.drop_append_of_le_length (by omega),
        List.take_append_of_le_length (by rw [List.length_drop]; omega)]
    · rw [if_neg (by omega), if_neg (by omega)]
  rw [GoSlice.sub, GoSlice.sub, GoSlice.ofBytes, hslice]

theorem readSlots_spare (buf spare : Bytes) (i count : ℕ) :
    readSlots ⟨buf, spare⟩ i count = readSlots (.ofBytes buf) i count := by
  induction count generalizing i with
  | zero => rfl
  | succ count ih =>
    have hslot : readSlot ⟨buf, spare⟩ i = readSlot (.ofBytes buf) i := rfl
    rw [readSlots, readSlots, hslot, ih]

/-- Room behind the content of a slice does not help a read. -/
theorem deserializePage_spare (buf spare : Bytes) (q : Page) :
    deserializePage ⟨buf, spare⟩ = .ok q ↔ deserializePage (.ofBytes buf) = .ok q := by
  by_cases hheader : headerSize ≤ buf.length
  · simp only [headerSize] at hheader
    have heq : deserializePage ⟨buf, spare⟩ = deserializePage (.ofBytes buf) := by
      simp only [deserializePage, readSlots_spare]
      rw [sub_spare spare (by omega), sub_spare spare (by omega), sub_spare spare (by omega)]
      rfl
    rw [heq]
  · constructor
    · exact fun h => absurd (headerSize_le_of_deserializePage h) hheader
    · exact fun h => absurd (headerSize_le_of_deserializePage h) hheader

section Returned

variable {buf : Bytes} {q : Page} (h : deserializePage (.ofBytes buf) = .ok q)

include h

/-- The buffer holds the directory of the page read from it. -/
theorem getD_of_deserializePage : ∀ x < q.directoryEnd, buf.getD x 0 = q.directory.getD x 0 := by
  intro x hx
  obtain ⟨-, htake, -⟩ := directory_of_deserializePage h
  rw [← htake, List.getD_eq_getElem?_getD, List.getD_eq_getElem?_getD, List.getElem?_take,
    if_pos hx]

theorem announced_of_deserializePage : announced buf = q.slots.length := by
  obtain ⟨hlen, -, -⟩ := directory_of_deserializePage h
  rw [announced, uint16At_count (getD_of_deserializePage h), hlen]

theorem slotAt_of_deserializePage {i : ℕ} {slot : Slot} (hi : q.slots[i]? = some slot) :
    slotAt buf i = slot :=
  uint16At_slot (getD_of_deserializePage h) hi

/-- What it means for the page read from a buffer to be inside, in terms of the bytes. -/
theorem liveInside_of_deserializePage : q.LiveInside ↔ ∀ i < announced buf,
    (slotAt buf i).isDeleted = false →
      (slotAt buf i).offset.toNat + (slotAt buf i).size.toNat ≤ pageSize := by
  rw [LiveInside, q.data_length, announced_of_deserializePage h]
  constructor
  · intro hlive i hi
    rw [slotAt_of_deserializePage h (List.getElem?_eq_getElem hi)]
    exact hlive _ (List.getElem_mem hi)
  · intro hlive slot hslot
    obtain ⟨i, hi⟩ := List.mem_iff_getElem?.mp hslot
    have hlt : i < q.slots.length := (List.getElem?_eq_some_iff.mp hi).1
    have hrange := hlive i hlt
    rwa [slotAt_of_deserializePage h hi] at hrange

end Returned

/-- A buffer with a header is read exactly when the announced directory is in it. -/
theorem exists_deserializePage_iff (buf : Bytes) :
    (∃ q, deserializePage (.ofBytes buf) = .ok q) ↔
      headerSize + slotSize * announced buf ≤ buf.length := by
  constructor
  · rintro ⟨q, hq⟩
    obtain ⟨-, -, hend⟩ := directory_of_deserializePage hq
    rwa [announced_of_deserializePage hq]
  · intro hfits
    have hheader : 4 + 2 ≤ buf.length := by
      simp only [headerSize] at hfits
      omega
    exact exists_deserializePage (uint16At_getD hheader) (by omega) hfits

/-- Reading a buffer stays inside exactly when its directory does. -/
theorem readInside_iff (buf spare : Bytes) :
    ReadInside (deserializePage ⟨buf, spare⟩) ↔ DirectoryInside buf := by
  rw [readInside_deserializePage]
  simp only [deserializePage_spare]
  constructor
  · rintro ⟨q, hq, hlive⟩
    exact ⟨(exists_deserializePage_iff buf).mp ⟨q, hq⟩, (liveInside_of_deserializePage hq).mp hlive⟩
  · rintro ⟨hfits, hlive⟩
    obtain ⟨q, hq⟩ := (exists_deserializePage_iff buf).mpr hfits
    exact ⟨q, hq, (liveInside_of_deserializePage hq).mpr hlive⟩

theorem readInside_readFromFile_iff (read : Except String GoSlice) :
    ReadInside (readFromFile read) ↔
      ∀ file spare, read = .ok ⟨file, spare⟩ → DirectoryInside file := by
  cases read with
  | error message => simp [readFromFile, ReadInside]
  | ok buf =>
    constructor
    · rintro h file spare ⟨⟩
      exact (readInside_iff file spare).mp h
    · exact fun h => (readInside_iff buf.elements buf.spare).mpr (h buf.elements buf.spare rfl)

end Page

namespace PageManager

/-- The page of a manager's file is read inside exactly when the file ends before the
page does or the directory of the page is inside. -/
theorem readInside_readPage_iff (pm : PageManager) (pageID : UInt32) :
    Page.ReadInside (pm.readPage pageID) ↔
      ∀ buf, pm.readAt pageSize (pageID.toNat * pageSize) = .ok buf → Page.DirectoryInside buf := by
  rw [readPage]
  cases hread : pm.readAt pageSize (pageID.toNat * pageSize) with
  | ok buf =>
    have hiff : Page.ReadInside (Page.deserializePage (.ofBytes buf)) ↔ Page.DirectoryInside buf :=
      Page.readInside_iff buf []
    simpa [bind, Except.bind] using hiff
  | error e =>
    have he : e = .error "EOF" := by
      unfold readAt at hread
      split at hread <;> simp_all
    subst he
    simp [Page.ReadInside, bind, Except.bind]

/-- A read of a whole file or of one page of it stays inside exactly when the directory
that its bytes announce is in the buffer and the live slots in it are inside a page. -/
theorem read_inside_iff (read : Except String GoSlice) (pm : PageManager) (pageID : UInt32) :
    (Page.ReadInside (Page.readFromFile read) ↔
      ∀ file spare, read = .ok ⟨file, spare⟩ → Page.DirectoryInside file) ∧
    (Page.ReadInside (pm.readPage pageID) ↔
      ∀ buf, pm.readAt pageSize (pageID.toNat * pageSize) = .ok buf →
        Page.DirectoryInside buf) :=
  ⟨Page.readInside_readFromFile_iff read, readInside_readPage_iff pm pageID⟩

/-- A file of a single page is that page. -/
theorem readInside_readPage_zero {buf : Bytes} (h : buf.length = pageSize) :
    Page.ReadInside (readPage ⟨buf⟩ 0) ↔ Page.DirectoryInside buf := by
  have hslice : slice buf 0 (0 + pageSize) = some buf := by
    rw [slice, if_pos ⟨Nat.zero_le _, by omega⟩, List.drop_zero, List.take_of_length_le (by omega)]
  have hread : readAt ⟨buf⟩ pageSize (UInt32.toNat 0 * pageSize) = .ok buf := by
    rw [readAt, UInt32.toNat_zero, Nat.zero_mul, hslice]
  rw [readInside_readPage_iff, hread]
  simp

/-- An empty file, a page that announces 65535 slots, and a slot of 200 bytes at 4000. -/
theorem read_outside :
    ¬ Page.ReadInside (Page.readFromFile (.ok ⟨[], List.replicate 512 0⟩)) ∧
      ¬ Page.ReadInside (readPage ⟨List.replicate pageSize 0xFF⟩ 0) ∧
      ¬ Page.ReadInside (Page.readFromFile
        (.ok ⟨[0, 0, 0, 0, 1, 0, 0, 0x10, 0xA0, 0x0F, 0xC8, 0], List.replicate 500 0⟩)) := by
  refine ⟨?_, ?_, ?_⟩
  · rw [Page.readFromFile, Page.readInside_iff]
    exact fun h => absurd h.fits (by decide)
  · have hbyte (x : ℕ) (hx : x < pageSize) :
        (List.replicate pageSize (0xFF : UInt8)).getD x 0 = 0xFF := by
      rw [List.getD_eq_getElem?_getD, List.getElem?_replicate, if_pos hx, Option.getD_some]
    have hcount : Page.announced (List.replicate pageSize 0xFF) = 65535 := by
      rw [Page.announced, Page.uint16At, hbyte 4 (by decide), hbyte (4 + 1) (by decide)]
      rfl
    rw [readInside_readPage_zero List.length_replicate]
    refine fun h => absurd h.fits ?_
    rw [List.length_replicate, hcount]
    decide
  · rw [Page.readFromFile, Page.readInside_iff]
    exact fun h => absurd (h.live 0 (by decide) (by decide)) (by decide)

end PageManager

end BuildYourOwnStuff.Storage
