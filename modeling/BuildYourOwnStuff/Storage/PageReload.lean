import BuildYourOwnStuff.Storage.PageManager
import BuildYourOwnStuff.Storage.PageSession

/-!
# Writing a page and reading it back

`AddTuple` charges two bytes a slot and no header, so the tuple data can grow
over the directory. `DeserializePage` reads as many slots as there are live
tuples, although deleted slots are still written, and copies the tuple data to
a base after the directory, although it was written at absolute offsets.
-/

namespace BuildYourOwnStuff.Storage

open Foundations GoStd

namespace Page

/-- The directory ends before the tuple data begins, and both lie in the page. -/
def Layout (p : Page) : Prop :=
  p.directoryEnd ≤ p.freeSpaceOffset.toNat ∧ p.freeSpaceOffset.toNat ≤ pageSize

/-- `Serialize` returns, and neither the header nor a slot entry is overwritten. -/
def SerializesCleanly (p : Page) : Prop :=
  ∃ buf, p.serialize = .ok buf ∧ buf.take p.directoryEnd = p.directory ∧
    buf.drop p.freeSpaceOffset.toNat = p.data.drop p.freeSpaceOffset.toNat

/-- A tuple that `AddTuple` admits leaves room for the header, the old slots
and its own slot. -/
def Fits (p : Page) (call : PageCall) : Prop :=
  ∀ tuple, call = .addTuple tuple → p.Admits tuple →
    headerSize + slotSize * (p.slots.length + 1) + tuple.length ≤ p.freeSpaceOffset.toNat

theorem Layout.serializesCleanly {p : Page} (h : p.Layout) : p.SerializesCleanly := by
  refine ⟨p.image, serialize_eq_ok.mpr ⟨h.1.trans h.2, h.2, rfl⟩, ?_, ?_⟩
  · have hdir : p.directory.length ≤ p.freeSpaceOffset.toNat := by
      rw [length_directory]
      exact h.1
    have hsplit := @List.take_append _ p.directory
      (List.replicate (pageSize - p.directoryEnd) 0) p.freeSpaceOffset.toNat
    rw [List.take_of_length_le hdir] at hsplit
    rw [image, hsplit, List.append_assoc, List.take_left' p.length_directory]
  · have hlen : ((p.directory ++ List.replicate (pageSize - p.directoryEnd) (0 : UInt8)).take
        p.freeSpaceOffset.toNat).length = p.freeSpaceOffset.toNat := by
      rw [List.length_take, List.length_append, length_directory, List.length_replicate]
      have hle := h.2
      have hdir := h.1
      omega
    rw [image, List.drop_left' hlen]

theorem layout_newPage (id : UInt32) : (newPage id).Layout := by
  have hdir : headerSize + slotSize * 0 ≤ pageSize := by decide
  exact ⟨hdir, le_rfl⟩

theorem layout_step_iff (p : Page) (call : PageCall) (hp : p.Stacked) (hlay : p.Layout) :
    (p.step call).Layout ↔ p.Fits call := by
  cases call with
  | addTuple tuple =>
    rw [step_addTuple hp.freeSpaceOffset_le]
    split_ifs with hadm
    · have hspace := hadm.2
      have hle := hp.freeSpaceOffset_le
      simp only [Layout, directoryEnd, withTuple_freeSpaceOffset, withTuple_slots,
        List.length_append, List.length_singleton]
      constructor
      · rintro ⟨hfit, -⟩ _ ⟨⟩ -
        omega
      · intro hfits
        have hfit := hfits tuple rfl hadm
        omega
    · refine iff_of_true hlay ?_
      rintro _ ⟨⟩ hadm'
      exact absurd hadm' hadm
  | deleteTuple k =>
    rw [step_deleteTuple]
    refine iff_of_true ?_ (by simp [Fits])
    split_ifs
    · simpa [Layout, directoryEnd] using hlay
    · exact hlay

/-- The layout is kept, and pages serialize cleanly, throughout a run exactly
when every admitted tuple fits. -/
theorem layout_kept_iff (id : UInt32) (calls : List PageCall) :
    AllStates step (fun p => p.Layout ∧ p.SerializesCleanly) (newPage id) calls ↔
      AllSteps step Fits (newPage id) calls := by
  have hiff := allStates_iff_allSteps stacked_step layout_step_iff
    (stacked_newPage id) (layout_newPage id) calls
  rw [← hiff]
  exact ⟨AllStates.mono fun p h => h.1, AllStates.mono fun p h => ⟨h, h.serializesCleanly⟩⟩

/-- A tuple of the size of the page is admitted and leaves no room for the header. -/
theorem layout_broken : ¬ ∀ id calls,
    AllStates step (fun p => p.Layout ∧ p.SerializesCleanly) (newPage id) calls := by
  intro h
  obtain ⟨tuple, htuple⟩ : ∃ tuple : Bytes, tuple.length = pageSize :=
    ⟨List.replicate pageSize 0x61, List.length_replicate⟩
  have hlast := (h 0 [.addTuple tuple]).last.1
  have hadm : (newPage 0).Admits tuple := ⟨List.forall_mem_nil _, htuple.le⟩
  have hfits := (layout_step_iff _ (.addTuple tuple) (stacked_newPage 0)
    (layout_newPage 0)).mp hlast _ rfl hadm
  have hroom : ¬ headerSize + slotSize * (0 + 1) + pageSize ≤ pageSize := by
    simp only [headerSize]
    omega
  rw [htuple] at hfits
  exact hroom hfits

section Directory

/-- If `Serialize` returns, reading its result gives the same ID, free-space
offset and slots. -/
def DirectorySurvives (p : Page) : Prop :=
  ∀ buf, p.serialize = .ok buf → ∃ q, deserializePage (.ofBytes buf) = .ok q ∧
    q.id = p.id ∧ q.freeSpaceOffset = p.freeSpaceOffset ∧ q.slots = p.slots

/-- The directory with all slots counted, deleted ones as well. -/
def fullDirectory (p : Page) : Bytes :=
  Storage.directory p.id (UInt16.ofNat p.slots.length) p.freeSpaceOffset p.slots

/-- All slots are counted, and tuple data over the directory repeats it. -/
def DirectoryKept (p : Page) : Prop :=
  ∀ x < p.directoryEnd,
    (if x < p.freeSpaceOffset.toNat then p.directory[x]? else p.data[x]?) = p.fullDirectory[x]?

theorem length_fullDirectory (p : Page) : p.fullDirectory.length = p.directoryEnd :=
  Storage.length_directory _ _ _ _

theorem directoryKept_iff_take {p : Page} (hdir : p.directoryEnd ≤ pageSize)
    (hfso : p.freeSpaceOffset.toNat ≤ pageSize) :
    p.DirectoryKept ↔ p.image.take p.directoryEnd = p.fullDirectory := by
  have hget : ∀ x < p.directoryEnd, p.image[x]? =
      if x < p.freeSpaceOffset.toNat then p.directory[x]? else p.data[x]? := by
    intro x hx
    rw [getElem?_image hdir hfso, List.getElem?_append_left (by rwa [length_directory])]
  constructor
  · intro h
    apply List.ext_getElem?
    intro x
    rw [List.getElem?_take]
    split_ifs with hx
    · rw [hget x hx, h x hx]
    · rw [List.getElem?_eq_none (by rw [length_fullDirectory]; omega)]
  · intro h x hx
    rw [← hget x hx, ← h, List.getElem?_take_of_lt hx]

theorem directorySurvives_iff_kept {p : Page} (hp : p.Stacked)
    (hdir : p.directoryEnd ≤ pageSize) : p.DirectorySurvives ↔ p.DirectoryKept := by
  have hfso := hp.freeSpaceOffset_le
  have hlen : p.slots.length = (UInt16.ofNat p.slots.length).toNat := by
    have hlt := hp.length_slots_lt
    rw [UInt16.toNat_ofNat_of_lt' (by change _ < 2 ^ 16; omega)]
  rw [directoryKept_iff_take hdir hfso]
  constructor
  · intro h
    obtain ⟨q, hq, hid, hoff, hslots⟩ := h p.image (serialize_eq_ok.mpr ⟨hdir, hfso, rfl⟩)
    obtain ⟨hcount, htake, -⟩ := directory_of_deserializePage hq
    have hqcount : q.tupleCount = UInt16.ofNat p.slots.length := by
      rw [← hslots, hcount, UInt16.ofNat_toNat]
    rw [directory, directoryEnd, hid, hoff, hslots, hqcount] at htake
    exact htake
  · rintro htake buf hbuf
    obtain ⟨-, -, rfl⟩ := serialize_eq_ok.mp hbuf
    have hq := deserializePage_directory p.id p.freeSpaceOffset hlen
      (p.image.drop p.directoryEnd)
    have himage : p.fullDirectory ++ p.image.drop p.directoryEnd = p.image := by
      rw [← htake, List.take_append_drop]
    rw [← fullDirectory, himage] at hq
    exact ⟨_, hq, rfl, rfl, rfl⟩

/-- The directory of a reachable page survives a write and a read exactly when
`Serialize` cannot return or the directory is kept. -/
theorem directory_survives_iff (id : UInt32) (calls : List PageCall) :
    let p := (newPage id).run calls
    p.DirectorySurvives ↔ (p.directoryEnd ≤ pageSize → p.DirectoryKept) := by
  intro p
  have hp : p.Stacked := stacked_run id calls
  by_cases hdir : p.directoryEnd ≤ pageSize
  · simp only [hdir, true_imp_iff]
    exact directorySurvives_iff_kept hp hdir
  · refine iff_of_true (fun buf hbuf => ?_) (fun h => absurd h hdir)
    exact absurd (serialize_eq_ok.mp hbuf).1 hdir

/-- Within the layout only the count matters. -/
theorem Layout.directoryKept_iff {p : Page} (hlay : p.Layout) (hp : p.Stacked) :
    p.DirectoryKept ↔ p.tupleCount.toNat = p.slots.length := by
  have hlt := hp.length_slots_lt
  constructor
  · intro h
    have hdirs : p.directory = p.fullDirectory := by
      refine List.ext_getElem (by rw [length_directory, length_fullDirectory]) fun x hx hx' => ?_
      rw [length_directory] at hx
      have hget := h x hx
      rw [if_pos (hx.trans_le hlay.1)] at hget
      rw [← Option.some_inj, ← List.getElem?_eq_getElem, ← List.getElem?_eq_getElem, hget]
    have hcount := congrArg (fun bs => leNat ((bs.drop 4).take 2)) hdirs
    simp only [directory, fullDirectory, Storage.directory, List.append_assoc,
      List.drop_left' (length_leBytes 4 _), List.take_left' (length_leBytes 2 _), leNat_leBytes,
      UInt16.toNat_ofNat'] at hcount
    have hcount' := p.tupleCount.toNat_lt
    omega
  · intro h x hx
    have hcount : UInt16.ofNat p.slots.length = p.tupleCount := by
      rw [← h, UInt16.ofNat_toNat]
    rw [if_pos (hx.trans_le hlay.1), fullDirectory, hcount, directory]

/-- A deleted tuple is no longer counted, so its slot is not read. -/
theorem directory_lost : ¬ ∀ id calls, ((newPage id).run calls).DirectorySurvives := by
  intro h
  have hp := stacked_run 0 [.addTuple [0x61], .deleteTuple 0]
  have hlay : ((newPage 0).run [.addTuple [0x61], .deleteTuple 0]).Layout :=
    ⟨by decide, hp.freeSpaceOffset_le⟩
  have hkept := (directorySurvives_iff_kept hp (hlay.1.trans hlay.2)).mp (h 0 _)
  exact absurd ((hlay.directoryKept_iff hp).mp hkept) (by decide)

end Directory

section Tuples

/-- The tuple count of a page as it is laid out. -/
def loadCount (p : Page) : ℕ := (uint16At p.layoutByte 4).toNat

/-- Entry `i` of the slot directory of a page as it is laid out. -/
def loadSlot (p : Page) (i : ℕ) : Slot :=
  ⟨uint16At p.layoutByte (headerSize + slotSize * i),
    uint16At p.layoutByte (headerSize + slotSize * i + 2)⟩

/-- Where `DeserializePage` begins to copy tuple data. -/
def loadBase (p : Page) : ℕ := headerSize + slotSize * p.loadCount

/-- Each byte of a counted live tuple is also the byte that lies further on by the
size of the counted directory; past the end of the page that byte is zero. -/
def ShiftStable (p : Page) : Prop :=
  ∀ i < p.tupleCount.toNat, ∀ slot, p.slots[i]? = some slot → slot.isDeleted = false →
    ∀ k < slot.size.toNat, p.data.getD (slot.offset.toNat + k) 0 =
      p.data.getD (slot.offset.toNat + k + (headerSize + slotSize * p.tupleCount.toNat)) 0

/-- An entry that is counted past the slots lies in the tuple data and is marked as
deleted there. There is none if no more tuples are counted than there are slots. -/
def SurplusDeleted (p : Page) : Prop :=
  ∀ i, p.slots.length ≤ i → i < p.tupleCount.toNat →
    p.freeSpaceOffset.toNat ≤ headerSize + slotSize * i ∧
      uint16At (fun x => p.data.getD x 0) (headerSize + slotSize * i) = deletedSlot.offset

theorem surplusDeleted_of_le {p : Page} (h : p.tupleCount.toNat ≤ p.slots.length) :
    p.SurplusDeleted := by
  intro i hi hcount
  omega

/-- What is read from the image of a page: the slots stand in its directory, and
the tuple data stands `loadBase` lower than it was written. -/
theorem eq_of_deserializePage_image {p q : Page} (hdir : p.directoryEnd ≤ pageSize)
    (hfso : p.freeSpaceOffset.toNat ≤ pageSize)
    (hq : deserializePage (.ofBytes p.image) = .ok q) :
    p.loadBase ≤ pageSize ∧ q.slots = (List.range p.loadCount).map p.loadSlot ∧
      ∀ y < pageSize, q.data[y]? = some (p.layoutByte (y + p.loadBase)) := by
  have hlen : p.image.length = pageSize :=
    length_of_serialize (serialize_eq_ok.mpr ⟨hdir, hfso, rfl⟩)
  obtain ⟨hcount, htake, hend⟩ := directory_of_deserializePage hq
  have hbytes : ∀ x < q.directoryEnd, p.layoutByte x = q.directory.getD x 0 := by
    intro x hx
    rw [← getD_image hdir hfso, ← htake, List.getD_eq_getElem?_getD, List.getD_eq_getElem?_getD,
      List.getElem?_take_of_lt hx]
  have hload : p.loadCount = q.slots.length := by
    rw [loadCount, uint16At_count hbytes, hcount]
  have hbase : p.loadBase = q.directoryEnd := by
    rw [loadBase, hload, directoryEnd]
  rw [← hbase, hlen] at hend
  refine ⟨hend, ?_, fun y hy => ?_⟩
  · refine List.ext_getElem (by simp [hload]) fun i hi hi' => ?_
    rw [List.getElem_map, List.getElem_range]
    exact (uint16At_slot hbytes (List.getElem?_eq_getElem hi)).symm
  · have hread := deserializePage_directory q.id q.freeSpaceOffset hcount
      (p.image.drop q.directoryEnd)
    rw [← directory, ← htake, List.take_append_drop, hq] at hread
    have hdata : q.data = overwrite (List.replicate pageSize 0) 0 (p.image.drop p.loadBase) := by
      rw [hbase, congrArg data (Except.ok.inj hread), ofDirectory_data]
    rw [hdata, getElem?_overwrite, List.length_drop, List.length_replicate, hlen,
      ← getD_image hdir hfso, List.getD_eq_getElem?_getD]
    split_ifs with hrange
    · rw [Nat.sub_zero, List.getElem?_drop, Nat.add_comm p.loadBase,
        List.getElem?_eq_getElem (by omega), Option.getD_some]
    · rw [List.getElem?_replicate_of_lt hy, List.getElem?_eq_none (by omega), Option.getD_none]

/-- The image of a page is read unless the directory it announces is longer than a page. -/
theorem exists_deserializePage_image {p : Page} (hdir : p.directoryEnd ≤ pageSize)
    (hfso : p.freeSpaceOffset.toNat ≤ pageSize) (hbase : p.loadBase ≤ pageSize) :
    ∃ q, deserializePage (.ofBytes p.image) = .ok q := by
  have hlen : p.image.length = pageSize :=
    length_of_serialize (serialize_eq_ok.mpr ⟨hdir, hfso, rfl⟩)
  have hheader : headerSize ≤ p.image.length := by
    rw [hlen]
    decide
  have hcount := uint16At_getD (show 4 + 2 ≤ p.image.length by
    simp only [headerSize] at hheader
    omega)
  rw [funext (getD_image hdir hfso)] at hcount
  refine exists_deserializePage hcount hheader ?_
  rwa [hlen]

/-- Within the layout the directory is laid out as it is in memory. -/
theorem Layout.layoutByte_eq {p : Page} (h : p.Layout) :
    ∀ x < p.directoryEnd, p.layoutByte x = p.directory.getD x 0 :=
  fun _ hx => if_pos (hx.trans_le h.1)

theorem Layout.loadCount_eq {p : Page} (h : p.Layout) : p.loadCount = p.tupleCount.toNat :=
  congrArg UInt16.toNat (uint16At_count h.layoutByte_eq)

theorem Layout.loadSlot_eq {p : Page} (h : p.Layout) {i : ℕ} {slot : Slot}
    (hi : p.slots[i]? = some slot) : p.loadSlot i = slot :=
  uint16At_slot h.layoutByte_eq hi

/-- Past the directory the bytes are zero until the tuple data begins. -/
theorem layoutByte_of_le {p : Page} {x : ℕ} (h : p.directoryEnd ≤ x) : p.layoutByte x =
    if x < p.freeSpaceOffset.toNat then 0 else p.data.getD x 0 := by
  have hdir : p.directory.length ≤ x := by
    rw [length_directory]
    exact h
  rw [layoutByte, List.getD_eq_getElem?_getD, List.getElem?_eq_none hdir, Option.getD_none]

/-- Two bytes of the mark of a deleted slot are not zero. -/
theorem bytes_of_deleted {byte : ℕ → UInt8} {x : ℕ}
    (h : uint16At byte x = deletedSlot.offset) : byte x ≠ 0 ∧ byte (x + 1) ≠ 0 := by
  have hlow := (byte x).toNat_lt
  have hhigh := (byte (x + 1)).toNat_lt
  have hlt : leNat [byte x, byte (x + 1)] < 2 ^ 16 := by
    simp only [leNat]
    omega
  have hnat : leNat [byte x, byte (x + 1)] = 0xFFFF := by
    rw [← UInt16.toNat_ofNat_of_lt' hlt]
    exact congrArg UInt16.toNat h
  simp only [leNat] at hnat
  constructor
  · intro hzero
    rw [hzero, UInt8.toNat_zero] at hnat
    omega
  · intro hzero
    rw [hzero, UInt8.toNat_zero] at hnat
    omega

/-- An entry past the slots is read as deleted exactly when it lies in the tuple data
and is marked there. -/
theorem surplus_iff {p : Page} {i : ℕ} (hi : p.slots.length ≤ i) :
    (p.loadSlot i).isDeleted = true ↔ p.freeSpaceOffset.toNat ≤ headerSize + slotSize * i ∧
      uint16At (fun x => p.data.getD x 0) (headerSize + slotSize * i) = deletedSlot.offset := by
  have hend : p.directoryEnd ≤ headerSize + slotSize * i :=
    Nat.add_le_add_left (Nat.mul_le_mul_left _ hi) _
  have hfirst := layoutByte_of_le hend
  have hsecond := layoutByte_of_le (hend.trans (Nat.le_succ _))
  have hdel : (p.loadSlot i).isDeleted = true ↔
      uint16At p.layoutByte (headerSize + slotSize * i) = deletedSlot.offset := beq_iff_eq
  rw [hdel]
  by_cases hfso : p.freeSpaceOffset.toNat ≤ headerSize + slotSize * i
  · rw [if_neg (by omega)] at hfirst hsecond
    simp only [uint16At, hfirst, hsecond, hfso, true_and]
  · rw [if_pos (by omega)] at hfirst
    exact iff_of_false (fun hmark => (bytes_of_deleted hmark).1 hfirst) fun hmark => hfso hmark.1

/-- The counted directory fits in a page. -/
theorem SurplusDeleted.directory_fits {p : Page} (h : p.SurplusDeleted) (hlay : p.Layout) :
    headerSize + slotSize * p.tupleCount.toNat ≤ pageSize := by
  rcases le_or_gt p.tupleCount.toNat p.slots.length with hcount | hcount
  · have hle : slotSize * p.tupleCount.toNat ≤ slotSize * p.slots.length :=
      Nat.mul_le_mul_left _ hcount
    have hdir := hlay.1.trans hlay.2
    rw [directoryEnd] at hdir
    omega
  · -- the mark of the last counted entry lies in the data
    have hmark := (h (p.tupleCount.toNat - 1) (by omega) (by omega)).2
    have hlast : headerSize + slotSize * (p.tupleCount.toNat - 1) + 1 < p.data.length := by
      by_contra hout
      refine (bytes_of_deleted hmark).2 ?_
      rw [List.getD_eq_getElem?_getD, List.getElem?_eq_none (Nat.not_lt.mp hout), Option.getD_none]
    rw [p.data_length] at hlast
    simp only [headerSize, slotSize, pageSize] at hlast ⊢
    omega

end Tuples

end Page

namespace Session

open Page

/-- The live slots of a page hold the byte strings that `AddTuple` was given for them. -/
def Holds (s : Session) (q : Page) : Prop :=
  ∀ (i : ℕ) (slot : Slot), q.slots[i]? = some slot → slot.isDeleted = false →
    ∃ d, s.given.lookup i = some d ∧
      slice q.data slot.offset.toNat (slot.offset.toNat + slot.size.toNat) = some d

/-- If `Serialize` returns, its result is read as a page that holds the tuples. -/
def TuplesSurvive (s : Session) : Prop :=
  ∀ buf, s.page.serialize = .ok buf →
    ∃ q, deserializePage (.ofBytes buf) = .ok q ∧ s.Holds q

/-- If `WritePage` returns, `ReadPage` of the same ID returns a page that holds the tuples. -/
def TuplesReread (s : Session) (pm : PageManager) : Prop :=
  ∀ pm', pm.writePage s.page = .ok pm' → ∃ q, pm'.readPage s.page.id = .ok q ∧ s.Holds q

theorem tuplesReread_iff (s : Session) (pm : PageManager) :
    s.TuplesReread pm ↔ s.TuplesSurvive := by
  constructor
  · intro h buf hbuf
    have hwrite : pm.writePage s.page = .ok (pm.writeAt buf (s.page.id.toNat * pageSize)) :=
      bind_eq_ok.mpr ⟨buf, hbuf, rfl⟩
    obtain ⟨buf', hbuf', hread⟩ := PageManager.readPage_writePage hwrite
    obtain ⟨q, hq, hholds⟩ := h _ hwrite
    rw [hbuf] at hbuf'
    cases hbuf'
    exact ⟨q, by rw [← hread, hq], hholds⟩
  · intro h pm' hwrite
    obtain ⟨buf, hbuf, hread⟩ := PageManager.readPage_writePage hwrite
    obtain ⟨q, hq, hholds⟩ := h buf hbuf
    exact ⟨q, by rw [hread, hq], hholds⟩

/-- The directory announced on disk fits in the page, and each of its live slots
has an index that `AddTuple` returned and lies `loadBase` below the bytes given. -/
def TuplesKept (s : Session) : Prop :=
  s.page.loadBase ≤ pageSize ∧ ∀ i < s.page.loadCount,
    (s.page.loadSlot i).isDeleted = false → ∃ d, s.given.lookup i = some d ∧
      d.length = (s.page.loadSlot i).size.toNat ∧
      (s.page.loadSlot i).offset.toNat + d.length ≤ pageSize ∧
      ∀ k < d.length, d[k]? =
        some (s.page.layoutByte ((s.page.loadSlot i).offset.toNat + k + s.page.loadBase))

theorem tuplesSurvive_iff_kept {s : Session} (hfso : s.page.freeSpaceOffset.toNat ≤ pageSize)
    (hdir : s.page.directoryEnd ≤ pageSize) : s.TuplesSurvive ↔ s.TuplesKept := by
  have hser : s.page.serialize = .ok s.page.image := serialize_eq_ok.mpr ⟨hdir, hfso, rfl⟩
  constructor
  · intro h
    obtain ⟨q, hq, hall⟩ := h _ hser
    obtain ⟨hbase, hslots, hdata⟩ := eq_of_deserializePage_image hdir hfso hq
    refine ⟨hbase, fun i hi hlive => ?_⟩
    have hslot : q.slots[i]? = some (s.page.loadSlot i) := by
      rw [hslots, List.getElem?_map, List.getElem?_range hi, Option.map_some]
    obtain ⟨d, hd, hslice⟩ := hall i _ hslot hlive
    obtain ⟨-, hend, hlen, hget⟩ := slice_eq_some_iff_getElem?.mp hslice
    rw [q.data_length] at hend
    refine ⟨d, hd, by omega, by omega, fun k hk => ?_⟩
    rw [← hget k hk, hdata _ (by omega)]
  · rintro ⟨hbase, hall⟩ buf hbuf
    rw [hser] at hbuf
    cases hbuf
    obtain ⟨q, hq⟩ := exists_deserializePage_image hdir hfso hbase
    obtain ⟨-, hslots, hdata⟩ := eq_of_deserializePage_image hdir hfso hq
    refine ⟨q, hq, fun i slot hslot hlive => ?_⟩
    obtain ⟨hi, rfl⟩ := List.getElem?_eq_some_iff.mp hslot
    simp only [hslots, List.length_map, List.length_range, List.getElem_map, List.getElem_range]
      at hi hlive ⊢
    obtain ⟨d, hd, hlen, hend, hget⟩ := hall _ hi hlive
    refine ⟨d, hd, slice_eq_some_iff_getElem?.mpr ⟨by omega, ?_, by omega, fun k hk => ?_⟩⟩
    · rw [q.data_length, ← hlen]
      exact hend
    · rw [hdata _ (by omega), hget k hk]

theorem Simulates.exists_given {s : Session} (hs : s.Simulates) {i : ℕ} {slot : Slot}
    (hi : s.page.slots[i]? = some slot) (hlive : slot.isDeleted = false) :
    ∃ d, s.given.lookup i = some d ∧
      slice s.page.data slot.offset.toNat (slot.offset.toNat + slot.size.toNat) = some d := by
  obtain ⟨d, hd⟩ := hs.stacked.exists_read hi hlive
  have hgiven := hs.given_of_live i d (by rw [← hs.read_eq, hd])
  rw [read_of_slot hi hlive] at hd
  exact ⟨d, hgiven, hd⟩

/-- Only indices of slots were returned. -/
theorem given_lt_step (s : Session) (call : PageCall)
    (h : ∀ i ∈ s.given, i < s.page.slots.length) :
    ∀ i ∈ (s.step call).given, i < (s.step call).page.slots.length := by
  cases call with
  | addTuple tuple =>
    cases hadd : s.page.addTuple tuple with
    | error f => simpa [step, hadd] using h
    | ok r =>
      obtain ⟨-, -, rfl⟩ := Page.addTuple_eq_ok.mp hadd
      intro i hi
      simp only [step, hadd, Finmap.mem_insert, withTuple_slots, List.length_append,
        List.length_singleton] at hi ⊢
      rcases hi with rfl | hi
      · exact Nat.lt_succ_self _
      · exact Nat.lt_succ_of_lt (h i hi)
  | deleteTuple k =>
    cases hdel : s.page.deleteTuple k with
    | error f => simpa [step, hdel] using h
    | ok p =>
      obtain ⟨j, -, -, rfl⟩ := Page.deleteTuple_eq_ok.mp hdel
      simpa [step, hdel] using h

theorem given_lt_run (id : UInt32) (calls : List PageCall) :
    ∀ i ∈ ((start id).run calls).given, i < ((start id).run calls).page.slots.length :=
  foldl_invariant given_lt_step (fun _ hi => absurd hi Finmap.notMem_empty) calls

/-- Within the layout the tuples are kept exactly when every entry counted past the
slots is a deleted one and the tuples do not change under the shift from the place they
were written at to the place they are read from. -/
theorem Simulates.tuplesKept_iff {s : Session} (hs : s.Simulates)
    (hgiven : ∀ i ∈ s.given, i < s.page.slots.length) (hlay : s.page.Layout) :
    s.TuplesKept ↔ s.page.SurplusDeleted ∧ s.page.ShiftStable := by
  have hbase : s.page.loadBase = headerSize + slotSize * s.page.tupleCount.toNat := by
    rw [loadBase, hlay.loadCount_eq]
  constructor
  · rintro ⟨-, hall⟩
    rw [hlay.loadCount_eq] at hall
    refine ⟨fun i hi hcount => ?_, fun i hi slot hslot hlive k hk => ?_⟩
    · rw [← surplus_iff hi]
      by_contra hlive
      obtain ⟨d, hd, -⟩ := hall i hcount (Bool.eq_false_of_not_eq_true hlive)
      exact absurd (hgiven i (Finmap.mem_iff.mpr ⟨d, hd⟩)) (by omega)
    · have hload := hall i hi
      rw [hlay.loadSlot_eq hslot] at hload
      obtain ⟨d, hd, hlen, -, hget⟩ := hload hlive
      obtain ⟨d', hd', hslice⟩ := hs.exists_given hslot hlive
      rw [hd] at hd'
      cases hd'
      have hrange := hs.stacked.live_range i slot hslot hlive
      obtain ⟨-, -, -, hold⟩ := slice_eq_some_iff_getElem?.mp hslice
      have hbyte := (hold k (by omega)).trans (hget k (by omega))
      rw [← hbase, List.getD_eq_getElem?_getD, hbyte, Option.getD_some, layoutByte,
        if_neg (by omega)]
  · rintro ⟨hsurplus, hstable⟩
    refine ⟨hbase ▸ hsurplus.directory_fits hlay, fun i hi hlive => ?_⟩
    rw [hlay.loadCount_eq] at hi
    have hlt : i < s.page.slots.length := by
      by_contra hle
      have hdel := (surplus_iff (Nat.not_lt.mp hle)).mpr (hsurplus i (Nat.not_lt.mp hle) hi)
      rw [hdel] at hlive
      cases hlive
    have hslot := List.getElem?_eq_getElem hlt
    rw [hlay.loadSlot_eq hslot] at hlive ⊢
    obtain ⟨d, hd, hslice⟩ := hs.exists_given hslot hlive
    have hrange := hs.stacked.live_range i _ hslot hlive
    obtain ⟨-, -, hlen, hold⟩ := slice_eq_some_iff_getElem?.mp hslice
    refine ⟨d, hd, by omega, by omega, fun k hk => ?_⟩
    have hbyte := hstable i hi _ hslot hlive k (by omega)
    rw [List.getD_eq_getElem?_getD, hold k hk, List.getElem?_eq_getElem hk,
      Option.getD_some] at hbyte
    rw [List.getElem?_eq_getElem hk, hbyte, layoutByte, if_neg (by omega), hbase]

theorem tuplesSurvive_iff (id : UInt32) (calls : List PageCall)
    (hlay : ((start id).run calls).page.Layout) :
    ((start id).run calls).TuplesSurvive ↔ ((start id).run calls).page.SurplusDeleted ∧
      ((start id).run calls).page.ShiftStable :=
  (tuplesSurvive_iff_kept hlay.2 (hlay.1.trans hlay.2)).trans
    ((simulates_run id calls).tuplesKept_iff (given_lt_run id calls) hlay)

/-- The tuples of a reachable page that keeps the layout survive `Serialize` and
`DeserializePage`, and so `WritePage` and `ReadPage`, exactly when every entry counted
past the slots is a deleted one and every byte of a tuple stands again as much further on
as the counted directory is long. -/
theorem tuples_survive_iff (id : UInt32) (calls : List PageCall)
    (hlay : ((start id).run calls).page.Layout) :
    let s := (start id).run calls
    (s.TuplesSurvive ↔ s.page.SurplusDeleted ∧ s.page.ShiftStable) ∧
      ∀ pm, s.TuplesReread pm ↔ s.page.SurplusDeleted ∧ s.page.ShiftStable :=
  ⟨tuplesSurvive_iff id calls hlay,
    fun pm => (tuplesReread_iff _ pm).trans (tuplesSurvive_iff id calls hlay)⟩

/-- Two equal tuples as long as the directory of two entries, and a third one; then the first
is deleted, so two tuples are counted. -/
def stable : List PageCall :=
  [.addTuple (List.replicate 16 0x61), .addTuple (List.replicate 16 0x61), .addTuple [],
    .deleteTuple 0]

theorem page_stable : ((start 0).run stable).page =
    ((((newPage 0).withTuple (List.replicate 16 0x61)).withTuple
      (List.replicate 16 0x61)).withTuple []).withoutTuple 0 := rfl

theorem getD_stable (k : ℕ) (h : k < 32) :
    ((start 0).run stable).page.data.getD (4064 + k) 0 = 0x61 := by
  have hdata : ((start 0).run stable).page.data = overwrite (overwrite (overwrite
      (List.replicate pageSize 0) 4080 (List.replicate 16 0x61)) 4064 (List.replicate 16 0x61))
      4064 [] := by
    rw [page_stable]
    simp only [withoutTuple_data, withTuple_data, withTuple_freeSpaceOffset]
    rfl
  rw [hdata, List.getD_eq_getElem?_getD]
  simp only [getElem?_overwrite, length_overwrite, List.length_replicate, List.length_nil,
    List.getElem?_replicate, pageSize]
  split_ifs <;> first | rfl | omega

theorem shiftStable_stable : ((start 0).run stable).page.ShiftStable := by
  have hslots : ((start 0).run stable).page.slots = [deletedSlot, ⟨4064, 16⟩, ⟨4064, 0⟩] := rfl
  have hcount : ((start 0).run stable).page.tupleCount.toNat = 2 := rfl
  intro i hi slot hslot hlive k hk
  rw [hcount] at hi ⊢
  rw [hslots] at hslot
  interval_cases i
  · cases hslot
    cases hlive
  · cases hslot
    have hk' : k < 16 := by simpa using hk
    exact (getD_stable k (by omega)).trans (getD_stable (k + 16) (by omega)).symm

/-- The second tuple is read in the place of the first. -/
theorem tuples_survive_stable :
    ((start 0).run stable).TuplesSurvive ∧ ((start 0).run stable).TuplesReread ⟨[]⟩ := by
  have hlay : ((start 0).run stable).page.Layout :=
    ⟨by decide, (simulates_run 0 stable).stacked.freeSpaceOffset_le⟩
  have hcond : ((start 0).run stable).page.SurplusDeleted ∧
      ((start 0).run stable).page.ShiftStable :=
    ⟨surplusDeleted_of_le (by decide), shiftStable_stable⟩
  have hiff := tuples_survive_iff 0 stable hlay
  exact ⟨hiff.1.mpr hcond, (hiff.2 ⟨[]⟩).mpr hcond⟩

theorem getD_single (b : UInt8) : ((start 0).run [.addTuple [b]]).page.data.getD 4095 0 = b := by
  have hdata : ((start 0).run [.addTuple [b]]).page.data =
      overwrite (List.replicate pageSize 0) 4095 [b] := rfl
  rw [hdata, List.getD_eq_getElem?_getD, getElem?_overwrite, List.length_replicate, if_pos]
  · rfl
  · change 4095 ≤ 4095 ∧ 4095 < 4095 + 1 ∧ 4095 < 4096
    omega

/-- A tuple of one byte lies at the end of the page and is read from past it. -/
theorem tuples_lost : ¬ ∀ id calls, ((start id).run calls).TuplesSurvive := by
  intro h
  have hs := simulates_run 0 [.addTuple [0x61]]
  have hlay : ((start 0).run [.addTuple [0x61]]).page.Layout :=
    ⟨by decide, hs.stacked.freeSpaceOffset_le⟩
  have hstable := ((tuplesSurvive_iff 0 _ hlay).mp (h 0 _)).2
  have hslot : ((start 0).run [.addTuple [0x61]]).page.slots[0]? = some ⟨4095, 1⟩ := rfl
  have hbyte := hstable 0 (by decide) _ hslot (by decide) 0 (by decide)
  have hpast : ((start 0).run [.addTuple [0x61]]).page.data.length ≤ 4095 + 12 := by
    rw [Page.data_length]
    decide
  have hzero : ((start 0).run [.addTuple [0x61]]).page.data.getD (4095 + 12) 0 = 0 := by
    rw [List.getD_eq_getElem?_getD, List.getElem?_eq_none hpast, Option.getD_none]
  have hlost := (getD_single 0x61).symm.trans (hbyte.trans hzero)
  exact absurd hlost (by decide)

end Session

end BuildYourOwnStuff.Storage
