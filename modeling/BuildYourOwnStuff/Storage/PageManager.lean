import BuildYourOwnStuff.Storage.PageImage

/-!
# The page manager

The database file is a byte array. `ReadAt` fails with `EOF` when the file ends
before the buffer is full, and `WriteAt` fills a gap before its offset with
zeros. The ID of a new page is derived from the size of the file.
-/

namespace BuildYourOwnStuff.Storage

open Foundations GoStd

/-- The manager of an open file; its `pageSize` field is always `pageSize`. -/
structure PageManager where
  file : Bytes

namespace PageManager

/-- `file.ReadAt` into a buffer of `count` bytes -/
def readAt (pm : PageManager) (count offset : ℕ) : Outcome Bytes :=
  match slice pm.file offset (offset + count) with
  | some bs => .ok bs
  | none => .error (.error "EOF")

/-- `file.WriteAt` -/
def writeAt (pm : PageManager) (buf : Bytes) (offset : ℕ) : PageManager :=
  ⟨overwrite (pm.file ++ List.replicate (offset + buf.length - pm.file.length) 0) offset buf⟩

def readPage (pm : PageManager) (pageID : UInt32) : Outcome Page := do
  let buf ← pm.readAt pageSize (pageID.toNat * pageSize)
  Page.deserializePage (.ofBytes buf)

def writePage (pm : PageManager) (p : Page) : Outcome PageManager := do
  let buf ← p.serialize
  return pm.writeAt buf (p.id.toNat * pageSize)

def allocateNewPage (pm : PageManager) : Outcome (PageManager × Page) := do
  let p := newPage (UInt32.ofNat (pm.file.length / pageSize))
  let pm ← pm.writePage p
  return (pm, p)

/-- A block just written is read back. -/
theorem readAt_writeAt (pm : PageManager) (buf : Bytes) (offset : ℕ) :
    (pm.writeAt buf offset).readAt buf.length offset = .ok buf := by
  have hread : slice (pm.writeAt buf offset).file offset (offset + buf.length) = some buf := by
    apply slice_overwrite_self
    rw [List.length_append, List.length_replicate]
    omega
  rw [readAt, hread]

/-- `WritePage` followed by `ReadPage` of the same ID decodes the serialized page. -/
theorem readPage_writePage {pm pm' : PageManager} {p : Page} (h : pm.writePage p = .ok pm') :
    ∃ buf, p.serialize = .ok buf ∧ pm'.readPage p.id = Page.deserializePage (.ofBytes buf) := by
  obtain ⟨buf, hbuf, hpm⟩ := bind_eq_ok.mp h
  cases hpm
  have hlen : buf.length = pageSize := Page.length_of_serialize hbuf
  have hread := readAt_writeAt pm buf (p.id.toNat * pageSize)
  rw [hlen] at hread
  refine ⟨buf, hbuf, ?_⟩
  simp only [readPage, hread, bind, Except.bind]

/-- `AllocateNewPage` always succeeds, with an empty page. -/
theorem allocateNewPage_eq (pm : PageManager) :
    ∃ pm', pm.allocateNewPage = .ok (pm', newPage (UInt32.ofNat (pm.file.length / pageSize))) := by
  generalize hp : newPage (UInt32.ofNat (pm.file.length / pageSize)) = p
  have hdir : headerSize + slotSize * 0 ≤ pageSize := by decide
  have hser : p.serialize = .ok p.image := by
    subst hp
    exact Page.serialize_eq_ok.mpr ⟨hdir, le_rfl, rfl⟩
  refine ⟨pm.writeAt p.image (p.id.toNat * pageSize), ?_⟩
  simp only [allocateNewPage, writePage, hp, hser, bind, Except.bind, pure, Except.pure]

end PageManager

end BuildYourOwnStuff.Storage
