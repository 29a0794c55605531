import BuildYourOwnStuff.Foundations.Blocks
import BuildYourOwnStuff.Storage.PageManager

/-!
# Runs of the page manager

A client allocates pages, changes them in memory, writes them and reads pages
back. The ID of a page is not stored anywhere: it comes from the size of the
file. Throughout a run the file has one block for each allocated page, and the
block of an ID is the image last written under it.
-/

namespace BuildYourOwnStuff.Storage

open Foundations GoStd

/-- A manager, the pages its client was given as they are in memory, and the
image last written under each ID. -/
structure Client where
  pm : PageManager
  pages : List Page
  written : ℕ → Option Bytes

inductive ManagerCall
  | allocateNewPage
  | onPage (n : ℕ) (call : PageCall)
  | writePage (n : ℕ)
  | readPage (pageID : UInt32)
  deriving DecidableEq, Repr

namespace Client

/-- A manager on an empty file. -/
def start : Client := ⟨⟨[]⟩, [], fun _ => none⟩

/-- The client after `AllocateNewPage`. -/
def allocated (c : Client) : Outcome (PageManager × Page) → Client
  | .ok (pm, p) =>
    ⟨pm, c.pages ++ [p], Function.update c.written p.id.toNat p.serialize.toOption⟩
  | .error _ => c

/-- The client after `WritePage` of `p`. -/
def wrote (c : Client) (p : Page) : Outcome PageManager → Client
  | .ok pm => { c with pm, written := Function.update c.written p.id.toNat p.serialize.toOption }
  | .error _ => c

/-- Pages are named by the order in which they were allocated. A call that fails
has no effect, and `ReadPage` never has one. -/
def step (c : Client) : ManagerCall → Client
  | .allocateNewPage => c.allocated c.pm.allocateNewPage
  | .onPage n call => { c with pages := c.pages.modify n fun p => p.step call }
  | .writePage n =>
    match c.pages[n]? with
    | none => c
    | some p => c.wrote p (c.pm.writePage p)
  | .readPage _ => c

def run (calls : List ManagerCall) : Client := calls.foldl step start

/-- What the client can rely on after a number of allocations. -/
structure KeptApart (c : Client) (allocations : ℕ) : Prop where
  pages_length : c.pages.length = allocations
  ids : ∀ (n : ℕ) (p : Page), c.pages[n]? = some p → p.id.toNat = n
  file_length : c.pm.file.length = pageSize * allocations
  blocks : ∀ k < allocations, ∃ image, c.written k = some image ∧
    block pageSize c.pm.file k = some image
  writePage_frame : ∀ n p pm, c.pages[n]? = some p → c.pm.writePage p = .ok pm →
    ∀ k ≠ n, block pageSize pm.file k = block pageSize c.pm.file k
  allocateNewPage_frame : ∀ (pm : PageManager) (p : Page), c.pm.allocateNewPage = .ok (pm, p) →
    ∀ k ≠ p.id.toNat, block pageSize pm.file k = block pageSize c.pm.file k
  readPage_allocated : ∀ pageID : UInt32, pageID.toNat < allocations → ∃ image,
    c.written pageID.toNat = some image ∧
      c.pm.readPage pageID = Page.deserializePage (.ofBytes image)
  readPage_other : ∀ pageID : UInt32, allocations ≤ pageID.toNat →
    ∃ message, c.pm.readPage pageID = .error (.error message)

/-- The invariant of a run: IDs count the pages, the file has a block for each,
and each block is the image last written. -/
structure Kept (c : Client) : Prop where
  ids : ∀ (n : ℕ) (p : Page), c.pages[n]? = some p → p.id.toNat = n
  file_length : c.pm.file.length = c.pages.length * pageSize
  blocks : ∀ k, block pageSize c.pm.file k = c.written k

theorem writePage_eq_ok {pm pm' : PageManager} {p : Page} : pm.writePage p = .ok pm' ↔
    ∃ buf, p.serialize = .ok buf ∧ buf.length = pageSize ∧
      pm'.file = writeFrom 0 pm.file (p.id.toNat * pageSize) buf := by
  constructor
  · intro h
    obtain ⟨buf, hbuf, hpm⟩ := bind_eq_ok.mp h
    cases hpm
    exact ⟨buf, hbuf, Page.length_of_serialize hbuf, rfl⟩
  · rintro ⟨buf, hbuf, -, hfile⟩
    refine bind_eq_ok.mpr ⟨buf, hbuf, ?_⟩
    cases pm'
    exact congrArg (fun file => Except.ok (PageManager.mk file)) hfile.symm

/-- A page whose ID is at most the number of blocks is written to its block alone. -/
theorem block_writePage {pm pm' : PageManager} {p : Page} {n : ℕ} (h : pm.writePage p = .ok pm')
    (hlen : pm.file.length = n * pageSize) (hid : p.id.toNat ≤ n) (k : ℕ) :
    block pageSize pm'.file k =
      Function.update (block pageSize pm.file) p.id.toNat p.serialize.toOption k := by
  obtain ⟨buf, hbuf, hsize, hfile⟩ := writePage_eq_ok.mp h
  have hgap : p.id.toNat * pageSize ≤ pm.file.length := by
    rw [hlen]
    exact Nat.mul_le_mul_right pageSize hid
  rw [hfile, hbuf]
  by_cases hk : k = p.id.toNat
  · rw [hk, Function.update_self]
    exact block_writeFrom_self 0 pm.file _ hsize
  · rw [Function.update_of_ne hk]
    exact block_writeFrom_of_ne 0 hsize hgap hk

theorem length_writePage {pm pm' : PageManager} {p : Page} (h : pm.writePage p = .ok pm') :
    pm'.file.length = max pm.file.length ((p.id.toNat + 1) * pageSize) := by
  obtain ⟨buf, -, hsize, hfile⟩ := writePage_eq_ok.mp h
  rw [hfile, length_writeFrom, hsize, Nat.succ_mul]

/-- `AllocateNewPage` writes a page whose ID is the number of blocks. -/
theorem allocateNewPage_eq_ok {pm pm' : PageManager} {p : Page}
    (h : pm.allocateNewPage = .ok (pm', p)) :
    p = newPage (UInt32.ofNat (pm.file.length / pageSize)) ∧ pm.writePage p = .ok pm' := by
  obtain ⟨pm₁, hwrite, heq⟩ := bind_eq_ok.mp h
  cases heq
  exact ⟨rfl, hwrite⟩

theorem id_step (p : Page) (call : PageCall) : (p.step call).id = p.id := by
  cases call with
  | addTuple tuple =>
    cases hadd : p.addTuple tuple with
    | error f => simp [Page.step, hadd]
    | ok r =>
      obtain ⟨-, -, rfl⟩ := Page.addTuple_eq_ok.mp hadd
      simp only [Page.step, hadd]
      rfl
  | deleteTuple slotIndex =>
    rw [Page.step_deleteTuple]
    split_ifs <;> rfl

theorem kept_start : Kept start where
  ids := by simp [start]
  file_length := rfl
  blocks k := block_eq_none (Nat.add_pos_right _ (by decide))

variable {c : Client}

/-- The next ID is the number of pages. -/
theorem Kept.id_allocate (hc : c.Kept) (hroom : c.pages.length < 2 ^ 32) :
    (UInt32.ofNat (c.pm.file.length / pageSize)).toNat = c.pages.length := by
  have hpos : 0 < pageSize := by decide
  rw [hc.file_length, Nat.mul_div_cancel _ hpos]
  exact UInt32.toNat_ofNat_of_lt' hroom

theorem Kept.allocateNewPage (hc : c.Kept) (hroom : c.pages.length < 2 ^ 32) :
    (c.step .allocateNewPage).Kept ∧
      (c.step .allocateNewPage).pages.length = c.pages.length + 1 := by
  obtain ⟨pm, halloc⟩ := c.pm.allocateNewPage_eq
  obtain ⟨-, hwrite⟩ := allocateNewPage_eq_ok halloc
  have hid := hc.id_allocate hroom
  generalize hp : newPage (UInt32.ofNat (c.pm.file.length / pageSize)) = p at halloc hwrite
  have hpid : p.id.toNat = c.pages.length := by rw [← hp, ← hid]; rfl
  simp only [step, halloc, allocated]
  refine ⟨⟨fun n q hq => ?_, ?_, fun k => ?_⟩, by simp⟩
  · rw [List.getElem?_append] at hq
    split_ifs at hq with hn
    · exact hc.ids n q hq
    · rw [List.getElem?_singleton] at hq
      split_ifs at hq with hlast
      cases hq
      omega
  · rw [length_writePage hwrite, hc.file_length, hpid, List.length_append, List.length_singleton,
      Nat.succ_mul]
    omega
  · rw [block_writePage hwrite hc.file_length hpid.le, funext hc.blocks]

theorem Kept.onPage (hc : c.Kept) (n : ℕ) (call : PageCall) : (c.step (.onPage n call)).Kept where
  ids m p hm := by
    obtain ⟨q, hq, rfl⟩ : ∃ q, c.pages[m]? = some q ∧
        (if n = m then q.step call else q) = p := by
      rwa [step, List.getElem?_modify, Option.map_eq_map, Option.map_eq_some_iff] at hm
    rw [← hc.ids m q hq]
    split_ifs
    · rw [id_step]
    · rfl
  file_length := by simpa [step] using hc.file_length
  blocks := hc.blocks

theorem Kept.writePage (hc : c.Kept) (n : ℕ) : (c.step (.writePage n)).Kept := by
  cases hp : c.pages[n]? with
  | none => simpa only [step, hp] using hc
  | some p =>
    simp only [step, hp]
    cases hwrite : c.pm.writePage p with
    | error f => exact hc
    | ok pm =>
      have hid := hc.ids n p hp
      have hn : n < c.pages.length := (List.getElem?_eq_some_iff.mp hp).1
      simp only [wrote]
      refine ⟨hc.ids, ?_, fun k => ?_⟩
      · have hle : (n + 1) * pageSize ≤ c.pages.length * pageSize :=
          Nat.mul_le_mul_right pageSize hn
        rw [length_writePage hwrite, hc.file_length, hid, Nat.max_eq_left hle]
      · rw [block_writePage hwrite hc.file_length (by omega), funext hc.blocks]

theorem length_step_writePage (n : ℕ) :
    (c.step (.writePage n)).pages.length = c.pages.length := by
  cases hp : c.pages[n]? with
  | none => simp only [step, hp]
  | some p =>
    simp only [step, hp]
    cases c.pm.writePage p <;> rfl

/-- One step lemma for all calls. -/
theorem Kept.step (hc : c.Kept) (call : ManagerCall)
    (hroom : c.pages.length + [call].count .allocateNewPage ≤ 2 ^ 32) :
    (c.step call).Kept ∧
      (c.step call).pages.length = c.pages.length + [call].count .allocateNewPage := by
  cases call with
  | allocateNewPage => exact hc.allocateNewPage (by simpa using hroom)
  | onPage n call => exact ⟨hc.onPage n call, by simp [Client.step]⟩
  | writePage n => exact ⟨hc.writePage n, by simp [length_step_writePage]⟩
  | readPage pageID => exact ⟨hc, by simp [Client.step]⟩

theorem kept_run (calls : List ManagerCall) (h : calls.count .allocateNewPage ≤ 2 ^ 32) :
    (run calls).Kept ∧ (run calls).pages.length = calls.count .allocateNewPage := by
  induction calls using List.reverseRecOn with
  | nil => exact ⟨kept_start, rfl⟩
  | append_singleton calls call ih =>
    rw [List.count_append] at h ⊢
    obtain ⟨hkept, hlen⟩ := ih (by omega)
    have hstep := hkept.step call (by omega)
    rw [run, List.foldl_append]
    rw [hlen] at hstep
    exact hstep

theorem block_of_lt {n k : ℕ} {file : Bytes} (hlen : file.length = n * pageSize) (hk : k < n) :
    ∃ image, block pageSize file k = some image := by
  have hend : k * pageSize + pageSize ≤ n * pageSize := end_le_start hk
  exact ⟨_, slice_eq_some.mpr ⟨Nat.le_add_right _ _, hend.trans_eq hlen.symm, rfl⟩⟩

theorem readPage_of_block {pm : PageManager} {pageID : UInt32} {image : Bytes}
    (h : block pageSize pm.file pageID.toNat = some image) :
    pm.readPage pageID = Page.deserializePage (.ofBytes image) := by
  unfold block at h
  simp only [PageManager.readPage, PageManager.readAt, h, bind, Except.bind]

theorem readPage_of_none {pm : PageManager} {pageID : UInt32}
    (h : block pageSize pm.file pageID.toNat = none) :
    pm.readPage pageID = .error (.error "EOF") := by
  unfold block at h
  simp only [PageManager.readPage, PageManager.readAt, h, bind, Except.bind]

theorem Kept.keptApart (hc : c.Kept) : c.KeptApart c.pages.length where
  pages_length := rfl
  ids := hc.ids
  file_length := by rw [hc.file_length, Nat.mul_comm]
  blocks k hk := by
    obtain ⟨image, himage⟩ := block_of_lt hc.file_length hk
    exact ⟨image, hc.blocks k ▸ himage, himage⟩
  writePage_frame n p pm hp hwrite k hk := by
    have hid := hc.ids n p hp
    have hn : n < c.pages.length := (List.getElem?_eq_some_iff.mp hp).1
    rw [block_writePage hwrite hc.file_length (by omega), Function.update_of_ne (by omega)]
  allocateNewPage_frame pm p halloc k hk := by
    obtain ⟨hp, hwrite⟩ := allocateNewPage_eq_ok halloc
    have hid : p.id.toNat ≤ c.pages.length := by
      have hpos : 0 < pageSize := by decide
      rw [hp, newPage, hc.file_length, Nat.mul_div_cancel _ hpos]
      exact Nat.mod_le _ _
    rw [block_writePage hwrite hc.file_length hid, Function.update_of_ne hk]
  readPage_allocated pageID hk := by
    obtain ⟨image, himage⟩ := block_of_lt hc.file_length hk
    exact ⟨image, hc.blocks pageID.toNat ▸ himage, readPage_of_block himage⟩
  readPage_other pageID hk := by
    have hend : c.pages.length * pageSize ≤ pageID.toNat * pageSize :=
      Nat.mul_le_mul_right pageSize hk
    have hpos : 0 < pageSize := by decide
    exact ⟨_, readPage_of_none (block_eq_none (by rw [hc.file_length]; omega))⟩

/-- The pages of a run are kept apart, as long as 32 bits suffice to number them. -/
theorem pages_kept_apart (calls : List ManagerCall) (h : calls.count .allocateNewPage < 2 ^ 32) :
    (run calls).KeptApart (calls.count .allocateNewPage) := by
  obtain ⟨hkept, hlen⟩ := kept_run calls h.le
  exact hlen ▸ hkept.keptApart

theorem pages_kept_apart_two :
    [ManagerCall.allocateNewPage, .allocateNewPage, .writePage 0].count .allocateNewPage < 2 ^ 32 ∧
      (run [.allocateNewPage, .allocateNewPage, .writePage 0]).KeptApart 2 :=
  ⟨by decide, pages_kept_apart [.allocateNewPage, .allocateNewPage, .writePage 0] (by decide)⟩

end Client

end BuildYourOwnStuff.Storage
