import BuildYourOwnStuff.Foundations.Buffers

/-!
# A file of blocks

A file is cut into blocks of one size. A write at the position of a block fills
a gap before it with a default element; without a gap, it changes this block
only, and the file grows by at most the block.
-/

namespace BuildYourOwnStuff.Foundations

variable {α : Type*} {size k j : ℕ} {file buf : List α}

/-- Block `k` of a file, if the file reaches its end. -/
def block (size : ℕ) (file : List α) (k : ℕ) : Option (List α) :=
  slice file (k * size) (k * size + size)

/-- Write `src` from position `pos` on, past the end of the file if need be. -/
def writeFrom (default : α) (file : List α) (pos : ℕ) (src : List α) : List α :=
  overwrite (file ++ List.replicate (pos + src.length - file.length) default) pos src

theorem block_eq_none (h : file.length < k * size + size) : block size file k = none := by
  rw [block, slice, if_neg (by omega)]

theorem end_le_start (h : j < k) : j * size + size ≤ k * size := by
  rw [← Nat.succ_mul]
  exact Nat.mul_le_mul_right size h

theorem slice_append_left {lo hi : ℕ} (h : hi ≤ file.length) (rest : List α) :
    slice (file ++ rest) lo hi = slice file lo hi := by
  have hlen : hi ≤ (file ++ rest).length := by
    rw [List.length_append]
    omega
  unfold slice
  by_cases hle : lo ≤ hi
  · rw [if_pos ⟨hle, hlen⟩, if_pos ⟨hle, h⟩, List.drop_append_of_le_length (by omega),
      List.take_append_of_le_length (by rw [List.length_drop]; omega)]
  · rw [if_neg (by omega), if_neg (by omega)]

theorem length_writeFrom (default : α) (file src : List α) (pos : ℕ) :
    (writeFrom default file pos src).length = max file.length (pos + src.length) := by
  rw [writeFrom, length_overwrite, List.length_append, List.length_replicate]
  omega

/-- The block just written. -/
theorem block_writeFrom_self (default : α) (file : List α) (k : ℕ) (hbuf : buf.length = size) :
    block size (writeFrom default file (k * size) buf) k = some buf := by
  subst hbuf
  apply slice_overwrite_self
  rw [List.length_append, List.length_replicate]
  omega

/-- A write without a gap before it leaves every other block as it was. -/
theorem block_writeFrom_of_ne (default : α) (hbuf : buf.length = size)
    (hk : k * size ≤ file.length) (hne : j ≠ k) :
    block size (writeFrom default file (k * size) buf) j = block size file j := by
  by_cases hj : j * size + size ≤ file.length
  · have hdisjoint : j * size + size ≤ k * size ∨ k * size + buf.length ≤ j * size := by
      rw [hbuf]
      exact (lt_or_gt_of_ne hne).imp end_le_start end_le_start
    rw [block, writeFrom, slice_overwrite_of_disjoint hdisjoint, slice_append_left hj, block]
  · have hlt : k < j := by
      by_contra hge
      have hle : j * size + size ≤ k * size :=
        end_le_start (lt_of_le_of_ne (not_lt.mp hge) hne)
      omega
    have hend : k * size + size ≤ j * size := end_le_start hlt
    have hout : (writeFrom default file (k * size) buf).length < j * size + size := by
      rw [length_writeFrom, hbuf]
      omega
    rw [block_eq_none hout, block_eq_none (not_le.mp hj)]

end BuildYourOwnStuff.Foundations
