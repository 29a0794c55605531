import Mathlib.Data.List.Basic
import Mathlib.Tactic

/-!
# Buffers of fixed length

A buffer is a list whose length never changes: it is written in place by
`overwrite` and read by `slice`, which fails outside the bounds. Integers are
stored little-endian, `leBytes k n` being the `k` low bytes of `n`.
-/

namespace BuildYourOwnStuff.Foundations

abbrev Bytes := List UInt8

section Overwrite

variable {α : Type*}

/-- Write `src` over the elements from `pos` on; what does not fit is dropped. -/
def overwrite (buf : List α) (pos : ℕ) (src : List α) : List α :=
  buf.take pos ++ src.take (buf.length - pos) ++ buf.drop (pos + src.length)

/-- The elements from `lo` up to but not including `hi`. -/
def slice (buf : List α) (lo hi : ℕ) : Option (List α) :=
  if lo ≤ hi ∧ hi ≤ buf.length then some ((buf.drop lo).take (hi - lo)) else none

@[simp] theorem length_overwrite (buf : List α) (pos : ℕ) (src : List α) :
    (overwrite buf pos src).length = buf.length := by
  simp only [overwrite, List.length_append, List.length_take, List.length_drop]
  omega

theorem getElem?_overwrite (buf : List α) (pos : ℕ) (src : List α) (i : ℕ) :
    (overwrite buf pos src)[i]? =
      if pos ≤ i ∧ i < pos + src.length ∧ i < buf.length then src[i - pos]? else buf[i]? := by
  by_cases hlen : i < buf.length
  · have htake : (buf.take pos).length = min pos buf.length := List.length_take
    have hmid : (src.take (buf.length - pos)).length = min (buf.length - pos) src.length :=
      List.length_take
    rw [overwrite, List.append_assoc]
    rcases lt_or_ge i pos with hi | hi
    · rw [List.getElem?_append_left (by omega), List.getElem?_take, if_pos hi, if_neg (by omega)]
    · rw [List.getElem?_append_right (by omega), htake, Nat.min_eq_left (by omega)]
      rcases lt_or_ge i (pos + src.length) with hs | hs
      · rw [List.getElem?_append_left (by omega), List.getElem?_take, if_pos (by omega),
          if_pos ⟨hi, hs, hlen⟩]
      · rw [List.getElem?_append_right (by omega), List.getElem?_drop, if_neg (by omega), hmid]
        congr 1
        omega
  · rw [List.getElem?_eq_none (by rw [length_overwrite]; omega), if_neg (by omega),
      List.getElem?_eq_none (by omega)]

/-- A write at the end of a prefix leaves the prefix and what comes after it. -/
theorem overwrite_append (pre rest src : List α) (h : src.length ≤ rest.length) :
    overwrite (pre ++ rest) pre.length src = pre ++ src ++ rest.drop src.length := by
  have hfit : src.take (rest.length) = src := List.take_of_length_le h
  simp [overwrite, hfit, List.drop_append]

/-- A write that reaches the end of the buffer keeps only what comes before it. -/
theorem overwrite_to_end {buf src : List α} {pos : ℕ} (h : pos + src.length = buf.length) :
    overwrite buf pos src = buf.take pos ++ src := by
  have hsrc : src.take (buf.length - pos) = src := List.take_of_length_le (by omega)
  have hrest : buf.drop (pos + src.length) = [] := List.drop_of_length_le (by omega)
  rw [overwrite, hsrc, hrest, List.append_nil]

theorem slice_eq_some {buf d : List α} {lo hi : ℕ} :
    slice buf lo hi = some d ↔
      lo ≤ hi ∧ hi ≤ buf.length ∧ (buf.drop lo).take (hi - lo) = d := by
  unfold slice
  split_ifs with h <;> simp_all

theorem length_of_slice {buf d : List α} {lo hi : ℕ} (h : slice buf lo hi = some d) :
    d.length = hi - lo := by
  obtain ⟨hle, hlen, rfl⟩ := slice_eq_some.mp h
  simp only [List.length_take, List.length_drop]
  omega

/-- A slice is determined by its length and its elements. -/
theorem slice_eq_some_iff_getElem? {buf d : List α} {lo hi : ℕ} :
    slice buf lo hi = some d ↔
      lo ≤ hi ∧ hi ≤ buf.length ∧ d.length = hi - lo ∧
        ∀ k < d.length, buf[lo + k]? = d[k]? := by
  constructor
  · intro h
    have hd := length_of_slice h
    obtain ⟨hle, hlen, rfl⟩ := slice_eq_some.mp h
    refine ⟨hle, hlen, hd, fun k hk => ?_⟩
    rw [hd] at hk
    simp [hk]
  · rintro ⟨hle, hlen, hd, hget⟩
    refine slice_eq_some.mpr ⟨hle, hlen, List.ext_getElem? fun k => ?_⟩
    simp only [List.getElem?_take, List.getElem?_drop]
    split_ifs with hk
    · exact hget k (hd ▸ hk)
    · rw [List.getElem?_eq_none (by omega)]

/-- What was just written is read back. -/
theorem slice_overwrite_self {buf src : List α} {pos : ℕ} (h : pos + src.length ≤ buf.length) :
    slice (overwrite buf pos src) pos (pos + src.length) = some src := by
  refine slice_eq_some_iff_getElem?.mpr ⟨by omega, by simpa using h, by omega, fun k hk => ?_⟩
  rw [getElem?_overwrite, if_pos (by omega), Nat.add_sub_cancel_left]

/-- The frame rule: a write leaves every slice beside it as it was. -/
theorem slice_overwrite_of_disjoint {buf src : List α} {pos lo hi : ℕ}
    (h : hi ≤ pos ∨ pos + src.length ≤ lo) :
    slice (overwrite buf pos src) lo hi = slice buf lo hi := by
  unfold slice
  rw [length_overwrite]
  split_ifs with hb
  · congr 1
    apply List.ext_getElem?
    intro k
    simp only [List.getElem?_take, List.getElem?_drop, getElem?_overwrite]
    split_ifs <;> first | rfl | omega
  · rfl

end Overwrite

section LittleEndian

/-- The `k` low bytes of `n`, the lowest first. -/
def leBytes : ℕ → ℕ → Bytes
  | 0, _ => []
  | k + 1, n => UInt8.ofNat n :: leBytes k (n / 256)

/-- The number whose bytes, the lowest first, are given. -/
def leNat : Bytes → ℕ
  | [] => 0
  | b :: bs => b.toNat + 256 * leNat bs

@[simp] theorem length_leBytes (k n : ℕ) : (leBytes k n).length = k := by
  induction k generalizing n with
  | zero => rfl
  | succ k ih => simp [leBytes, ih]

theorem leNat_leBytes (k n : ℕ) : leNat (leBytes k n) = n % 256 ^ k := by
  induction k generalizing n with
  | zero => simp [leBytes, leNat, Nat.mod_one]
  | succ k ih =>
    have hlow : (UInt8.ofNat n).toNat = n % 256 := by simp
    rw [leBytes, leNat, ih, hlow, pow_succ, Nat.mul_comm (256 ^ k), Nat.mod_mul]

theorem leNat_append (as bs : Bytes) :
    leNat (as ++ bs) = leNat as + 256 ^ as.length * leNat bs := by
  induction as with
  | nil => simp [leNat]
  | cons a as ih =>
    rw [List.cons_append, leNat, ih, leNat, List.length_cons, pow_succ]
    ring

theorem leNat_lt (bs : Bytes) : leNat bs < 256 ^ bs.length := by
  induction bs with
  | nil => simp [leNat]
  | cons b bs ih =>
    have hb := b.toNat_lt
    simp only [leNat, List.length_cons, pow_succ]
    omega

theorem leBytes_leNat (bs : Bytes) : leBytes bs.length (leNat bs) = bs := by
  induction bs with
  | nil => rfl
  | cons b bs ih =>
    have hb : b.toNat < 256 := b.toNat_lt
    have hlow : UInt8.ofNat (b.toNat + 256 * leNat bs) = b := by
      apply UInt8.toNat_inj.mp
      rw [UInt8.toNat_ofNat']
      omega
    have hrest : (b.toNat + 256 * leNat bs) / 256 = leNat bs := by omega
    rw [List.length_cons, leNat, leBytes, hlow, hrest, ih]

end LittleEndian

end BuildYourOwnStuff.Foundations
