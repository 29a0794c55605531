import BuildYourOwnStuff.Foundations.Buffers
import BuildYourOwnStuff.Foundations.Loops

/-!
# Go byte slices and `encoding/binary`

A call that indexes outside a slice panics. Slicing `s[lo:hi]` is bounded by the
capacity of `s`, while `s[lo:]` and the decoders of `binary.LittleEndian` are
bounded by its length; a `GoSlice` therefore keeps the bytes past its length.
-/

namespace BuildYourOwnStuff.GoStd

open Foundations

/-- How a Go call ends when it does not return a result. -/
inductive Fault
  | error (message : String)
  | panic
  deriving DecidableEq, Repr

abbrev Outcome (α : Type) := Except Fault α

/-- The elements of a byte slice, then those between its length and its capacity. -/
structure GoSlice where
  elements : Bytes
  spare : Bytes

namespace GoSlice

/-- A slice whose capacity is its length. -/
def ofBytes (bs : Bytes) : GoSlice := ⟨bs, []⟩

/-- `s[lo:hi]` -/
def sub (s : GoSlice) (lo hi : ℕ) : Outcome Bytes :=
  match slice (s.elements ++ s.spare) lo hi with
  | some bs => .ok bs
  | none => .error .panic

/-- `s[lo:]` -/
def tail (s : GoSlice) (lo : ℕ) : Outcome Bytes :=
  if lo ≤ s.elements.length then .ok (s.elements.drop lo) else .error .panic

theorem sub_ofBytes (bs : Bytes) {lo hi : ℕ} (h : lo ≤ hi) (hlen : hi ≤ bs.length) :
    (ofBytes bs).sub lo hi = .ok ((bs.drop lo).take (hi - lo)) := by
  have hslice : slice (bs ++ []) lo hi = some ((bs.drop lo).take (hi - lo)) := by
    rw [List.append_nil, slice, if_pos ⟨h, hlen⟩]
  simp only [sub, ofBytes, hslice]

theorem eq_of_sub_ofBytes {bs d : Bytes} {lo hi : ℕ} (h : (ofBytes bs).sub lo hi = .ok d) :
    d = (bs.drop lo).take (hi - lo) := by
  simp only [sub, ofBytes, List.append_nil] at h
  cases hslice : slice bs lo hi with
  | none => simp [hslice] at h
  | some d' =>
    simp only [hslice, Except.ok.injEq] at h
    rw [← h, (slice_eq_some.mp hslice).2.2]

end GoSlice

/-- The integer in the first `k` bytes; a shorter slice panics. -/
def readLe (k : ℕ) (b : Bytes) : Outcome ℕ :=
  if k ≤ b.length then .ok (leNat (b.take k)) else .error .panic

/-- Store the `k` low bytes of `n` at `buf[pos:]`; a shorter slice panics. -/
def writeLe (k : ℕ) (buf : Bytes) (pos n : ℕ) : Outcome Bytes :=
  if pos + k ≤ buf.length then .ok (overwrite buf pos (leBytes k n)) else .error .panic

/-- `binary.LittleEndian.Uint16` -/
def uint16 (b : Bytes) : Outcome UInt16 := (readLe 2 b).map UInt16.ofNat

/-- `binary.LittleEndian.Uint32` -/
def uint32 (b : Bytes) : Outcome UInt32 := (readLe 4 b).map UInt32.ofNat

/-- `binary.LittleEndian.PutUint16(buf[pos:], v)` -/
def putUint16 (buf : Bytes) (pos : ℕ) (v : UInt16) : Outcome Bytes := writeLe 2 buf pos v.toNat

/-- `binary.LittleEndian.PutUint32(buf[pos:], v)` -/
def putUint32 (buf : Bytes) (pos : ℕ) (v : UInt32) : Outcome Bytes := writeLe 4 buf pos v.toNat

theorem readLe_append {k n : ℕ} (h : n < 256 ^ k) (rest : Bytes) :
    readLe k (leBytes k n ++ rest) = .ok n := by
  have htake : (leBytes k n ++ rest).take k = leBytes k n := List.take_left' (length_leBytes k n)
  rw [readLe, if_pos (by simp), htake, leNat_leBytes, Nat.mod_eq_of_lt h]

/-- A decoded integer is stored by the bytes it was decoded from. -/
theorem leBytes_of_readLe {k n : ℕ} {b : Bytes} (h : readLe k b = .ok n) :
    leBytes k n = b.take k ∧ n < 256 ^ k := by
  unfold readLe at h
  split_ifs at h with hlen
  cases h
  have htake : (b.take k).length = k := List.length_take_of_le hlen
  have hback := leBytes_leNat (b.take k)
  have hlt := leNat_lt (b.take k)
  rw [htake] at hback hlt
  exact ⟨hback, hlt⟩

/-- A write right after a prefix of the buffer replaces the bytes that follow it. -/
theorem writeLe_append {k pos : ℕ} (pre : Bytes) {rest : Bytes} (n : ℕ)
    (hpos : pre.length = pos) (h : k ≤ rest.length) :
    writeLe k (pre ++ rest) pos n = .ok (pre ++ leBytes k n ++ rest.drop k) := by
  subst hpos
  have hfit : pre.length + k ≤ (pre ++ rest).length := by simpa using h
  rw [writeLe, if_pos hfit, overwrite_append _ _ _ (by simpa using h), length_leBytes]

theorem writeLe_panics {k : ℕ} {buf : Bytes} {pos : ℕ} (n : ℕ) (h : buf.length < pos + k) :
    writeLe k buf pos n = .error .panic :=
  if_neg (by omega)

theorem uint16_append (v : UInt16) (rest : Bytes) :
    uint16 (leBytes 2 v.toNat ++ rest) = .ok v := by
  rw [uint16, readLe_append v.toNat_lt]
  simp [Except.map]

theorem uint32_append (v : UInt32) (rest : Bytes) :
    uint32 (leBytes 4 v.toNat ++ rest) = .ok v := by
  rw [uint32, readLe_append v.toNat_lt]
  simp [Except.map]

theorem uint16_eq_ok {b : Bytes} (h : 2 ≤ b.length) :
    uint16 b = .ok (UInt16.ofNat (leNat (b.take 2))) := by
  rw [uint16, readLe, if_pos h]
  rfl

theorem uint32_eq_ok {b : Bytes} (h : 4 ≤ b.length) :
    uint32 b = .ok (UInt32.ofNat (leNat (b.take 4))) := by
  rw [uint32, readLe, if_pos h]
  rfl

theorem leBytes_of_uint16 {b : Bytes} {v : UInt16} (h : uint16 b = .ok v) :
    leBytes 2 v.toNat = b.take 2 := by
  unfold uint16 at h
  cases hr : readLe 2 b with
  | error f => simp [hr, Except.map] at h
  | ok n =>
    obtain ⟨hbytes, hlt⟩ := leBytes_of_readLe hr
    simp only [hr, Except.map, Except.ok.injEq] at h
    rw [← h, UInt16.toNat_ofNat_of_lt' hlt, hbytes]

theorem leBytes_of_uint32 {b : Bytes} {v : UInt32} (h : uint32 b = .ok v) :
    leBytes 4 v.toNat = b.take 4 := by
  unfold uint32 at h
  cases hr : readLe 4 b with
  | error f => simp [hr, Except.map] at h
  | ok n =>
    obtain ⟨hbytes, hlt⟩ := leBytes_of_readLe hr
    simp only [hr, Except.map, Except.ok.injEq] at h
    rw [← h, UInt32.toNat_ofNat_of_lt' hlt, hbytes]

end BuildYourOwnStuff.GoStd
