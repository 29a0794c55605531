import BuildYourOwnStuff.Foundations.Buffers

/-!
# Frames

A frame is a message after its length, which stands in four bytes with the
highest first. A reader of such a stream takes a length, then as many bytes, and
so on; from whole frames it recovers the messages.
-/

namespace BuildYourOwnStuff.Foundations

/-- The `k` low bytes of `n`, the highest first. -/
def beBytes (k n : ℕ) : Bytes := (leBytes k n).reverse

def beNat (bs : Bytes) : ℕ := leNat bs.reverse

@[simp] theorem length_beBytes (k n : ℕ) : (beBytes k n).length = k := by
  rw [beBytes, List.length_reverse, length_leBytes]

theorem beNat_beBytes {k n : ℕ} (h : n < 256 ^ k) : beNat (beBytes k n) = n := by
  rw [beNat, beBytes, List.reverse_reverse, leNat_leBytes, Nat.mod_eq_of_lt h]

/-- The bytes before are the higher ones. -/
theorem beNat_append (as bs : Bytes) :
    beNat (as ++ bs) = beNat as * 256 ^ bs.length + beNat bs := by
  rw [beNat, List.reverse_append, leNat_append, List.length_reverse, beNat, beNat]
  ring

theorem beNat_zeros (k : ℕ) : beNat (List.replicate k 0) = 0 := by
  induction k with
  | zero => rfl
  | succ k ih =>
    rw [List.replicate_succ', beNat_append, ih]
    rfl

/-- The length of a message, as it is sent. -/
def frameHeader (m : Bytes) : Bytes := beBytes 4 m.length

def frame (m : Bytes) : Bytes := frameHeader m ++ m

end BuildYourOwnStuff.Foundations
