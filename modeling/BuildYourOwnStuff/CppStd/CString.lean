import BuildYourOwnStuff.GoStd.Utf8
import Mathlib.Data.List.TakeWhile

/-!
# C strings and numerals

A C string ends before its first zero byte. `padded width n` is what `sprintf`
writes for `%<width>d`, and `atoi` reads it back. `extract` is the operator `>>` from
a stream to a string.
-/

namespace BuildYourOwnStuff.CppStd

open Foundations

/-- The bytes up to the first zero byte. -/
def cString (s : Bytes) : Bytes := s.takeWhile fun b => b != 0

def isSpace (b : UInt8) : Bool := b == 0x20 || (0x09 ≤ b && b ≤ 0x0D)

def isDigit (b : UInt8) : Bool := 0x30 ≤ b && b ≤ 0x39

/-- The value of the digits at the start. -/
def number (s : Bytes) : ℕ :=
  (s.takeWhile isDigit).foldl (fun n b => 10 * n + (b.toNat - 0x30)) 0

/-- White space, a sign and digits; what follows is ignored. -/
def atoi (s : Bytes) : ℤ :=
  match s.dropWhile isSpace with
  | [] => 0
  | b :: rest =>
    if b = 0x2D then -number rest
    else if b = 0x2B then number rest
    else number (b :: rest)

/-- White space is skipped, and what comes before the next white space is taken. -/
def extract (input : Bytes) : Bytes × Bytes :=
  (input.dropWhile isSpace).span fun b => !isSpace b

def decimal (n : ℕ) : Bytes := GoStd.ascii (toString n)

/-- The numeral with spaces before it up to a width. -/
def padded (width n : ℕ) : Bytes :=
  List.replicate (width - (decimal n).length) 0x20 ++ decimal n

theorem cString_eq_self {s : Bytes} (h : 0 ∉ s) : cString s = s := by
  refine List.takeWhile_eq_self_iff.mpr fun b hb => ?_
  rw [bne_iff_ne]
  rintro rfl
  exact h hb

theorem decimal_eq (n : ℕ) :
    decimal n = (Nat.toDigits 10 n).map fun c => UInt8.ofNat c.toNat := by
  rw [decimal, GoStd.ascii, Nat.toString_eq_ofList_toDigits, String.toList_ofList]

theorem decimal_ne_nil (n : ℕ) : decimal n ≠ [] := by
  simp [decimal_eq, Nat.toDigits_ne_nil]

theorem length_decimal_le_iff {n k : ℕ} (h : 0 < k) : (decimal n).length ≤ k ↔ n < 10 ^ k := by
  rw [decimal_eq, List.length_map]
  exact Nat.length_toDigits_le_iff (by decide) h

theorem toNat_digit {c : Char} (h : c.isDigit = true) :
    (UInt8.ofNat c.toNat).toNat = c.toNat ∧ 0x30 ≤ c.toNat ∧ c.toNat ≤ 0x39 := by
  have hdigit : 0x30 ≤ c.toNat ∧ c.toNat ≤ 0x39 := Char.isDigit_iff_toNat.mp h
  refine ⟨?_, hdigit⟩
  rw [UInt8.toNat_ofNat']
  apply Nat.mod_eq_of_lt
  omega

theorem isDigit_of_mem_decimal {n : ℕ} {b : UInt8} (h : b ∈ decimal n) : isDigit b = true := by
  rw [decimal_eq] at h
  obtain ⟨c, hc, rfl⟩ := List.mem_map.mp h
  obtain ⟨heq, hlow, hhigh⟩ :=
    toNat_digit (Nat.isDigit_of_mem_toDigits (by decide) (by decide) hc)
  simp only [isDigit, Bool.and_eq_true, decide_eq_true_eq, UInt8.le_iff_toNat_le, heq]
  exact ⟨hlow, hhigh⟩

theorem number_decimal (n : ℕ) : number (decimal n) = n := by
  have htake : (decimal n).takeWhile isDigit = decimal n :=
    List.takeWhile_eq_self_iff.mpr fun b hb => isDigit_of_mem_decimal hb
  rw [number, htake, decimal_eq, List.foldl_map]
  conv_rhs => rw [← Nat.ofDigitChars_ten_toDigits (n := n)]
  rw [Nat.ofDigitChars_eq_foldl]
  refine List.foldl_ext _ _ _ fun m c hc => ?_
  rw [(toNat_digit (Nat.isDigit_of_mem_toDigits (by decide) (by decide) hc)).1]
  rfl

theorem not_isSpace_of_isDigit {b : UInt8} (h : isDigit b = true) : isSpace b = false := by
  simp only [isDigit, Bool.and_eq_true, decide_eq_true_eq, UInt8.le_iff_toNat_le] at h
  have hlow : 48 ≤ b.toNat := h.1
  rw [Bool.eq_false_iff]
  intro hspace
  simp only [isSpace, Bool.or_eq_true, Bool.and_eq_true, beq_iff_eq, decide_eq_true_eq,
    UInt8.le_iff_toNat_le] at hspace
  rcases hspace with rfl | ⟨-, hhigh⟩
  · exact absurd hlow (by decide)
  · exact absurd (hlow.trans hhigh) (by decide)

/-- The padding is skipped and the digits are read. -/
theorem atoi_padded (width n : ℕ) : atoi (padded width n) = n := by
  have hdrop : (padded width n).dropWhile isSpace = decimal n := by
    rw [padded, List.dropWhile_append_of_pos]
    · rcases hd : decimal n with _ | ⟨b, rest⟩
      · rfl
      · have hb : b ∈ decimal n := by simp [hd]
        have hspace := not_isSpace_of_isDigit (isDigit_of_mem_decimal hb)
        rw [List.dropWhile_cons_of_neg (by simp [hspace])]
    · intro b hb
      rw [List.eq_of_mem_replicate hb]
      rfl
  rw [atoi, hdrop]
  rcases hd : decimal n with _ | ⟨b, rest⟩
  · exact absurd hd (decimal_ne_nil n)
  · have hdigit : isDigit b = true := isDigit_of_mem_decimal (n := n) (by simp [hd])
    have hminus : b ≠ 0x2D := by
      rintro rfl
      cases hdigit
    have hplus : b ≠ 0x2B := by
      rintro rfl
      cases hdigit
    change (if b = 0x2D then _ else _) = _
    rw [if_neg hminus, if_neg hplus, ← hd, number_decimal]

theorem length_padded {width n : ℕ} (h : n < 10 ^ width) (hwidth : 0 < width) :
    (padded width n).length = width := by
  have hle := (length_decimal_le_iff hwidth).mpr h
  simp only [padded, List.length_append, List.length_replicate]
  omega

theorem zero_notMem_padded (width n : ℕ) : (0 : UInt8) ∉ padded width n := by
  rw [padded, List.mem_append, not_or]
  constructor
  · intro h
    exact absurd (List.eq_of_mem_replicate h) (by decide)
  · intro h
    cases isDigit_of_mem_decimal h

end BuildYourOwnStuff.CppStd
