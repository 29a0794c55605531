import BuildYourOwnStuff.JavaStd.Strings

/-!
# Doubles from decimal texts

`Double.parseDouble` on digits with at most one point: the double nearest to the
number written, ties to even.
-/

namespace BuildYourOwnStuff.JavaStd

/-- A `double`, as its bits. -/
structure Double where
  bits : ℕ
  deriving DecidableEq, Repr

def Digit (c : JChar) : Prop := chr '0' ≤ c ∧ c ≤ chr '9'

instance (c : JChar) : Decidable (Digit c) := inferInstanceAs (Decidable (_ ∧ _))

/-- The number that the digits of a text write. -/
def digitsValue (text : JString) : ℕ :=
  (text.filter fun c => Digit c).foldl (fun n c => 10 * n + (c.toNat - (chr '0').toNat)) 0

/-- `n / d` as an integer, ties to even. -/
def roundHalfEven (n d : ℕ) : ℕ :=
  if 2 * (n % d) < d ∨ 2 * (n % d) = d ∧ n / d % 2 = 0 then n / d else n / d + 1

/-- The double nearest to `n / d`. Its bits are those of the exponent above those of the
significand, so a significand that is rounded up to `2 ^ 53` goes to the next exponent;
from the bits of infinity on it is infinity. -/
def nearest (n d : ℕ) : Double :=
  let units := n * 2 ^ 1074
  let exponent := Nat.log2 (units / d) - 52
  ⟨min (exponent * 2 ^ 52 + roundHalfEven units (d * 2 ^ exponent)) (2047 * 2 ^ 52)⟩

/-- Digits with at most one point. -/
def IsDecimal (text : JString) : Prop :=
  (∀ c ∈ text, Digit c ∨ c = chr '.') ∧ text.count (chr '.') ≤ 1 ∧ ∃ c ∈ text, Digit c

instance (text : JString) : Decidable (IsDecimal text) := inferInstanceAs (Decidable (_ ∧ _))

/-- The value of digits with at most one point. -/
def decimal (text : JString) : Double :=
  nearest (digitsValue text) (10 ^ (text.dropWhile fun c => Digit c).tail.length)

/-- Texts with a sign, an exponent, a suffix or white space, of which the method accepts
some, are refused here. -/
def parseDouble (text : JString) : Except Exception Double :=
  if IsDecimal text then .ok (decimal text) else .error .numberFormat

theorem parseDouble_of_isDecimal {text : JString} (h : IsDecimal text) :
    parseDouble text = .ok (decimal text) :=
  if_pos h

-- one tenth is between two doubles
example : parseDouble (str "0.1") = .ok ⟨0x3FB999999999999A⟩ := by decide +kernel

example : parseDouble (str "1") = .ok ⟨0x3FF0000000000000⟩ := by decide +kernel

end BuildYourOwnStuff.JavaStd
