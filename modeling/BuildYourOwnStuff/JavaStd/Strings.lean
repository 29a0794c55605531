import Mathlib.Data.List.Basic
import Mathlib.Data.Nat.Notation
import Mathlib.Tactic

/-!
# Java strings

A string is its list of `char`s, which are UTF-16 code units. The methods that take
indices throw when one is out of range.
-/

namespace BuildYourOwnStuff.JavaStd

/-- A `char`. It is a type of its own, as a test over the characters of a text would
otherwise run over all 65536 of them. -/
def JChar := UInt16
  deriving DecidableEq, LE, Repr

namespace JChar

def toNat (c : JChar) : ℕ := UInt16.toNat c

instance (c d : JChar) : Decidable (c ≤ d) := UInt16.decLe c d

theorem le_trans {c d e : JChar} (h : c ≤ d) (h' : d ≤ e) : c ≤ e := UInt16.le_trans h h'

end JChar

abbrev JString := List JChar

/-- The exceptions that the modelled code can raise; `unended` stands for a loop that
has not ended. -/
inductive Exception
  | stringIndexOutOfBounds
  | numberFormat
  | unended
  deriving DecidableEq, Repr

/-- A character literal. -/
def chr (c : Char) : JChar := c.toNat.toUInt16

/-- A string literal. -/
def str (s : String) : JString := s.toList.map chr

def charAt (s : JString) (index : ℕ) : Except Exception JChar :=
  match s[index]? with
  | some c => .ok c
  | none => .error .stringIndexOutOfBounds

def substring (s : JString) (beginIndex endIndex : ℕ) : Except Exception JString :=
  if beginIndex ≤ endIndex ∧ endIndex ≤ s.length then
    .ok ((s.drop beginIndex).take (endIndex - beginIndex))
  else .error .stringIndexOutOfBounds

theorem charAt_of_drop {s t : JString} {c : JChar} {index : ℕ} (h : s.drop index = c :: t) :
    charAt s index = .ok c := by
  rw [charAt, ← List.head?_drop, h, List.head?_cons]

/-- A part of a string is cut out by its bounds. -/
theorem substring_of_drop {s w r : JString} {beginIndex : ℕ} (h : s.drop beginIndex = w ++ r)
    (hle : beginIndex ≤ s.length) : substring s beginIndex (beginIndex + w.length) = .ok w := by
  have hlength := congrArg List.length h
  rw [List.length_drop, List.length_append] at hlength
  rw [substring, if_pos (by omega), h, Nat.add_sub_cancel_left, List.take_left]

end BuildYourOwnStuff.JavaStd
