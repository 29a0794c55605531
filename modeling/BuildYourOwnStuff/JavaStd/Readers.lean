import BuildYourOwnStuff.Foundations.Lines
import BuildYourOwnStuff.JavaStd.Strings

/-!
# Java readers

`BufferedReader.readLine` ends a line at a line feed, at a carriage return or at both
one after the other, and at the end of the input.
-/

namespace BuildYourOwnStuff.JavaStd

open Foundations

/-- The lines that `readLine` returns before it returns `null`. A line feed is left out
if `skipLF` is set, which it is after a carriage return. -/
def readLines (skipLF : Bool) : JString → List JString
  | [] => []
  | c :: input =>
    if c = chr '\n' then
      if skipLF then readLines false input else [] :: readLines false input
    else if c = chr '\r' then [] :: readLines true input
    else
      match readLines false input with
      | [] => [[c]]
      | l :: ls => (c :: l) :: ls

/-- Without carriage returns, only line feeds end a line. -/
theorem readLines_eq_lines {input : JString} (h : chr '\r' ∉ input) :
    readLines false input = lines (chr '\n') input := by
  induction input with
  | nil => rfl
  | cons c input ih =>
    rw [List.mem_cons, not_or] at h
    rw [readLines, lines, if_neg Bool.false_ne_true, if_neg (Ne.symm h.1), ih h.2]
    cases lines (chr '\n') input <;> rfl

end BuildYourOwnStuff.JavaStd
