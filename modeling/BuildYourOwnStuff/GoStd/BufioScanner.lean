import BuildYourOwnStuff.Foundations.Buffers
import BuildYourOwnStuff.Foundations.Lines

/-!
# `bufio.Scanner` over lines

The scanner yields the lines of its input in order and stops with an error at
the first line that does not fit into its buffer, which has to hold the newline
or, at the end of the input, one free byte as well.
-/

namespace BuildYourOwnStuff.GoStd

open Foundations

def newline : UInt8 := 0x0A

def maxScanTokenSize : ℕ := 64 * 1024

def dropCR (line : Bytes) : Bytes :=
  if line.getLast? = some 0x0D then line.dropLast else line

/-- Handle the lines one after another; `none` is the error `ErrTooLong`. -/
def scanLines {σ : Type*} (handle : σ → Bytes → σ) : List Bytes → σ → Option σ
  | [], s => some s
  | line :: rest, s =>
    if line.length < maxScanTokenSize then scanLines handle rest (handle s (dropCR line))
    else none

/-- The loop `for scanner.Scan()` over an input, whose body handles one token. -/
def scan {σ : Type*} (handle : σ → Bytes → σ) (input : Bytes) (s : σ) : Option σ :=
  scanLines handle (lines newline input) s

theorem dropCR_isPrefix (line : Bytes) : dropCR line <+: line := by
  unfold dropCR
  split_ifs
  · exact List.dropLast_prefix line
  · exact List.prefix_rfl

theorem dropCR_of_getLast? {line : Bytes} {b : UInt8} (h : line.getLast? = some b)
    (hb : b ≠ 0x0D) : dropCR line = line := by
  rw [dropCR, h, if_neg (by simpa using hb)]

section Scan

variable {σ : Type*} {handle : σ → Bytes → σ}

/-- Terminated lines that fit are handled before what follows them. -/
theorem scanLines_append {ls : List Bytes} (h : ∀ l ∈ ls, l.length < maxScanTokenSize)
    (rest : List Bytes) (s : σ) : scanLines handle (ls ++ rest) s =
      scanLines handle rest (ls.foldl (fun s l => handle s (dropCR l)) s) := by
  induction ls generalizing s with
  | nil => rfl
  | cons l ls ih =>
    rw [List.forall_mem_cons] at h
    rw [List.cons_append, scanLines, if_pos h.1, ih h.2]
    rfl

/-- A line that does not fit is an error, whatever comes before and after it. -/
theorem scanLines_eq_none {ls : List Bytes} {l : Bytes} (hl : l ∈ ls)
    (h : maxScanTokenSize ≤ l.length) (s : σ) : scanLines handle ls s = none := by
  induction ls generalizing s with
  | nil => cases hl
  | cons l' ls ih =>
    rw [scanLines]
    split_ifs with hfit
    · rcases List.mem_cons.mp hl with rfl | hl
      · omega
      · exact ih hl _
    · rfl

end Scan

end BuildYourOwnStuff.GoStd
