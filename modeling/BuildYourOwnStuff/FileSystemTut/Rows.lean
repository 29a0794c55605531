import BuildYourOwnStuff.GoStd.BufioReader

/-!
# The rows of a file

The program prints a file as it is read, and once more line by line with the number of lines.
It panics at a last line that ends where the buffer does, with no newline after it.
-/

namespace BuildYourOwnStuff.FileSystemTut

open Foundations GoStd

/-- What the first loop prints, where the `k`-th read returns at most so many bytes. -/
def printChunks (portions : ℕ → ℕ+) (reads : ℕ) (rest : Bytes) : Bytes :=
  if _ : rest = [] then []
  else
    let n := min (portions reads : ℕ) 16
    rest.take n ++ printChunks portions (reads + 1) (rest.drop n)
termination_by rest.length
decreasing_by
  have := (portions reads).pos
  have := List.length_pos_iff.mpr ‹_›
  rw [List.length_drop]
  omega

/-- What was printed, and the number of rows that is printed at the end. There is none after a
panic. -/
structure Output where
  printed : Bytes
  rowCount : Option ℕ
  deriving DecidableEq, Repr

/-- The loop `for isPrefix`. There is no reader after a panic. -/
def printRest (portions : ℕ → ℕ+) (isPrefix : Bool) (r : Reader) (printed : Bytes) :
    Bytes × Option Reader :=
  if isPrefix then
    match h : r.readLine portions with
    | (none, _) => (printed, none)
    | (some (line, isPrefix), r') =>
      have := Reader.length_ahead_readLine h
      printRest portions isPrefix r' (printed ++ line)
  else (printed, some r)
termination_by r.ahead.length

theorem length_ahead_printRest {portions : ℕ → ℕ+} {isPrefix : Bool} {r r' : Reader}
    {printed printed' : Bytes} (h : printRest portions isPrefix r printed = (printed', some r')) :
    r'.ahead.length ≤ r.ahead.length := by
  fun_induction printRest portions isPrefix r printed with
  | case1 => cases h
  | case2 r printed line isPrefix r'' hline hlt ih => exact (ih h).trans hlt.le
  | case3 =>
    cases h
    exact le_rfl

/-- The loop over the lines. -/
def printRows (portions : ℕ → ℕ+) (r : Reader) (printed : Bytes) (rowCount : ℕ) : Output :=
  match h : r.readLine portions with
  | (none, _) => ⟨printed, some rowCount⟩
  | (some (line, isPrefix), r') =>
    match h' : printRest portions isPrefix r' (printed ++ line) with
    | (printed, none) => ⟨printed, none⟩
    | (printed, some r'') =>
      have := (length_ahead_printRest h').trans_lt (Reader.length_ahead_readLine h)
      printRows portions r'' (printed ++ [newline]) (rowCount + 1)
termination_by r.ahead.length

/-- A text without newlines is returned in pieces of which the last one fills the buffer. -/
def runsOut (text : Bytes) : Bool :=
  if text.length < defaultBufSize then decide (text = [])
  else runsOut (text.drop (Reader.chunkSize text))
termination_by text.length
decreasing_by
  have := Reader.chunkSize_pos text
  have := Reader.chunkSize_le text
  rw [List.length_drop]
  omega

variable {portions : ℕ → ℕ+} {r : Reader} {l t : Bytes}

theorem runsOut_of_lt (h : l.length < defaultBufSize) : runsOut l = decide (l = []) := by
  rw [runsOut, if_pos h]

theorem runsOut_of_le (h : defaultBufSize ≤ l.length) :
    runsOut l = runsOut (l.drop (Reader.chunkSize l)) := by
  rw [runsOut, if_neg (not_lt.mpr h)]

/-- Without carriage returns, the pieces are as long as the buffer. -/
theorem runsOut_iff_dvd (h : carriageReturn ∉ l) :
    runsOut l = true ↔ defaultBufSize ∣ l.length := by
  induction hn : l.length using Nat.strong_induction_on generalizing l with
  | _ n ih =>
    rcases lt_or_ge n defaultBufSize with hlt | hle
    · rw [runsOut_of_lt (hn ▸ hlt), decide_eq_true_iff]
      refine ⟨?_, fun hdvd => List.length_eq_zero_iff.mp (hn ▸ Nat.eq_zero_of_dvd_of_lt hdvd hlt)⟩
      rintro rfl
      exact hn ▸ dvd_zero _
    · have hchunk : Reader.chunkSize l = defaultBufSize := by
        refine if_neg fun hlast => h ?_
        exact List.mem_of_mem_take (List.mem_of_getLast? hlast)
      have hdrop : (l.drop defaultBufSize).length = n - defaultBufSize := by
        rw [List.length_drop, hn]
      have hpos : 0 < defaultBufSize := by decide
      rw [runsOut_of_le (hn ▸ hle), hchunk,
        ih _ (by omega) (fun hmem => h (List.mem_of_mem_drop hmem)) hdrop]
      exact Nat.dvd_sub_iff_left hle dvd_rfl

/-- A carriage return is dropped at the end of the last piece. -/
theorem append_dropCR {a b : Bytes} (h : b ≠ [] ∨ a.getLast? ≠ some carriageReturn) :
    a ++ dropCR b = dropCR (a ++ b) := by
  by_cases hb : b = []
  · have ha : a.getLast? ≠ some carriageReturn := h.resolve_left (not_not.mpr hb)
    have hsame : dropCR a = a := if_neg ha
    rw [hb, List.append_nil, hsame]
    exact List.append_nil a
  · rw [dropCR, dropCR, List.getLast?_append_of_ne_nil _ hb]
    split_ifs
    · rw [List.dropLast_append_of_ne_nil hb]
    · rfl

/-- The carriage return at the end of a line that is returned in pieces is in the last one. -/
theorem take_append_dropCR (h : defaultBufSize ≤ l.length) :
    l.take (Reader.chunkSize l) ++ dropCR (l.drop (Reader.chunkSize l)) = dropCR l := by
  rw [append_dropCR, List.take_append_drop]
  rw [Reader.chunkSize]
  split_ifs with hlast
  · left
    rw [ne_eq, List.drop_eq_nil_iff, not_le]
    have : defaultBufSize - 1 < defaultBufSize := by decide
    omega
  · exact .inr hlast

theorem printRest_of_some {isPrefix : Bool} {r' : Reader} {line : Bytes}
    (h : r.readLine portions = (some (line, isPrefix), r')) (printed : Bytes) :
    printRest portions true r printed = printRest portions isPrefix r' (printed ++ line) := by
  rw [printRest, if_pos rfl]
  split
  · rename_i hline
    rw [h] at hline
    cases hline
  · rename_i hline
    rw [h] at hline
    cases hline
    rfl

theorem printRest_of_none {r' : Reader} (h : r.readLine portions = (none, r')) (printed : Bytes) :
    printRest portions true r printed = (printed, none) := by
  rw [printRest, if_pos rfl]
  split
  · rfl
  · rename_i hline
    rw [h] at hline
    cases hline

theorem printRest_done (r : Reader) (printed : Bytes) :
    printRest portions false r printed = (printed, some r) := by
  rw [printRest, if_neg Bool.false_ne_true]

/-- The rest of a line that ends. -/
theorem printRest_of_terminated (portions : ℕ → ℕ+) (hl : newline ∉ l)
    (hahead : r.ahead = l ++ newline :: t) (printed : Bytes) : ∃ r', r'.ahead = t ∧
      printRest portions true r printed = (printed ++ dropCR l, some r') := by
  induction hn : l.length using Nat.strong_induction_on generalizing l r printed with
  | _ n ih =>
    rcases lt_or_ge l.length defaultBufSize with hlt | hle
    · obtain ⟨r', hline, hahead'⟩ := Reader.readLine_of_terminated portions hahead hl hlt
      exact ⟨r', hahead', by rw [printRest_of_some hline, printRest_done]⟩
    · have htake : r.ahead.take defaultBufSize = l.take defaultBufSize := by
        rw [hahead, List.take_append_of_le_length hle]
      have hchunk : Reader.chunkSize r.ahead = Reader.chunkSize l := by
        rw [Reader.chunkSize, Reader.chunkSize, htake]
      have hsize := (Reader.chunkSize_le l).trans hle
      have hlength : defaultBufSize ≤ r.ahead.length := by
        rw [hahead, List.length_append]
        omega
      obtain ⟨r₁, hline, hahead₁⟩ := Reader.readLine_of_full portions
        (htake ▸ fun hmem => hl (List.mem_of_mem_take hmem)) hlength
      rw [hchunk, hahead, List.take_append_of_le_length hsize] at hline
      rw [hchunk, hahead, List.drop_append_of_le_length hsize] at hahead₁
      have hpos := Reader.chunkSize_pos l
      obtain ⟨r', hahead', hrest⟩ := ih (l.drop (Reader.chunkSize l)).length
        (by rw [List.length_drop]; omega) (fun hmem => hl (List.mem_of_mem_drop hmem)) hahead₁
        (printed ++ l.take (Reader.chunkSize l)) rfl
      refine ⟨r', hahead', ?_⟩
      rw [printRest_of_some hline, hrest, List.append_assoc, take_append_dropCR hle]

/-- The rest of the last line, if it does not end. -/
theorem printRest_of_end (portions : ℕ → ℕ+) (hl : newline ∉ r.ahead) (printed : Bytes) :
    ∃ r', r'.ahead = [] ∧ printRest portions true r printed =
      (printed ++ r.ahead, if runsOut r.ahead then none else some r') := by
  induction hn : r.ahead.length using Nat.strong_induction_on generalizing r printed with
  | _ n ih =>
    rcases lt_or_ge r.ahead.length defaultBufSize with hlt | hle
    · obtain ⟨r', hline, hahead'⟩ := Reader.readLine_of_end portions hl hlt
      refine ⟨r', hahead', ?_⟩
      rw [runsOut_of_lt hlt]
      by_cases hnil : r.ahead = []
      · rw [if_pos hnil] at hline
        rw [printRest_of_none hline]
        simp [hnil]
      · rw [if_neg hnil] at hline
        rw [printRest_of_some hline, printRest_done]
        simp [hnil]
    · obtain ⟨r₁, hline, hahead₁⟩ := Reader.readLine_of_full portions
        (fun hmem => hl (List.mem_of_mem_take hmem)) hle
      have hpos := Reader.chunkSize_pos r.ahead
      have hsize := Reader.chunkSize_le r.ahead
      obtain ⟨r', hahead', hrest⟩ := ih r₁.ahead.length
        (by rw [hahead₁, List.length_drop]; omega)
        (hahead₁ ▸ fun hmem => hl (List.mem_of_mem_drop hmem))
        (printed ++ r.ahead.take (Reader.chunkSize r.ahead)) rfl
      refine ⟨r', hahead', ?_⟩
      rw [printRest_of_some hline, hrest, hahead₁, ← runsOut_of_le hle, List.append_assoc,
        List.take_append_drop]

/-- A turn of the loop over the lines goes on as the loop `for isPrefix` does. -/
theorem printRows_of_ne_nil (h : r.ahead ≠ []) (printed : Bytes) (rowCount : ℕ) :
    printRows portions r printed rowCount = match printRest portions true r printed with
      | (printed, none) => ⟨printed, none⟩
      | (printed, some r') => printRows portions r' (printed ++ [newline]) (rowCount + 1) := by
  rcases hline : r.readLine portions with ⟨_ | ⟨line, isPrefix⟩, r'⟩
  · have hnone : (r.readLine portions).1 = none := by rw [hline]
    exact absurd ((Reader.fst_readLine_eq_none_iff portions r).mp hnone) h
  · rw [printRest_of_some hline, printRows]
    split
    · rename_i hnone
      rw [hline] at hnone
      cases hnone
    · rename_i hsome
      rw [hline] at hsome
      cases hsome
      split
      · rename_i hrest
        rw [hrest]
      · rename_i hrest
        dsimp only
        rw [hrest]

theorem printRows_of_nil (h : r.ahead = []) (printed : Bytes) (rowCount : ℕ) :
    printRows portions r printed rowCount = ⟨printed, some rowCount⟩ := by
  have hnone := (Reader.fst_readLine_eq_none_iff portions r).mpr h
  rw [printRows]
  split
  · rfl
  · rename_i hsome
    rw [hsome] at hnone
    cases hnone

/-- The lines that end. -/
theorem printRows_of_terminated (portions : ℕ → ℕ+) {ls : List Bytes} {rest : Bytes}
    (hls : ∀ l ∈ ls, newline ∉ l) (hahead : r.ahead = ls.flatMap (fun l => l ++ [newline]) ++ rest)
    (printed : Bytes) (rowCount : ℕ) : ∃ r', r'.ahead = rest ∧
      printRows portions r printed rowCount =
        printRows portions r' (printed ++ ls.flatMap fun l => dropCR l ++ [newline])
          (rowCount + ls.length) := by
  induction ls generalizing r printed rowCount with
  | nil => exact ⟨r, hahead, by simp⟩
  | cons l ls ih =>
    rw [List.forall_mem_cons] at hls
    rw [List.flatMap_cons, List.append_assoc, List.append_assoc, List.singleton_append] at hahead
    have hne : r.ahead ≠ [] := by
      rw [hahead]
      simp
    obtain ⟨r₁, hahead₁, hrest⟩ := printRest_of_terminated portions hls.1 hahead printed
    obtain ⟨r', hahead', hrows⟩ := ih hls.2 hahead₁ (printed ++ dropCR l ++ [newline])
      (rowCount + 1)
    refine ⟨r', hahead', ?_⟩
    rw [printRows_of_ne_nil hne, hrest]
    dsimp only
    rw [hrows, List.flatMap_cons, List.length_cons, List.append_assoc, List.append_assoc,
      List.append_assoc, Nat.add_assoc, Nat.add_comm 1]

theorem printChunks_eq (portions : ℕ → ℕ+) (reads : ℕ) (rest : Bytes) :
    printChunks portions reads rest = rest := by
  fun_induction printChunks portions reads rest with
  | case1 => rfl
  | case2 reads rest hne n ih => rw [ih, List.take_append_drop]

/-- The first loop prints the file. The second one prints its lines and counts them, however much
each read returns, but panics if the last line runs out: if it has no carriage return, that is if
the buffer is filled by the last piece of it. -/
theorem rows_exact (content : Bytes) :
    ∃ (ls : List Bytes) (rest : Bytes), (∀ l ∈ ls, newline ∉ l) ∧ newline ∉ rest ∧
      content = ls.flatMap (fun l => l ++ [newline]) ++ rest ∧
      (carriageReturn ∉ rest → (runsOut rest = true ↔ defaultBufSize ∣ rest.length)) ∧
      ∀ portions, printChunks portions 0 content = content ∧
        printRows portions (Reader.newReader content) [] 0 =
          let printed := ls.flatMap fun l => dropCR l ++ [newline]
          if rest = [] then ⟨printed, some ls.length⟩
          else if runsOut rest then ⟨printed ++ rest, none⟩
          else ⟨printed ++ rest ++ [newline], some (ls.length + 1)⟩ := by
  obtain ⟨ls, rest, hls, hrest, hcontent, -⟩ := exists_terminated newline content
  refine ⟨ls, rest, hls, hrest, hcontent, runsOut_iff_dvd, fun portions =>
    ⟨printChunks_eq portions 0 content, ?_⟩⟩
  obtain ⟨r, hahead, hrows⟩ := printRows_of_terminated portions
    (r := Reader.newReader content) hls hcontent [] 0
  rw [hrows, List.nil_append, Nat.zero_add]
  dsimp only
  split_ifs with hnil hout
  · exact printRows_of_nil (hahead.trans hnil) _ _
  · obtain ⟨r', -, hend⟩ := printRest_of_end portions (hahead ▸ hrest)
      (ls.flatMap fun l => dropCR l ++ [newline])
    rw [printRows_of_ne_nil (hahead ▸ hnil), hend, hahead, if_pos hout]
  · obtain ⟨r', hahead', hend⟩ := printRest_of_end portions (hahead ▸ hrest)
      (ls.flatMap fun l => dropCR l ++ [newline])
    rw [printRows_of_ne_nil (hahead ▸ hnil), hend, hahead, if_neg hout]
    exact printRows_of_nil hahead' _ _

end BuildYourOwnStuff.FileSystemTut
