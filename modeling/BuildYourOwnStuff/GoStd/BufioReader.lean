import BuildYourOwnStuff.GoStd.BufioScanner

/-!
# `bufio.Reader` over a file

A read of the file returns any positive number of bytes, up to what is left of the file and
what there is room for, and nothing at the end. What `ReadSlice` returns depends on the
bytes ahead and on the size of the buffer, and on nothing else.
-/

namespace BuildYourOwnStuff.GoStd

open Foundations

def carriageReturn : UInt8 := 0x0D

def defaultBufSize : ℕ := 4096

/-- The part of the buffer that was not returned yet, what is left of the file, and how many reads
of the file there were. -/
structure Reader where
  window : Bytes
  rest : Bytes
  reads : ℕ
  fits : window.length ≤ defaultBufSize

/-- Why `ReadSlice` ends where it does: there is the delimiter, the buffer is full, or the file is
at its end. -/
inductive Stop
  | delim
  | full
  | eof
  deriving DecidableEq, Repr

namespace Reader

def newReader (content : Bytes) : Reader := ⟨[], content, 0, Nat.zero_le _⟩

/-- The bytes that are still to be returned. -/
def ahead (r : Reader) : Bytes := r.window ++ r.rest

/-- The `k`-th read of the file returns at most so many bytes. -/
def fill (portions : ℕ → ℕ+) (r : Reader) : Reader where
  window := r.window ++ r.rest.take (min (portions r.reads) (defaultBufSize - r.window.length))
  rest := r.rest.drop (min (portions r.reads) (defaultBufSize - r.window.length))
  reads := r.reads + 1
  fits := by
    have := r.fits
    rw [List.length_append, List.length_take]
    omega

theorem ahead_fill (portions : ℕ → ℕ+) (r : Reader) : (r.fill portions).ahead = r.ahead := by
  rw [ahead, ahead, fill, List.append_assoc, List.take_append_drop]

theorem length_rest_fill {portions : ℕ → ℕ+} {r : Reader} (hrest : r.rest ≠ [])
    (hroom : r.window.length < defaultBufSize) :
    (r.fill portions).rest.length < r.rest.length := by
  have hpos := (portions r.reads).pos
  have hlength := List.length_pos_iff.mpr hrest
  rw [fill, List.length_drop]
  omega

/-- The buffer without what is before `window`. -/
def setWindow (r : Reader) (window : Bytes) (h : window.length ≤ defaultBufSize) : Reader :=
  { r with window := window, fits := h }

theorem length_after_le {delim : UInt8} {r : Reader} {before after : Bytes}
    (h : cut delim r.window = some (before, after)) : after.length ≤ defaultBufSize := by
  have hfits := r.fits
  rw [(cut_eq_some_iff.mp h).2, List.length_append, List.length_cons] at hfits
  omega

def readSlice (portions : ℕ → ℕ+) (delim : UInt8) (r : Reader) : Bytes × Stop × Reader :=
  match h : cut delim r.window with
  | some (before, after) => (before ++ [delim], .delim, r.setWindow after (length_after_le h))
  | none =>
    if _ : defaultBufSize ≤ r.window.length then
      (r.window, .full, r.setWindow [] (Nat.zero_le _))
    else if _ : r.rest = [] then
      (r.window, .eof, r.setWindow [] (Nat.zero_le _))
    else readSlice portions delim (r.fill portions)
termination_by r.rest.length
decreasing_by exact length_rest_fill ‹_› (not_le.mp ‹_›)

/-- What `ReadSlice` returns when these bytes are ahead, and the bytes that are ahead then. -/
def slice (delim : UInt8) (text : Bytes) : Bytes × Stop × Bytes :=
  match cut delim (text.take defaultBufSize) with
  | some (before, _) => (before ++ [delim], .delim, text.drop (before.length + 1))
  | none =>
    if defaultBufSize ≤ text.length then
      (text.take defaultBufSize, .full, text.drop defaultBufSize)
    else (text, .eof, [])

theorem slice_of_delim {delim : UInt8} {l : Bytes} (hl : delim ∉ l)
    (hlt : l.length < defaultBufSize) (t : Bytes) :
    slice delim (l ++ delim :: t) = (l ++ [delim], .delim, t) := by
  obtain ⟨k, hk⟩ : ∃ k, defaultBufSize = l.length + (k + 1) :=
    ⟨defaultBufSize - l.length - 1, by omega⟩
  have htake : (l ++ delim :: t).take defaultBufSize = l ++ delim :: t.take k := by
    rw [hk, List.take_length_add_append, List.take_succ_cons]
  have hdrop : (l ++ delim :: t).drop (l.length + 1) = t := by
    rw [List.drop_length_add_append, List.drop_one, List.tail_cons]
  rw [slice, htake, cut_append_sep hl]
  dsimp only
  rw [hdrop]

theorem slice_of_full {delim : UInt8} {text : Bytes}
    (htext : delim ∉ text.take defaultBufSize) (h : defaultBufSize ≤ text.length) :
    slice delim text = (text.take defaultBufSize, .full, text.drop defaultBufSize) := by
  rw [slice, cut_eq_none_iff.mpr htext]
  exact if_pos h

theorem slice_of_eof {delim : UInt8} {text : Bytes} (htext : delim ∉ text)
    (h : text.length < defaultBufSize) : slice delim text = (text, .eof, []) := by
  rw [slice, cut_eq_none_iff.mpr fun hmem => htext (List.mem_of_mem_take hmem)]
  exact if_neg (not_le.mpr h)

/-- However many bytes each read returns, `ReadSlice` returns the same. -/
theorem readSlice_eq (portions : ℕ → ℕ+) (delim : UInt8) (r : Reader) :
    ((r.readSlice portions delim).1, (r.readSlice portions delim).2.1,
      (r.readSlice portions delim).2.2.ahead) = slice delim r.ahead := by
  fun_induction readSlice portions delim r with
  | case1 r before after h =>
    obtain ⟨hbefore, hwindow⟩ := cut_eq_some_iff.mp h
    have hahead : r.ahead = before ++ delim :: (after ++ r.rest) := by
      rw [ahead, hwindow, List.append_assoc, List.cons_append]
    have hfits := r.fits
    rw [hwindow, List.length_append, List.length_cons] at hfits
    rw [hahead, slice_of_delim hbefore (by omega)]
    rfl
  | case2 r h hfull =>
    have htake : r.ahead.take defaultBufSize = r.window :=
      List.take_left' (le_antisymm r.fits hfull)
    have hdrop : r.ahead.drop defaultBufSize = r.rest :=
      List.drop_left' (le_antisymm r.fits hfull)
    have hlength : defaultBufSize ≤ r.ahead.length := by
      rw [ahead, List.length_append]
      omega
    rw [slice_of_full (htake.symm ▸ cut_eq_none_iff.mp h) hlength, htake, hdrop]
    rfl
  | case3 r h hfull hrest =>
    have hahead : r.ahead = r.window := by rw [ahead, hrest, List.append_nil]
    rw [hahead, slice_of_eof (cut_eq_none_iff.mp h) (not_le.mp hfull), ahead, setWindow, hrest]
    rfl
  | case4 r h hfull hrest ih => rw [ih, ahead_fill]

/-- The line, whether it goes on, and `none` at the end of the file. A carriage return at the end
of the buffer is put back, as a newline may follow. -/
def readLine (portions : ℕ → ℕ+) (r : Reader) : Option (Bytes × Bool) × Reader :=
  match r.readSlice portions newline with
  | (line, .full, r) =>
    if line.getLast? = some carriageReturn then
      (some (line.dropLast, true), r.setWindow [carriageReturn] (by decide))
    else (some (line, true), r)
  | (line, .eof, r) => (if line = [] then none else some (line, false), r)
  | (line, .delim, r) => (some (dropCR line.dropLast, false), r)

variable {portions : ℕ → ℕ+} {r : Reader} {l t : Bytes}

/-- Nothing is left in a buffer that was returned as a whole. -/
theorem window_of_full (portions : ℕ → ℕ+) (delim : UInt8) (r : Reader)
    (h : (r.readSlice portions delim).2.1 = .full) :
    (r.readSlice portions delim).2.2.window = [] := by
  fun_induction readSlice portions delim r with
  | case1 r before after hcut => cases h
  | case2 r hcut hfull => rfl
  | case3 r hcut hfull hrest => cases h
  | case4 r hcut hfull hrest ih => exact ih h

theorem readSlice_of_slice (portions : ℕ → ℕ+) {delim : UInt8} {line : Bytes} {stop : Stop}
    (h : slice delim r.ahead = (line, stop, t)) : ∃ r',
      r.readSlice portions delim = (line, stop, r') ∧ r'.ahead = t ∧
        (stop = .full → r'.window = []) := by
  have hslice := (readSlice_eq portions delim r).trans h
  have hwindow := window_of_full portions delim r
  rcases hresult : r.readSlice portions delim with ⟨line', stop', r'⟩
  rw [hresult] at hslice hwindow
  simp only [Prod.mk.injEq] at hslice
  obtain ⟨rfl, rfl, hahead⟩ := hslice
  exact ⟨r', rfl, hahead, hwindow⟩

/-- A line that fits is returned without its end. -/
theorem readLine_of_terminated (portions : ℕ → ℕ+) (hahead : r.ahead = l ++ newline :: t)
    (hl : newline ∉ l) (hlt : l.length < defaultBufSize) :
    ∃ r', r.readLine portions = (some (dropCR l, false), r') ∧ r'.ahead = t := by
  obtain ⟨r', hresult, hahead', -⟩ := readSlice_of_slice portions
    (hahead ▸ slice_of_delim hl hlt t)
  refine ⟨r', ?_, hahead'⟩
  rw [readLine, hresult]
  dsimp only
  rw [List.dropLast_concat]

/-- How much is returned of a line that does not fit: the buffer, but for a carriage return. -/
def chunkSize (text : Bytes) : ℕ :=
  if (text.take defaultBufSize).getLast? = some carriageReturn then defaultBufSize - 1
  else defaultBufSize

theorem chunkSize_pos (text : Bytes) : 0 < chunkSize text := by
  rw [chunkSize]
  split_ifs <;> decide

theorem chunkSize_le (text : Bytes) : chunkSize text ≤ defaultBufSize := by
  rw [chunkSize]
  split_ifs
  · exact Nat.sub_le _ _
  · exact le_rfl

theorem readLine_of_full (portions : ℕ → ℕ+) (hahead : newline ∉ r.ahead.take defaultBufSize)
    (hlength : defaultBufSize ≤ r.ahead.length) :
    ∃ r', r.readLine portions = (some (r.ahead.take (chunkSize r.ahead), true), r') ∧
      r'.ahead = r.ahead.drop (chunkSize r.ahead) := by
  obtain ⟨r', hresult, hahead', hwindow⟩ := readSlice_of_slice portions
    (slice_of_full hahead hlength)
  by_cases hlast : (r.ahead.take defaultBufSize).getLast? = some carriageReturn
  · obtain ⟨line, hline⟩ := List.getLast?_eq_some_iff.mp hlast
    have hrest : r'.rest = r.ahead.drop defaultBufSize := by
      rw [← hahead', ahead, hwindow rfl, List.nil_append]
    have hsplit : r.ahead = line ++ carriageReturn :: r'.rest := by
      rw [hrest, ← List.singleton_append, ← List.append_assoc, ← hline, List.take_append_drop]
    have hsize : chunkSize r.ahead = line.length := by
      have hlineLength := congrArg List.length hline
      rw [List.length_take, min_eq_left hlength, List.length_append, List.length_singleton]
        at hlineLength
      rw [chunkSize, if_pos hlast, hlineLength, Nat.add_sub_cancel]
    refine ⟨r'.setWindow [carriageReturn] (by decide), ?_, ?_⟩
    · rw [readLine, hresult, hsize]
      dsimp only
      rw [if_pos hlast, hline, List.dropLast_concat, hsplit, List.take_left' rfl]
    · rw [hsize, hsplit, List.drop_left' rfl]
      rfl
  · rw [chunkSize, if_neg hlast]
    refine ⟨r', ?_, hahead'⟩
    rw [readLine, hresult]
    exact if_neg hlast

/-- The last line. -/
theorem readLine_of_end (portions : ℕ → ℕ+) (hahead : newline ∉ r.ahead)
    (hlt : r.ahead.length < defaultBufSize) :
    ∃ r', r.readLine portions = (if r.ahead = [] then none else some (r.ahead, false), r') ∧
      r'.ahead = [] := by
  obtain ⟨r', hresult, hahead', -⟩ := readSlice_of_slice portions
    (slice_of_eof hahead hlt)
  refine ⟨r', ?_, hahead'⟩
  rw [readLine, hresult]

/-- What can be ahead: a line that fits, more than fits, or the last line. -/
theorem ahead_cases (text : Bytes) :
    (∃ l t, text = l ++ newline :: t ∧ newline ∉ l ∧ l.length < defaultBufSize) ∨
      newline ∉ text.take defaultBufSize ∧ defaultBufSize ≤ text.length ∨
        newline ∉ text ∧ text.length < defaultBufSize := by
  by_cases hmem : newline ∈ text.take defaultBufSize
  · obtain ⟨l, t, hsplit, hl⟩ := List.eq_append_cons_of_mem hmem
    have hlength := List.length_take_le defaultBufSize text
    rw [hsplit, List.length_append, List.length_cons] at hlength
    refine .inl ⟨l, t ++ text.drop defaultBufSize, ?_, hl, by omega⟩
    rw [← List.cons_append, ← List.append_assoc, ← hsplit, List.take_append_drop]
  · rcases le_or_gt defaultBufSize text.length with hle | hlt
    · exact .inr (.inl ⟨hmem, hle⟩)
    · rw [List.take_of_length_le hlt.le] at hmem
      exact .inr (.inr ⟨hmem, hlt⟩)

theorem fst_readLine_eq_none_iff (portions : ℕ → ℕ+) (r : Reader) :
    (r.readLine portions).1 = none ↔ r.ahead = [] := by
  rcases ahead_cases r.ahead with ⟨l, t, hahead, hl, hlt⟩ | ⟨hahead, hlength⟩ | ⟨hahead, hlt⟩
  · obtain ⟨r', hresult, -⟩ := readLine_of_terminated portions hahead hl hlt
    simp [hresult, hahead]
  · obtain ⟨r', hresult, -⟩ := readLine_of_full portions hahead hlength
    rw [hresult]
    refine iff_of_false nofun fun hnil => ?_
    rw [hnil] at hlength
    exact absurd hlength (by decide)
  · obtain ⟨r', hresult, -⟩ := readLine_of_end portions hahead hlt
    by_cases hnil : r.ahead = [] <;> simp [hresult, hnil]

/-- A call that returns a line takes something of the file. -/
theorem length_ahead_readLine {line : Bytes × Bool} {r' : Reader}
    (h : r.readLine portions = (some line, r')) : r'.ahead.length < r.ahead.length := by
  rcases ahead_cases r.ahead with ⟨l, t, hahead, hl, hlt⟩ | ⟨hahead, hlength⟩ | ⟨hahead, hlt⟩
  · obtain ⟨r'', hresult, hahead'⟩ := readLine_of_terminated portions hahead hl hlt
    rw [h] at hresult
    cases hresult
    rw [hahead', hahead, List.length_append, List.length_cons]
    omega
  · obtain ⟨r'', hresult, hahead'⟩ := readLine_of_full portions hahead hlength
    rw [h] at hresult
    cases hresult
    have := chunkSize_pos r.ahead
    have := chunkSize_le r.ahead
    rw [hahead', List.length_drop]
    omega
  · obtain ⟨r'', hresult, hahead'⟩ := readLine_of_end portions hahead hlt
    rw [h] at hresult
    split_ifs at hresult with hnil
    · cases hresult
    · cases hresult
      rw [hahead']
      exact List.length_pos_iff.mpr hnil

end Reader

end BuildYourOwnStuff.GoStd
