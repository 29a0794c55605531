import BuildYourOwnStuff.Streams.AngryReader

/-!
# Reading in pieces

A rune that is cut by the end of a read is decoded together with what happens to be
behind it in the buffer, or taken for invalid bytes. So the output is independent of
the buffering exactly for the streams in which no beginning of a letter is changed.
-/

namespace BuildYourOwnStuff.Streams

open Foundations GoStd Utf8

namespace AngryReader

variable (u : Unicode)

/-- Two runs end with the same bytes at the end of the stream, or both with the error
about the width of a rune. -/
def SameEnd : Bytes × ReadError → Bytes × ReadError → Prop
  | (out, .eof), (out', .eof) => out = out'
  | (_, .runeWidth _ _), (_, .runeWidth _ _) => True
  | _, _ => False

/-- No read panics, and all runs end as one call for the whole stream does, which puts
every letter into upper case unless it returns the error. -/
def BufferingIrrelevant (stream : Bytes) : Prop :=
  ∃ whole, readWhole u stream = .ok whole ∧ (whole.2 = .eof → whole.1 = shouted u stream) ∧
    ∀ calls, Delivers stream calls → ∃ run, drain u calls = .ok run ∧ SameEnd run whole

/-- A letter of which the text has a beginning keeps its width in upper case and, unless
it is one byte, that beginning. -/
def Steady (text : Bytes) : Prop :=
  ∀ r, IsScalar r → u.isLetter r = true → ∀ p, p ≠ [] → p <+: encodeRune r → p <:+: text →
    (encodeRune (u.toUpper r)).length = (encodeRune r).length ∧
      (r < 0x80 ∨ p <+: encodeRune (u.toUpper r))

/-- The upper case of a letter that is one byte, and any other byte. -/
def upperByte (b : UInt8) : UInt8 :=
  if b.toNat < 0x80 ∧ u.isLetter b.toNat = true then (encodeRune (u.toUpper b.toNat)).headD b
  else b

variable {u} {r : ℕ} {text : Bytes}

theorem Steady.of_infix {part : Bytes} (h : Steady u text) (hpart : part <:+: text) :
    Steady u part :=
  fun r hr hletter p hne hp hmem => h r hr hletter p hne hp (hmem.trans hpart)

theorem upperByte_of_le {b : UInt8} (h : 0x80 ≤ b.toNat) : upperByte u b = b :=
  if_neg fun hb => absurd hb.1 (by omega)

/-- Runes that are not letters, and those of several bytes, are left alone. -/
theorem map_upperByte_encodeRune (h : u.isLetter r = false ∨ 0x80 ≤ r) (m : ℕ) :
    ((encodeRune r).take m).map (upperByte u) = (encodeRune r).take m := by
  refine (List.map_congr_left fun b hb => ?_).trans (List.map_id _)
  rcases toNat_of_mem_encodeRune (List.mem_of_mem_take hb) with ⟨hlt, rfl⟩ | ⟨-, hle⟩
  · have hletter : u.isLetter r = false := h.resolve_right (by omega)
    rw [upperByte, toNat_ofNat_of_lt (by omega), hletter]
    simp
  · exact upperByte_of_le hle

/-- A letter in a steady text, or a beginning of it at the end of the text. -/
theorem Steady.letter (h : Steady u text) (hr : IsScalar r) (hletter : u.isLetter r = true)
    {m : ℕ} (hm : 0 < m) (hmem : (encodeRune r).take m <:+: text) :
    (encodeRune (u.toUpper r)).length = (encodeRune r).length ∧
      (encodeRune (u.toUpper r)).take m = ((encodeRune r).take m).map (upperByte u) := by
  have hne : (encodeRune r).take m ≠ [] := by
    rw [ne_eq, List.take_eq_nil_iff, not_or]
    exact ⟨by omega, encodeRune_ne_nil r⟩
  obtain ⟨hwidth, hbegin⟩ := h r hr hletter _ hne (List.take_prefix _ _) hmem
  refine ⟨hwidth, ?_⟩
  by_cases hascii : r < 0x80
  · have hone : encodeRune r = [UInt8.ofNat r] := if_pos hascii
    have htake : ∀ x : UInt8, [x].take m = [x] := fun x => List.take_of_length_le hm
    rw [hone, List.length_singleton] at hwidth
    obtain ⟨x, hx⟩ := List.length_eq_one_iff.mp hwidth
    rw [hone, hx, htake, htake, List.map_singleton, upperByte, toNat_ofNat_of_lt (by omega), hx,
      if_pos ⟨hascii, hletter⟩]
    rfl
  · have hprefix := hbegin.resolve_left hascii
    have hlength : ((encodeRune r).take m).length = ((encodeRune (u.toUpper r)).take m).length := by
      rw [List.length_take, List.length_take, hwidth]
    rw [map_upperByte_encodeRune (.inr (by omega)),
      List.prefix_iff_eq_take.mp hprefix, hlength, List.length_take, ← List.take_take,
      List.take_length]

/-- A call with a buffer of one byte. -/
def byteCall (b : UInt8) : Call := ⟨[b], [], false, List.cons_ne_nil _ _⟩

theorem flatMap_chunk_byteCall (text : Bytes) : (text.map byteCall).flatMap Call.chunk = text := by
  rw [List.flatMap_map]
  exact List.flatMap_singleton' text

theorem eof_of_mem_map_byteCall {text : Bytes} {c : Call} (h : c ∈ text.map byteCall) :
    c.eof = false := by
  obtain ⟨b, -, rfl⟩ := List.mem_map.mp h
  rfl

theorem delivers_of_not_eof {stream : Bytes} {calls : List Call}
    (hchunks : calls.flatMap Call.chunk = stream) (h : ∀ c ∈ calls, c.eof = false) :
    Delivers stream calls :=
  ⟨hchunks, fun c hc => h c (List.mem_of_mem_dropLast hc)⟩

/-- Some bytes in one call, those before and after them one by one. -/
theorem delivers_around (before after : Bytes) {p q : Bytes} (hcall : p ++ q ≠ []) :
    Delivers (before ++ p ++ after)
      (before.map byteCall ++ ⟨p, q, false, hcall⟩ :: after.map byteCall) := by
  refine delivers_of_not_eof ?_ fun c hc => ?_
  · rw [List.flatMap_append, List.flatMap_cons, flatMap_chunk_byteCall, flatMap_chunk_byteCall,
      List.append_assoc]
  · rw [List.mem_append, List.mem_cons] at hc
    rcases hc with hc | rfl | hc
    · exact eof_of_mem_map_byteCall hc
    · rfl
    · exact eof_of_mem_map_byteCall hc

/-- A beginning of a letter that is read while the rest of the letter is behind it in the
buffer. -/
theorem read_letter (hr : IsScalar r) (hletter : u.isLetter r = true) {p q : Bytes} (hne : p ≠ [])
    (hsplit : p ++ q = encodeRune r) {result : ReadResult} (h : read u p q none = .ok result)
    (herr : ∀ got want, result.err ≠ some (.runeWidth got want)) :
    (encodeRune (u.toUpper r)).length = (encodeRune r).length ∧
      result.bytes = (encodeRune (u.toUpper r)).take p.length ∧ result.err = none := by
  obtain ⟨turns, hturns⟩ := Nat.exists_eq_succ_of_ne_zero (List.length_pos_of_ne_nil hne).ne'
  have hlength : p.length ≤ (encodeRune r).length := by
    rw [← hsplit, List.length_append]
    exact Nat.le_add_right _ _
  have hdecode := decodeRune_encodeRune hr []
  rw [List.append_nil] at hdecode
  obtain ⟨⟨b, e⟩, hloop, hresult⟩ := bind_eq_ok.mp h
  cases hresult
  rw [hsplit, hturns, loop, if_pos (Nat.succ_pos _), List.drop_zero, hdecode] at hloop
  simp only [hletter, if_true] at hloop
  obtain ⟨⟨b', wu⟩, hencode, hloop⟩ := bind_eq_ok.mp hloop
  obtain ⟨hfit, rfl, rfl⟩ := encodeAt_eq_ok.mp hencode
  have hupper := overwrite_append [] (encodeRune r) (encodeRune (u.toUpper r)) hfit
  dsimp only at hloop
  split_ifs at hloop with hwidth
  · cases hloop
    exact absurd rfl (herr _ _)
  · rw [not_not] at hwidth
    rw [hwidth, List.drop_length, List.append_nil, List.nil_append, List.length_nil,
      List.nil_append] at hupper
    rw [loop_done (by omega)] at hloop
    cases hloop
    exact ⟨hwidth, by rw [ReadResult.bytes, hupper], rfl⟩

section NotLetter

variable (hrune : u.isLetter runeError = false)

include hrune

/-- A turn of the loop at a place of a steady text puts as many bytes there as it takes. -/
theorem loop_turn_of_steady (turns : ℕ) (pre : Bytes) {rest : Bytes} {m : ℕ} (hm : 0 < m)
    (hlength : m ≤ rest.length) (h : Steady u (rest.take m)) :
    ∃ old new t, rest = old ++ t ∧ old ≠ [] ∧ new.length = old.length ∧
      new.take m = (old.take m).map (upperByte u) ∧
      loop u (turns + 1) (pre ++ rest) pre.length (pre.length + m) =
        loop u turns (pre ++ new ++ t) (pre ++ new).length (pre.length + m) := by
  obtain ⟨c, tl, rfl⟩ := List.exists_cons_of_length_pos (by omega : 0 < rest.length)
  have hi : pre.length < pre.length + m := by omega
  have hdrop : (pre ++ c :: tl).drop pre.length = c :: tl := List.drop_left
  rcases decodeRune_cases c tl with hinvalid | ⟨r, t, hr, hsplit, hdecode⟩
  · refine ⟨[c], [c], tl, rfl, by simp, rfl, ?_, ?_⟩
    · rw [List.take_of_length_le (by exact hm), List.map_singleton,
        upperByte_of_le (le_of_decodeRune_invalid hinvalid)]
    · rw [loop, if_pos hi, hdrop, hinvalid]
      simp [hrune]
  · rw [hsplit] at h hdrop ⊢
    rw [hsplit] at hdecode
    cases hletter : u.isLetter r with
    | false =>
      refine ⟨encodeRune r, encodeRune r, t, rfl, encodeRune_ne_nil r, rfl,
        (map_upperByte_encodeRune (.inl hletter) m).symm, ?_⟩
      rw [loop, if_pos hi, hdrop, hdecode]
      simp [hletter]
    | true =>
      have hmem : (encodeRune r).take m <:+: (encodeRune r ++ t).take m := by
        rw [List.take_append]
        exact (List.prefix_append _ _).isInfix
      obtain ⟨hwidth, htake⟩ := h.letter hr hletter hm hmem
      have hencode : encodeAt (pre ++ (encodeRune r ++ t)) pre.length (u.toUpper r) =
          .ok (pre ++ encodeRune (u.toUpper r) ++ t, (encodeRune r).length) := by
        have hfit : (encodeRune (u.toUpper r)).length ≤ (encodeRune r ++ t).length := by
          rw [hwidth, List.length_append]
          exact Nat.le_add_right _ _
        refine encodeAt_eq_ok.mpr ⟨by rw [List.length_append]; omega, ?_, hwidth.symm⟩
        rw [overwrite_append _ _ _ hfit, hwidth, List.drop_left]
      refine ⟨encodeRune r, encodeRune (u.toUpper r), t, rfl, encodeRune_ne_nil r, hwidth, htake,
        ?_⟩
      rw [loop, if_pos hi, hdrop, hdecode]
      simp only [hletter, if_true, hencode, bind, Except.bind]
      rw [List.length_append, hwidth]
      exact if_neg (by simp)

/-- The loop leaves the text that was read with its one-byte letters in upper case. -/
theorem loop_of_steady (turns : ℕ) (pre : Bytes) {rest : Bytes} {m : ℕ} (hturns : m ≤ turns)
    (hlength : m ≤ rest.length) (h : Steady u (rest.take m)) :
    ∃ rest', loop u turns (pre ++ rest) pre.length (pre.length + m) = .ok (pre ++ rest', none) ∧
      rest'.take m = (rest.take m).map (upperByte u) := by
  induction turns generalizing pre rest m with
  | zero =>
    obtain rfl : m = 0 := by omega
    exact ⟨rest, rfl, rfl⟩
  | succ turns ih =>
    rcases Nat.eq_zero_or_pos m with rfl | hm
    · exact ⟨rest, loop_done (by omega) _ _, rfl⟩
    obtain ⟨old, new, t, rfl, hne, hnew, htake, hloop⟩ :=
      loop_turn_of_steady hrune turns pre hm hlength h
    have hpos := List.length_pos_of_ne_nil hne
    rw [List.length_append] at hlength
    rcases le_total m old.length with hle | hle
    · -- the rune reaches the end of what was read
      refine ⟨new ++ t, ?_, ?_⟩
      · rw [hloop, loop_done (by rw [List.length_append]; omega), List.append_assoc]
      · rw [List.take_append_of_le_length (by omega), List.take_append_of_le_length hle, htake]
    · have hsteady : Steady u (t.take (m - old.length)) := by
        apply h.of_infix
        rw [List.take_append]
        exact (List.suffix_append _ _).isInfix
      obtain ⟨t', hrest, htake'⟩ := ih (pre ++ new) (by omega) (by omega) hsteady
      refine ⟨new ++ t', ?_, ?_⟩
      · have hplace : pre.length + m = (pre ++ new).length + (m - old.length) := by
          rw [List.length_append]
          omega
        rw [hloop, hplace, hrest, List.append_assoc]
      · rw [List.take_append, List.take_append, List.map_append, htake, hnew, htake']

/-- A read of a steady chunk. -/
theorem read_of_steady {chunk : Bytes} (h : Steady u chunk) (rest : Bytes)
    (err : Option ReadError) : ∃ result, read u chunk rest err = .ok result ∧
      result.bytes = chunk.map (upperByte u) ∧ result.err = err := by
  have htake : (chunk ++ rest).take chunk.length = chunk := List.take_left
  have hlength : chunk.length ≤ (chunk ++ rest).length := by
    rw [List.length_append]
    exact Nat.le_add_right _ _
  have hsteady : Steady u ((chunk ++ rest).take chunk.length) := by rwa [htake]
  obtain ⟨rest', hloop, hbytes⟩ :=
    loop_of_steady hrune chunk.length [] le_rfl hlength hsteady
  rw [List.nil_append, List.nil_append, List.length_nil, Nat.zero_add] at hloop
  refine ⟨⟨rest', chunk.length, err⟩, ?_, ?_, rfl⟩
  · simp only [read, hloop, bind, Except.bind]
    rfl
  · rw [ReadResult.bytes, hbytes, htake]

/-- The runs on a steady stream. -/
theorem drain_of_steady {calls : List Call} (h : ∀ c ∈ calls, Steady u c.chunk)
    (heof : ∀ c ∈ calls.dropLast, c.eof = false) :
    drain u calls = .ok ((calls.flatMap Call.chunk).map (upperByte u), .eof) := by
  induction calls with
  | nil => rfl
  | cons c calls ih =>
    rw [List.forall_mem_cons] at h
    obtain ⟨result, hread, hbytes, herr⟩ :=
      read_of_steady hrune h.1 c.rest (if c.eof then some .eof else none)
    cases hc : c.eof with
    | true =>
      -- the other reader has returned everything
      obtain rfl : calls = [] := by
        by_contra hne
        have hcalls := heof c (by simp [List.dropLast_cons_of_ne_nil hne])
        simp [hc] at hcalls
      rw [hc] at herr
      rw [drain_cons_of_some hread herr, hbytes]
      simp
    | false =>
      have hcalls : ∀ x ∈ calls.dropLast, x.eof = false := by
        intro x hx
        have hne : calls ≠ [] := by
          rintro rfl
          exact absurd hx List.not_mem_nil
        apply heof
        rw [List.dropLast_cons_of_ne_nil hne]
        exact List.mem_cons_of_mem c hx
      rw [hc] at herr
      rw [(drain_cons_of_none hread herr).mpr ⟨_, ih h.2 hcalls, rfl⟩, hbytes]
      simp

/-- The letters of a steady text in upper case. -/
theorem shouted_of_steady {stream : Bytes} (h : Steady u stream) :
    shouted u stream = stream.map (upperByte u) := by
  have hrunes : ∀ d ∈ runes stream,
      (if u.isLetter d.rune then encodeRune (u.toUpper d.rune) else d.bytes) =
        d.bytes.map (upperByte u) := by
    intro d hd
    have hmem : d.bytes <:+: stream := by
      obtain ⟨before, after, hsplit⟩ := List.append_of_mem hd
      rw [← flatMap_bytes_runes stream, hsplit, List.flatMap_append, List.flatMap_cons]
      exact List.infix_append' _ _ _
    rcases sound_of_mem_runes hd with ⟨hr, hbytes⟩ | ⟨hr, b, hbytes, hhigh⟩
    · rw [hbytes] at hmem ⊢
      have htake : (encodeRune d.rune).take (encodeRune d.rune).length = encodeRune d.rune :=
        List.take_length
      cases hletter : u.isLetter d.rune with
      | false =>
        have hmap := map_upperByte_encodeRune (.inl hletter) (encodeRune d.rune).length
        rw [htake] at hmap
        exact hmap.symm
      | true =>
        have hpos := List.length_pos_of_ne_nil (encodeRune_ne_nil d.rune)
        obtain ⟨hwidth, hupper⟩ := h.letter hr hletter hpos (by rwa [htake])
        rw [htake, ← hwidth, List.take_length] at hupper
        exact hupper
    · rw [hr, hrune, hbytes, List.map_singleton, upperByte_of_le hhigh]
      rfl
  calc shouted u stream
      = (runes stream).flatMap fun d => d.bytes.map (upperByte u) := List.flatMap_congr hrunes
    _ = ((runes stream).flatMap Decoded.bytes).map (upperByte u) := List.map_flatMap.symm
    _ = stream.map (upperByte u) := by rw [flatMap_bytes_runes]

/-- The output is independent of the buffering for a steady stream. -/
theorem bufferingIrrelevant_of_steady {stream : Bytes} (h : Steady u stream) :
    BufferingIrrelevant u stream := by
  obtain ⟨result, hread, hbytes, herr⟩ := read_of_steady hrune h [] none
  refine ⟨(stream.map (upperByte u), .eof), ?_, fun _ => (shouted_of_steady hrune h).symm, ?_⟩
  · simp [readWhole, hread, hbytes, herr, bind, Except.bind, pure, Except.pure]
  · intro calls hcalls
    have hchunks : ∀ c ∈ calls, Steady u c.chunk := by
      intro c hc
      apply h.of_infix
      obtain ⟨before, after, rfl⟩ := List.append_of_mem hc
      rw [← hcalls.chunks, List.flatMap_append, List.flatMap_cons]
      exact List.infix_append' _ _ _
    refine ⟨_, drain_of_steady hrune hchunks hcalls.eof_last, ?_⟩
    rw [hcalls.chunks]
    rfl

/-- A byte that is read alone is changed only if it is a letter. -/
theorem read_byteCall {b : UInt8} {result : ReadResult} (h : (byteCall b).read u = .ok result) :
    result.bytes = [upperByte u b] ∧ result.err = none := by
  obtain ⟨⟨b', e⟩, hloop, hresult⟩ := bind_eq_ok.mp h
  cases hresult
  change loop u 1 [b] 0 1 = _ at hloop
  rw [loop, if_pos Nat.one_pos, List.drop_zero] at hloop
  rcases decodeRune_singleton b with ⟨hb, hdecode⟩ | ⟨hb, hdecode⟩ <;> rw [hdecode] at hloop
  · cases hletter : u.isLetter b.toNat with
    | false =>
      simp only [hletter] at hloop
      cases hloop
      exact ⟨by rw [upperByte, hletter]; simp [ReadResult.bytes, byteCall], rfl⟩
    | true =>
      simp only [hletter, if_true] at hloop
      obtain ⟨⟨b'', wu⟩, hencode, hloop⟩ := bind_eq_ok.mp hloop
      obtain ⟨hfit, rfl, rfl⟩ := encodeAt_eq_ok.mp hencode
      -- only one byte fits into the buffer
      have hpos := List.length_pos_of_ne_nil (encodeRune_ne_nil (u.toUpper b.toNat))
      obtain ⟨x, hx⟩ := List.length_eq_one_iff.mp (le_antisymm hfit hpos)
      have hupper : upperByte u b = x := by
        rw [upperByte, if_pos ⟨hb, hletter⟩, hx]
        rfl
      rw [hx] at hloop
      cases hloop
      exact ⟨by rw [hupper]; rfl, rfl⟩
  · simp only [hrune] at hloop
    cases hloop
    exact ⟨by rw [upperByte_of_le hb]; rfl, rfl⟩

/-- What is left of a run after some bytes that were read one by one. -/
theorem drain_byteCalls {text : Bytes} {calls : List Call} {run : Bytes × ReadError}
    (h : drain u (text.map byteCall ++ calls) = .ok run) :
    ∃ run', drain u calls = .ok run' ∧ run = (text.map (upperByte u) ++ run'.1, run'.2) := by
  induction text generalizing run with
  | nil => exact ⟨run, h, rfl⟩
  | cons b text ih =>
    rw [List.map_cons, List.cons_append] at h
    obtain ⟨result, hread, -⟩ := bind_eq_ok.mp h
    obtain ⟨hbytes, herr⟩ := read_byteCall hrune hread
    obtain ⟨run', hdrain, rfl⟩ := (drain_cons_of_none hread herr).mp h
    obtain ⟨last, hlast, rfl⟩ := ih hdrain
    refine ⟨last, hlast, ?_⟩
    rw [hbytes, List.map_cons]
    simp

theorem drain_map_byteCall {text : Bytes} {run : Bytes × ReadError}
    (h : drain u (text.map byteCall) = .ok run) : run = (text.map (upperByte u), .eof) := by
  rw [← List.append_nil (text.map byteCall)] at h
  obtain ⟨last, hlast, rfl⟩ := drain_byteCalls hrune h
  cases hlast
  rw [List.append_nil]

/-- If no run depends on the buffering, all end as the one that reads byte by byte. -/
theorem whole_eq_of_runs {stream : Bytes} {whole : Bytes × ReadError}
    (h : ∀ calls, Delivers stream calls → ∃ run, drain u calls = .ok run ∧ SameEnd run whole) :
    whole = (stream.map (upperByte u), .eof) := by
  obtain ⟨run, hrun, hend⟩ := h _
    (delivers_of_not_eof (flatMap_chunk_byteCall stream) fun _ => eof_of_mem_map_byteCall)
  cases drain_map_byteCall hrune hrun
  obtain ⟨out, e⟩ := whole
  cases e with
  | eof => rw [← show _ = out from hend]
  | runeWidth got want => exact hend.elim

/-- A run that reads one call between bytes, and ends as the one that reads byte by byte. -/
theorem read_of_drain {before p q after : Bytes} {hcall : p ++ q ≠ []} {run : Bytes × ReadError}
    (h : drain u (before.map byteCall ++ ⟨p, q, false, hcall⟩ :: after.map byteCall) = .ok run)
    (hend : SameEnd run ((before ++ p ++ after).map (upperByte u), .eof)) :
    ∃ result, read u p q none = .ok result ∧
      (∀ got want, result.err ≠ some (.runeWidth got want)) ∧
        (result.err = none → result.bytes = p.map (upperByte u)) := by
  obtain ⟨run, hrun, rfl⟩ := drain_byteCalls hrune h
  obtain ⟨result, hread, -⟩ := bind_eq_ok.mp hrun
  refine ⟨result, hread, fun got want herr => ?_, fun herr => ?_⟩
  · rw [drain_cons_of_some hread herr] at hrun
    cases hrun
    exact hend
  · obtain ⟨last, hlast, rfl⟩ := (drain_cons_of_none hread herr).mp hrun
    cases drain_map_byteCall hrune hlast
    have hout : before.map (upperByte u) ++ (result.bytes ++ after.map (upperByte u)) =
        (before ++ p ++ after).map (upperByte u) := hend
    rw [List.map_append, List.map_append, List.append_assoc] at hout
    exact List.append_cancel_right (List.append_cancel_left hout)

/-- What independence of the buffering says about the stream. -/
theorem BufferingIrrelevant.steady {stream : Bytes} (h : BufferingIrrelevant u stream) :
    Steady u stream := by
  obtain ⟨whole, -, -, hruns⟩ := h
  have hwhole := whole_eq_of_runs hrune hruns
  rintro r hr hletter p hne ⟨q, hsplit⟩ ⟨before, after, rfl⟩
  -- the beginning of the letter with the rest of it behind, the other bytes one by one
  have hcall : p ++ q ≠ [] := by
    rw [hsplit]
    exact encodeRune_ne_nil r
  obtain ⟨run, hrun, hend⟩ := hruns _ (delivers_around before after hcall)
  rw [hwhole] at hend
  obtain ⟨result, hread, herr, hbytes⟩ := read_of_drain hrune hrun hend
  obtain ⟨hwidth, hupper, hnone⟩ := read_letter hr hletter hne hsplit hread herr
  refine ⟨hwidth, or_iff_not_imp_left.mpr fun hascii => ?_⟩
  have hp : p = (encodeRune r).take p.length := by rw [← hsplit, List.take_left]
  have hsame := map_upperByte_encodeRune (u := u) (.inr (not_lt.mp hascii)) p.length
  rw [← hp] at hsame
  rw [List.prefix_iff_eq_take, ← hupper, hbytes hnone, hsame]

/-- The output is independent of the buffering exactly for the streams in which every letter
of which a beginning occurs keeps its width in upper case and, unless it is one byte, that
beginning. -/
theorem bufferingIrrelevant_iff (stream : Bytes) :
    BufferingIrrelevant u stream ↔ Steady u stream :=
  ⟨fun h => h.steady hrune, fun h => bufferingIrrelevant_of_steady hrune h⟩

end NotLetter

/-- Some letters: those of ASCII and Latin-1, and U+0250, of which the upper case U+2C6F is
longer. -/
def latin : Unicode where
  isLetter r := decide (0x41 ≤ r ∧ r ≤ 0x5A ∨ 0x61 ≤ r ∧ r ≤ 0x7A ∨ r = 0xAA ∨ r = 0xB5 ∨
    r = 0xBA ∨ 0xC0 ≤ r ∧ r ≤ 0xFF ∧ r ≠ 0xD7 ∧ r ≠ 0xF7 ∨ r = 0x250 ∨ r = 0x2C6F)
  toUpper r :=
    if 0x61 ≤ r ∧ r ≤ 0x7A ∨ 0xE0 ≤ r ∧ r ≤ 0xFE ∧ r ≠ 0xF7 then r - 0x20
    else if r = 0xB5 then 0x39C
    else if r = 0xFF then 0x178
    else if r = 0x250 then 0x2C6F
    else r

theorem bufferingIrrelevant_iff_go :
    latin.isLetter runeError = false ∧
      (BufferingIrrelevant latin (ascii "Go") ↔ Steady latin (ascii "Go")) :=
  ⟨rfl, bufferingIrrelevant_iff rfl _⟩

/-- "é" is put into upper case only if its two bytes are read together, and a buffer of two
bytes has no room for the upper case of "ɐ". -/
theorem split_letter_not_upper :
    ¬BufferingIrrelevant latin [0xC3, 0xA9] ∧
      readWhole latin [0xC3, 0xA9] = .ok ([0xC3, 0x89], .eof) ∧
      drain latin [byteCall 0xC3, byteCall 0xA9] = .ok ([0xC3, 0xA9], .eof) ∧
      readWhole latin [0xC9, 0x90] = .error .panic := by
  have hwhole : readWhole latin [0xC3, 0xA9] = .ok ([0xC3, 0x89], .eof) := rfl
  have hsplit : drain latin [byteCall 0xC3, byteCall 0xA9] = .ok ([0xC3, 0xA9], .eof) := rfl
  refine ⟨?_, hwhole, hsplit, rfl⟩
  rintro ⟨whole, hread, -, hruns⟩
  obtain ⟨run, hrun, hend⟩ := hruns [byteCall 0xC3, byteCall 0xA9] ⟨rfl, by simp [byteCall]⟩
  cases hwhole.symm.trans hread
  cases hsplit.symm.trans hrun
  have hsame : ([0xC3, 0xA9] : Bytes) = [0xC3, 0x89] := hend
  exact absurd hsame (by decide)

end AngryReader

end BuildYourOwnStuff.Streams
