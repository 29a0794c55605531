import BuildYourOwnStuff.GoStd.JsonScanner

/-!
# String literals of `encoding/json`

`appendString` writes a string as a literal and `unquote` reads one. A literal is
a sequence of pieces, each standing for one rune: the rune itself, a backslash
and a letter, or a `\u` escape. What is written is read back, except that an
invalid byte is read as a replacement character.
-/

namespace BuildYourOwnStuff.GoStd.Json

open Foundations Utf8

def hexDigit (n : ℕ) : UInt8 := if n < 10 then UInt8.ofNat (0x30 + n) else UInt8.ofNat (0x57 + n)

/-- `htmlSafeSet`, for bytes of ASCII. -/
def htmlSafe (b : UInt8) : Bool :=
  decide (0x20 ≤ b.toNat) && b != quote && b != backslash &&
    b != byte '<' && b != byte '>' && b != byte '&'

/-- A backslash and a letter for a control character. -/
def shortEscape (b : UInt8) : Option UInt8 :=
  if b = 0x08 then some (byte 'b')
  else if b = 0x0C then some (byte 'f')
  else if b = 0x0A then some (byte 'n')
  else if b = 0x0D then some (byte 'r')
  else if b = 0x09 then some (byte 't')
  else none

def quoteAscii (b : UInt8) : Bytes :=
  if htmlSafe b then [b]
  else if b = backslash ∨ b = quote then [backslash, b]
  else
    match shortEscape b with
    | some e => [backslash, e]
    | none => backslash :: ascii "u00" ++ [hexDigit (b.toNat / 16), hexDigit (b.toNat % 16)]

/-- One round of the loop of `appendString`, with the escapes for HTML. -/
def quoteRune (d : Decoded) : Bytes :=
  if d.rune < 0x80 then quoteAscii (UInt8.ofNat d.rune)
  else if d.invalid then backslash :: ascii "ufffd"
  else if d.rune = 0x2028 ∨ d.rune = 0x2029 then
    backslash :: ascii "u202" ++ [hexDigit (d.rune % 16)]
  else d.bytes

/-- What stands between the quotes. -/
def literal (s : Bytes) : Bytes := (runes s).flatMap quoteRune

def appendString (s : Bytes) : Bytes := quote :: literal s ++ [quote]

def hexValue (c : UInt8) : Option ℕ :=
  if isDigit c then some (c.toNat - 0x30)
  else if byte 'a' ≤ c ∧ c ≤ byte 'f' then some (c.toNat - 0x57)
  else if byte 'A' ≤ c ∧ c ≤ byte 'F' then some (c.toNat - 0x37)
  else none

/-- The code unit of a `\u` escape at the start of the text. -/
def getu4 : Bytes → Option ℕ
  | b :: u :: c1 :: c2 :: c3 :: c4 :: _ =>
    if b = backslash ∧ u = byte 'u' then do
      let d1 ← hexValue c1
      let d2 ← hexValue c2
      let d3 ← hexValue c3
      let d4 ← hexValue c4
      return ((d1 * 16 + d2) * 16 + d3) * 16 + d4
    else none
  | _ => none

/-- `utf16.DecodeRune`, for a second code unit that may be missing. -/
def decodeSurrogates (r1 : ℕ) : Option ℕ → Option ℕ
  | none => none
  | some r2 =>
    if (0xD800 ≤ r1 ∧ r1 < 0xDC00) ∧ (0xDC00 ≤ r2 ∧ r2 < 0xE000) then
      some ((r1 - 0xD800) * 1024 + (r2 - 0xDC00) + 0x10000)
    else none

def unescape (e : UInt8) : Option UInt8 :=
  if e = quote ∨ e = backslash ∨ e = byte '/' ∨ e = 0x27 then some e
  else if e = byte 'b' then some 0x08
  else if e = byte 'f' then some 0x0C
  else if e = byte 'n' then some 0x0A
  else if e = byte 'r' then some 0x0D
  else if e = byte 't' then some 0x09
  else none

/-- An escape: what it stands for, and the text after it. -/
def unquoteEscape (text : Bytes) : Option (Bytes × Bytes) :=
  match text with
  | _ :: e :: rest =>
    if e = byte 'u' then
      match getu4 text with
      | none => none
      | some r1 =>
        if isSurrogate r1 then
          match decodeSurrogates r1 (getu4 (rest.drop 4)) with
          | some r => some (encodeRune r, rest.drop 10)
          | none => some (encodeRune runeError, rest.drop 4)
        else some (encodeRune r1, rest.drop 4)
    else (unescape e).map fun b => ([b], rest)
  | _ => none

/-- One round of the loop of `unquote` at the byte `c`. -/
def unquoteNext (c : UInt8) (s : Bytes) : Option (Bytes × Bytes) :=
  if c = backslash then unquoteEscape (c :: s)
  else if c = quote ∨ c < 0x20 then none
  else
    -- a byte of ASCII decodes to itself
    let (r, width) := decodeRune (c :: s)
    some (encodeRune r, (c :: s).drop width)

def unquoteAux : ℕ → Bytes → Option Bytes
  | _, [] => some []
  | 0, _ :: _ => none
  | fuel + 1, c :: s => do
    let (written, rest) ← unquoteNext c s
    let tail ← unquoteAux fuel rest
    return written ++ tail

/-- The string that a literal stands for; `unquote` of what stands between the quotes. -/
def unquote (text : Bytes) : Option Bytes := unquoteAux text.length text

/-- Four hexadecimal digits. -/
def hexDigits (n : ℕ) : Bytes :=
  [hexDigit (n / 4096), hexDigit (n / 256 % 16), hexDigit (n / 16 % 16), hexDigit (n % 16)]

/-- A piece of a literal and the rune it stands for. -/
inductive Piece : Bytes → ℕ → Prop
  | plain {r : ℕ} (scalar : IsScalar r) (printable : 0x20 ≤ r) (not_quote : r ≠ quote.toNat)
      (not_backslash : r ≠ backslash.toNat) : Piece (encodeRune r) r
  | short {e b : UInt8} (letter : e ∈ ascii "bfnrt/" ∨ e = quote ∨ e = backslash)
      (meaning : unescape e = some b) (low : b.toNat < 0x80) : Piece [backslash, e] b.toNat
  | hex {r : ℕ} (unit : r < 0x10000) (scalar : isSurrogate r = false) :
      Piece (backslash :: byte 'u' :: hexDigits r) r

section HexDigits

theorem hexDigit_facts : ∀ n < 16, isHexDigit (hexDigit n) = true ∧
    hexValue (hexDigit n) = some n ∧ 0x20 ≤ (hexDigit n).toNat := by decide

theorem getu4_hexDigits {r : ℕ} (h : r < 0x10000) (rest : Bytes) :
    getu4 (backslash :: byte 'u' :: hexDigits r ++ rest) = some r := by
  have h1 := (hexDigit_facts (r / 4096) (by omega)).2.1
  have h2 := (hexDigit_facts (r / 256 % 16) (by omega)).2.1
  have h3 := (hexDigit_facts (r / 16 % 16) (by omega)).2.1
  have h4 := (hexDigit_facts (r % 16) (by omega)).2.1
  have hsum : ((r / 4096 * 16 + r / 256 % 16) * 16 + r / 16 % 16) * 16 + r % 16 = r := by omega
  simp only [hexDigits, List.cons_append, List.nil_append, getu4, and_self, if_true, h1, h2, h3, h4]
  exact congrArg some hsum

end HexDigits

theorem Piece.ne_nil {q : Bytes} {r : ℕ} (h : Piece q r) : q ≠ [] := by
  cases h with
  | plain => exact encodeRune_ne_nil _
  | short => exact List.cons_ne_nil _ _
  | hex => exact List.cons_ne_nil _ _

/-- A plain byte is printable and ends neither the literal nor the plain text. -/
theorem plain_of_mem_encodeRune {r : ℕ} (printable : 0x20 ≤ r) (not_quote : r ≠ quote.toNat)
    (not_backslash : r ≠ backslash.toNat) {b : UInt8} (h : b ∈ encodeRune r) :
    0x20 ≤ b.toNat ∧ b ≠ quote ∧ b ≠ backslash := by
  rcases toNat_of_mem_encodeRune h with ⟨hlt, rfl⟩ | ⟨-, hb⟩
  · have hr : (UInt8.ofNat r).toNat = r := toNat_ofNat_of_lt (by omega)
    refine ⟨by omega, fun heq => not_quote ?_, fun heq => not_backslash ?_⟩
    · rw [← heq, hr]
    · rw [← heq, hr]
  · refine ⟨by omega, ?_, ?_⟩ <;> rintro rfl <;> exact absurd hb (by decide)

theorem escapable_facts {e : UInt8} (h : e ∈ ascii "bfnrt/" ∨ e = quote ∨ e = backslash) :
    0x20 ≤ e.toNat ∧ e ≠ byte 'u' := by
  rcases h with h | rfl | rfl
  · have hletters : ascii "bfnrt/" = [0x62, 0x66, 0x6E, 0x72, 0x74, 0x2F] := rfl
    rw [hletters] at h
    simp only [List.mem_cons, List.not_mem_nil, or_false] at h
    rcases h with rfl | rfl | rfl | rfl | rfl | rfl <;> decide
  · decide
  · decide

theorem printable_of_mem_hexDigits {r : ℕ} (h : r < 0x10000) {b : UInt8} (hb : b ∈ hexDigits r) :
    isHexDigit b = true ∧ 0x20 ≤ b.toNat := by
  have hdigit : ∀ n < 16, isHexDigit (hexDigit n) = true ∧ 0x20 ≤ (hexDigit n).toNat :=
    fun n hn => ⟨(hexDigit_facts n hn).1, (hexDigit_facts n hn).2.2⟩
  simp only [hexDigits, List.mem_cons, List.not_mem_nil, or_false] at hb
  rcases hb with rfl | rfl | rfl | rfl <;> exact hdigit _ (by omega)

/-- A literal has no control character. -/
theorem Piece.printable {q : Bytes} {r : ℕ} (h : Piece q r) : ∀ b ∈ q, 0x20 ≤ b.toNat := by
  cases h with
  | plain scalar printable not_quote not_backslash =>
    intro b hb
    exact (plain_of_mem_encodeRune printable not_quote not_backslash hb).1
  | short letter meaning low =>
    intro b hb
    simp only [List.mem_cons, List.not_mem_nil, or_false] at hb
    rcases hb with rfl | rfl
    · decide
    · exact (escapable_facts letter).1
  | hex unit scalar =>
    intro b hb
    rcases List.mem_cons.mp hb with rfl | hb
    · decide
    · rcases List.mem_cons.mp hb with rfl | hb
      · decide
      · exact (printable_of_mem_hexDigits unit hb).2

section Scanning

open Scanner

variable {read : Bytes} {frames : List Frame}

theorem run_plain {q : Bytes}
    (h : ∀ b ∈ q, 0x20 ≤ b.toNat ∧ b ≠ quote ∧ b ≠ backslash) :
    run ⟨.inString read, frames⟩ q = some ⟨.inString (read ++ q), frames⟩ := by
  induction q generalizing read with
  | nil => rw [List.append_nil]; rfl
  | cons b q ih =>
    rw [List.forall_mem_cons] at h
    obtain ⟨⟨hprint, hquote, hback⟩, hrest⟩ := h
    have hlow : ¬ b < 0x20 := by
      rw [UInt8.lt_iff_toNat_lt]
      exact Nat.not_lt.mpr hprint
    have hstep : step ⟨.inString read, frames⟩ b = some ⟨.inString (read ++ [b]), frames⟩ := by
      simp only [step, if_neg hquote, if_neg hback, if_neg hlow]
    rw [run_cons, hstep, Option.bind_some, ih hrest, List.append_assoc]
    rfl

theorem run_escU {b1 b2 b3 b4 : UInt8} (h1 : isHexDigit b1 = true)
    (h2 : isHexDigit b2 = true) (h3 : isHexDigit b3 = true) (h4 : isHexDigit b4 = true) :
    Scanner.run ⟨.inString read, frames⟩ [backslash, byte 'u', b1, b2, b3, b4] =
      some ⟨.inString (read ++ [backslash, byte 'u', b1, b2, b3, b4]), frames⟩ := by
  have hback : step ⟨.inString read, frames⟩ backslash =
      some ⟨.inStringEsc (read ++ [backslash]), frames⟩ := rfl
  have hu : step ⟨.inStringEsc (read ++ [backslash]), frames⟩ (byte 'u') =
      some ⟨.inStringEscU 4 (read ++ [backslash] ++ [byte 'u']), frames⟩ := rfl
  rw [run_cons, hback, Option.bind_some, run_cons, hu, Option.bind_some]
  simp [run_cons, step, h1, h2, h3, h4]
  rfl

/-- The scanner reads a piece as a part of the string. -/
theorem Piece.run {q : Bytes} {r : ℕ} (h : Piece q r) :
    Scanner.run ⟨.inString read, frames⟩ q = some ⟨.inString (read ++ q), frames⟩ := by
  cases h with
  | plain scalar printable not_quote not_backslash =>
    exact run_plain fun b hb => plain_of_mem_encodeRune printable not_quote not_backslash hb
  | @short e _ letter meaning low =>
    have hback : step ⟨.inString read, frames⟩ backslash =
        some ⟨.inStringEsc (read ++ [backslash]), frames⟩ := rfl
    have hletter : step ⟨.inStringEsc (read ++ [backslash]), frames⟩ e =
        some ⟨.inString (read ++ [backslash] ++ [e]), frames⟩ := by
      simp only [step, if_neg (escapable_facts letter).2, if_pos letter]
    rw [run_cons, hback, Option.bind_some, run_cons, hletter, List.append_assoc]
    rfl
  | hex unit scalar =>
    have hdigit := fun n (hn : n < 16) => (hexDigit_facts n hn).1
    exact run_escU (hdigit _ (by omega)) (hdigit _ (by omega)) (hdigit _ (by omega))
      (hdigit _ (by omega))

end Scanning

/-- The scanner reads a literal as the text of a string. -/
theorem run_pieces {ds : List Decoded} (h : ∀ d ∈ ds, Piece (quoteRune d) d.rune) (read : Bytes)
    (frames : List Frame) : Scanner.run ⟨.inString read, frames⟩ (ds.flatMap quoteRune) =
      some ⟨.inString (read ++ ds.flatMap quoteRune), frames⟩ := by
  induction ds generalizing read with
  | nil => simp [Scanner.run]
  | cons d ds ih =>
    rw [List.forall_mem_cons] at h
    rw [List.flatMap_cons, Scanner.run_append, h.1.run, Option.bind_some, ih h.2,
      List.append_assoc]

/-- `unquote` reads a piece as the encoding of its rune. -/
theorem Piece.unquoteNext {c : UInt8} {q : Bytes} {r : ℕ} (h : Piece (c :: q) r) (rest : Bytes) :
    Json.unquoteNext c (q ++ rest) = some (encodeRune r, rest) := by
  generalize hcq : c :: q = cq at h
  cases h with
  | plain scalar printable not_quote not_backslash =>
    have hdecode := decodeRune_encodeRune scalar rest
    have hmem : c ∈ encodeRune r := by rw [← hcq]; exact List.mem_cons_self
    obtain ⟨hprint, hquote, hback⟩ :=
      plain_of_mem_encodeRune printable not_quote not_backslash hmem
    have hlow : ¬ (c = quote ∨ c < 0x20) := by
      rw [UInt8.lt_iff_toNat_lt, not_or]
      exact ⟨hquote, Nat.not_lt.mpr hprint⟩
    rw [Json.unquoteNext, if_neg hback, if_neg hlow, ← List.cons_append, hcq, hdecode]
    dsimp only
    rw [List.drop_left]
  | @short e b letter meaning low =>
    cases hcq
    have hencode : encodeRune b.toNat = [b] := by
      rw [encodeRune, if_pos low, UInt8.ofNat_toNat]
    rw [Json.unquoteNext, if_pos rfl, List.singleton_append, unquoteEscape,
      if_neg (escapable_facts letter).2, meaning, hencode]
    rfl
  | hex unit scalar =>
    cases hcq
    have hget := getu4_hexDigits unit rest
    have hrest : (hexDigits r ++ rest).drop 4 = rest := List.drop_left' rfl
    rw [List.cons_append, List.cons_append] at hget
    rw [Json.unquoteNext, if_pos rfl, List.cons_append, unquoteEscape, if_pos rfl, hget]
    dsimp only
    rw [if_neg (by simp [scalar]), hrest]

theorem piece_quoteAscii {b : UInt8} (h : b.toNat < 0x80) : Piece (quoteAscii b) b.toNat := by
  have hscalar : IsScalar b.toNat := .inl (by omega)
  unfold quoteAscii
  by_cases hsafe : htmlSafe b = true
  · have hplain : 0x20 ≤ b.toNat ∧ b ≠ quote ∧ b ≠ backslash := by
      simp only [htmlSafe, Bool.and_eq_true, bne_iff_ne, decide_eq_true_eq] at hsafe
      exact ⟨hsafe.1.1.1.1.1, hsafe.1.1.1.1.2, hsafe.1.1.1.2⟩
    have hencode : [b] = encodeRune b.toNat := by
      rw [encodeRune, if_pos h, UInt8.ofNat_toNat]
    rw [if_pos hsafe, hencode]
    exact .plain hscalar hplain.1 (mt UInt8.toNat_inj.mp hplain.2.1)
      (mt UInt8.toNat_inj.mp hplain.2.2)
  · rw [if_neg hsafe]
    split_ifs with hspecial
    · rcases hspecial with rfl | rfl
      · exact .short (.inr (.inr rfl)) rfl h
      · exact .short (.inr (.inl rfl)) rfl h
    · cases hshort : shortEscape b with
      | some e =>
        have hmeaning : e ∈ ascii "bfnrt/" ∧ unescape e = some b := by
          unfold shortEscape at hshort
          split_ifs at hshort with h1 h2 h3 h4 h5 <;> cases hshort <;> subst b <;>
            exact ⟨by decide, rfl⟩
        exact .short (.inl hmeaning.1) hmeaning.2 h
      | none =>
        have hdigits : backslash :: ascii "u00" ++
            [hexDigit (b.toNat / 16), hexDigit (b.toNat % 16)] =
              backslash :: byte 'u' :: hexDigits b.toNat := by
          rw [hexDigits, show b.toNat / 4096 = 0 by omega, show b.toNat / 256 % 16 = 0 by omega,
            show b.toNat / 16 % 16 = b.toNat / 16 by omega]
          rfl
        dsimp only
        rw [hdigits]
        exact .hex (by omega) (isSurrogate_of_isScalar hscalar)

/-- Each round of `appendString` writes a piece that stands for the rune. -/
theorem piece_quoteRune {d : Decoded} (h : d.Sound) : Piece (quoteRune d) d.rune := by
  unfold quoteRune
  rcases h with ⟨hscalar, hbytes⟩ | ⟨hrune, b, hb, hhigh⟩
  · have hsurrogate := isSurrogate_of_isScalar hscalar
    by_cases hascii : d.rune < 0x80
    · have hnat : (UInt8.ofNat d.rune).toNat = d.rune := toNat_ofNat_of_lt (by omega)
      have hpiece : Piece (quoteAscii (UInt8.ofNat d.rune)) (UInt8.ofNat d.rune).toNat :=
        piece_quoteAscii (by omega)
      rw [if_pos hascii]
      rwa [hnat] at hpiece
    · have hvalid : d.invalid = false := by
        rw [Decoded.invalid, hbytes, encodeRune, if_neg hascii]
        split_ifs <;> simp
      rw [if_neg hascii, if_neg (by simp [hvalid])]
      split_ifs with hseparator
      · have hdigits : backslash :: ascii "u202" ++ [hexDigit (d.rune % 16)] =
            backslash :: byte 'u' :: hexDigits d.rune := by
          rcases hseparator with heq | heq <;> rw [heq] <;> decide
        rw [hdigits]
        exact .hex (by omega) hsurrogate
      · have hquote : quote.toNat < 0x80 := by decide
        have hback : backslash.toNat < 0x80 := by decide
        rw [hbytes]
        exact .plain hscalar (by omega) (by omega) (by omega)
  · have hinvalid : d.invalid = true := by simp [Decoded.invalid, hrune, hb]
    have hdigits : backslash :: ascii "ufffd" = backslash :: byte 'u' :: hexDigits runeError := by
      decide
    rw [if_neg (by rw [hrune]; decide), if_pos hinvalid, hrune, hdigits]
    exact .hex (by decide) (by decide)

theorem piece_of_mem_runes {s : Bytes} : ∀ d ∈ runes s, Piece (quoteRune d) d.rune :=
  fun _ hd => piece_quoteRune (sound_of_mem_runes hd)

theorem unquoteAux_pieces {ds : List Decoded} (h : ∀ d ∈ ds, Piece (quoteRune d) d.rune)
    {fuel : ℕ} (hfuel : (ds.flatMap quoteRune).length ≤ fuel) :
    unquoteAux fuel (ds.flatMap quoteRune) = some (ds.flatMap fun d => encodeRune d.rune) := by
  induction ds generalizing fuel with
  | nil => cases fuel <;> rfl
  | cons d ds ih =>
    rw [List.forall_mem_cons] at h
    obtain ⟨hpiece, hrest⟩ := h
    rw [List.flatMap_cons, List.length_append] at hfuel
    rw [List.flatMap_cons]
    generalize hq : quoteRune d = q at hpiece hfuel
    rcases q with _ | ⟨c, q⟩
    · exact absurd rfl hpiece.ne_nil
    · rcases fuel with _ | fuel
      · simp at hfuel
      · have hnext := hpiece.unquoteNext (ds.flatMap quoteRune)
        have hlen : (ds.flatMap quoteRune).length ≤ fuel := by
          rw [List.length_cons] at hfuel
          omega
        have htail := ih hrest hlen
        rw [List.cons_append, unquoteAux, hnext]
        simp only [htail, bind, Option.bind, pure, List.flatMap_cons]

/-- A literal is read back as the string it was written for, with replacement
characters for invalid bytes. -/
theorem unquote_literal (s : Bytes) : unquote (literal s) = some (coerce s) :=
  unquoteAux_pieces piece_of_mem_runes le_rfl

theorem run_literal (s : Bytes) (frames : List Frame) :
    Scanner.run ⟨.inString [], frames⟩ (literal s) = some ⟨.inString (literal s), frames⟩ := by
  have hrun := run_pieces (piece_of_mem_runes (s := s)) [] frames
  rwa [List.nil_append] at hrun

/-- A literal has no control character, in particular no newline. -/
theorem printable_literal (s : Bytes) : ∀ b ∈ literal s, 0x20 ≤ b.toNat := by
  intro b hb
  obtain ⟨d, hd, hbd⟩ := List.mem_flatMap.mp hb
  exact (piece_of_mem_runes d hd).printable b hbd

theorem length_bytes_le {d : Decoded} (h : d.Sound) : d.bytes.length ≤ (quoteRune d).length := by
  have hpos : 0 < (quoteRune d).length := List.length_pos_of_ne_nil (piece_quoteRune h).ne_nil
  rcases h with ⟨-, hbytes⟩ | ⟨-, b, hb, -⟩
  · by_cases hascii : d.rune < 0x80
    · have hlen : d.bytes.length = 1 := by rw [hbytes, encodeRune, if_pos hascii]; rfl
      omega
    · unfold quoteRune
      rw [if_neg hascii]
      split_ifs with hinvalid hseparator
      · simp only [Decoded.invalid, Bool.and_eq_true, beq_iff_eq] at hinvalid
        rw [hinvalid.2]
        decide
      · have hlen : d.bytes.length = 3 := by
          rw [hbytes]
          rcases hseparator with heq | heq <;> rw [heq] <;> decide
        rw [hlen]
        simp [ascii]
      · exact le_rfl
  · rw [hb]
    exact hpos

/-- A literal is at least as long as the string. -/
theorem length_le_length_literal (s : Bytes) : s.length ≤ (literal s).length := by
  have hsound : ∀ d ∈ runes s, d.bytes.length ≤ (quoteRune d).length :=
    fun d hd => length_bytes_le (sound_of_mem_runes hd)
  rw [literal, List.length_flatMap]
  conv_lhs => rw [← flatMap_bytes_runes s, List.length_flatMap]
  exact List.sum_le_sum (by simpa using hsound)

end BuildYourOwnStuff.GoStd.Json
