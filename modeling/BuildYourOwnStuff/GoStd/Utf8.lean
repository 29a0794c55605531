import BuildYourOwnStuff.Foundations.Buffers

/-!
# Go strings as UTF-8

`decodeRune` and `encodeRune` are those of `unicode/utf8`. A byte that does not
begin the encoding of a Unicode scalar value decodes to `runeError` with width
one; a string is valid when it has no such byte.
-/

namespace BuildYourOwnStuff.GoStd

open Foundations

/-- The bytes of an ASCII literal. -/
def ascii (s : String) : Bytes := s.toList.map fun c => UInt8.ofNat c.toNat

namespace Utf8

def runeError : ℕ := 0xFFFD

def isSurrogate (r : ℕ) : Bool := decide (0xD800 ≤ r ∧ r < 0xE000)

/-- A Unicode scalar value. -/
def IsScalar (r : ℕ) : Prop := r < 0xD800 ∨ 0xE000 ≤ r ∧ r ≤ 0x10FFFF

def encodeRune (r : ℕ) : Bytes :=
  if r < 0x80 then [UInt8.ofNat r]
  else if r < 0x800 then [UInt8.ofNat (0xC0 + r / 64), UInt8.ofNat (0x80 + r % 64)]
  else if 0x10FFFF < r ∨ isSurrogate r then [0xEF, 0xBF, 0xBD]
  else if r < 0x10000 then
    [UInt8.ofNat (0xE0 + r / 4096), UInt8.ofNat (0x80 + r / 64 % 64), UInt8.ofNat (0x80 + r % 64)]
  else
    [UInt8.ofNat (0xF0 + r / 262144), UInt8.ofNat (0x80 + r / 4096 % 64),
      UInt8.ofNat (0x80 + r / 64 % 64), UInt8.ofNat (0x80 + r % 64)]

/-- A byte that continues a sequence. -/
def IsContinuation (b : UInt8) : Prop := 0x80 ≤ b.toNat ∧ b.toNat ≤ 0xBF

instance (b : UInt8) : Decidable (IsContinuation b) := inferInstanceAs (Decidable (_ ∧ _))

/-- The range of the second byte after the first byte of a longer sequence. -/
def acceptRange (first : ℕ) : ℕ × ℕ :=
  if first = 0xE0 then (0xA0, 0xBF)
  else if first = 0xED then (0x80, 0x9F)
  else if first = 0xF0 then (0x90, 0xBF)
  else if first = 0xF4 then (0x80, 0x8F)
  else (0x80, 0xBF)

/-- The second byte may follow the first. -/
def Accepts (first second : UInt8) : Prop :=
  (acceptRange first.toNat).1 ≤ second.toNat ∧ second.toNat ≤ (acceptRange first.toNat).2

instance (first second : UInt8) : Decidable (Accepts first second) :=
  inferInstanceAs (Decidable (_ ∧ _))

/-- The first rune of a string and the width of its encoding. -/
def decodeRune : Bytes → ℕ × ℕ
  | [] => (runeError, 0)
  | b0 :: s =>
    if b0.toNat < 0x80 then (b0.toNat, 1)
    else if b0.toNat < 0xC2 then (runeError, 1)
    else if b0.toNat < 0xE0 then
      match s with
      | b1 :: _ =>
        if Accepts b0 b1 then (b0.toNat % 32 * 64 + b1.toNat % 64, 2) else (runeError, 1)
      | _ => (runeError, 1)
    else if b0.toNat < 0xF0 then
      match s with
      | b1 :: b2 :: _ =>
        if Accepts b0 b1 ∧ IsContinuation b2 then
          (b0.toNat % 16 * 4096 + b1.toNat % 64 * 64 + b2.toNat % 64, 3)
        else (runeError, 1)
      | _ => (runeError, 1)
    else if b0.toNat < 0xF5 then
      match s with
      | b1 :: b2 :: b3 :: _ =>
        if Accepts b0 b1 ∧ IsContinuation b2 ∧ IsContinuation b3 then
          (b0.toNat % 8 * 262144 + b1.toNat % 64 * 4096 + b2.toNat % 64 * 64 + b3.toNat % 64, 4)
        else (runeError, 1)
      | _ => (runeError, 1)
    else (runeError, 1)

theorem isSurrogate_of_isScalar {r : ℕ} (h : IsScalar r) : isSurrogate r = false := by
  rcases h with h | h <;> simp [isSurrogate] <;> omega

theorem encodeRune_ne_nil (r : ℕ) : encodeRune r ≠ [] := by
  unfold encodeRune
  split_ifs <;> simp

theorem toNat_ofNat_of_lt {n : ℕ} (h : n < 256) : (UInt8.ofNat n).toNat = n :=
  UInt8.toNat_ofNat_of_lt' h

theorem accepts_iff {b0 b1 : UInt8} : Accepts b0 b1 ↔ IsContinuation b1 ∧
    (b0.toNat = 0xE0 → 0xA0 ≤ b1.toNat) ∧ (b0.toNat = 0xED → b1.toNat ≤ 0x9F) ∧
    (b0.toNat = 0xF0 → 0x90 ≤ b1.toNat) ∧ (b0.toNat = 0xF4 → b1.toNat ≤ 0x8F) := by
  unfold Accepts acceptRange IsContinuation
  split_ifs <;> omega

section Widths

variable {r : ℕ} (t : Bytes)

theorem decodeRune_one (h : r < 0x80) : decodeRune (UInt8.ofNat r :: t) = (r, 1) := by
  have h0 := toNat_ofNat_of_lt (show r < 256 by omega)
  simp only [decodeRune, h0, if_pos h]

theorem decodeRune_two (hlo : 0x80 ≤ r) (hhi : r < 0x800) :
    decodeRune (UInt8.ofNat (0xC0 + r / 64) :: UInt8.ofNat (0x80 + r % 64) :: t) = (r, 2) := by
  have h0 := toNat_ofNat_of_lt (show 0xC0 + r / 64 < 256 by omega)
  have h1 := toNat_ofNat_of_lt (show 0x80 + r % 64 < 256 by omega)
  have hacc : Accepts (UInt8.ofNat (0xC0 + r / 64)) (UInt8.ofNat (0x80 + r % 64)) := by
    rw [accepts_iff, IsContinuation, h0, h1]
    omega
  simp only [decodeRune, h0, h1]
  rw [if_neg (by omega), if_neg (by omega), if_pos (by omega), if_pos hacc]
  congr 1
  omega

theorem decodeRune_three (hlo : 0x800 ≤ r) (hhi : r < 0x10000) (h : IsScalar r) :
    decodeRune (UInt8.ofNat (0xE0 + r / 4096) :: UInt8.ofNat (0x80 + r / 64 % 64) ::
      UInt8.ofNat (0x80 + r % 64) :: t) = (r, 3) := by
  have h0 := toNat_ofNat_of_lt (show 0xE0 + r / 4096 < 256 by omega)
  have h1 := toNat_ofNat_of_lt (show 0x80 + r / 64 % 64 < 256 by omega)
  have h2 := toNat_ofNat_of_lt (show 0x80 + r % 64 < 256 by omega)
  have hacc : Accepts (UInt8.ofNat (0xE0 + r / 4096)) (UInt8.ofNat (0x80 + r / 64 % 64)) ∧
      IsContinuation (UInt8.ofNat (0x80 + r % 64)) := by
    unfold IsScalar at h
    rw [accepts_iff, IsContinuation, IsContinuation, h0, h1, h2]
    omega
  simp only [decodeRune, h0, h1, h2]
  rw [if_neg (by omega), if_neg (by omega), if_neg (by omega), if_pos (by omega), if_pos hacc]
  congr 1
  omega

theorem decodeRune_four (hlo : 0x10000 ≤ r) (hhi : r ≤ 0x10FFFF) :
    decodeRune (UInt8.ofNat (0xF0 + r / 262144) :: UInt8.ofNat (0x80 + r / 4096 % 64) ::
      UInt8.ofNat (0x80 + r / 64 % 64) :: UInt8.ofNat (0x80 + r % 64) :: t) = (r, 4) := by
  have h0 := toNat_ofNat_of_lt (show 0xF0 + r / 262144 < 256 by omega)
  have h1 := toNat_ofNat_of_lt (show 0x80 + r / 4096 % 64 < 256 by omega)
  have h2 := toNat_ofNat_of_lt (show 0x80 + r / 64 % 64 < 256 by omega)
  have h3 := toNat_ofNat_of_lt (show 0x80 + r % 64 < 256 by omega)
  have hacc : Accepts (UInt8.ofNat (0xF0 + r / 262144)) (UInt8.ofNat (0x80 + r / 4096 % 64)) ∧
      IsContinuation (UInt8.ofNat (0x80 + r / 64 % 64)) ∧
      IsContinuation (UInt8.ofNat (0x80 + r % 64)) := by
    rw [accepts_iff, IsContinuation, IsContinuation, IsContinuation, h0, h1, h2, h3]
    omega
  simp only [decodeRune, h0, h1, h2, h3]
  rw [if_neg (by omega), if_neg (by omega), if_neg (by omega), if_neg (by omega),
    if_pos (by omega), if_pos hacc]
  congr 1
  omega

end Widths

/-- Decoding undoes encoding, whatever follows. -/
theorem decodeRune_encodeRune {r : ℕ} (h : IsScalar r) (t : Bytes) :
    decodeRune (encodeRune r ++ t) = (r, (encodeRune r).length) := by
  have hsur := isSurrogate_of_isScalar h
  have hmax : r ≤ 0x10FFFF := by
    unfold IsScalar at h
    omega
  unfold encodeRune
  split_ifs with h1 h2 h3 h4
  · exact decodeRune_one t h1
  · exact decodeRune_two t (by omega) h2
  · rcases h3 with h3 | h3
    · omega
    · exact absurd h3 (by simp [hsur])
  · exact decodeRune_three t (by omega) h4 h
  · exact decodeRune_four t (by omega) hmax

section Sequences

variable {b0 b1 b2 b3 : UInt8}

theorem ofNat_eq_of_toNat {n : ℕ} {b : UInt8} (h : n = b.toNat) : UInt8.ofNat n = b := by
  rw [h, UInt8.ofNat_toNat]

theorem encodeRune_two (hlo : 0xC2 ≤ b0.toNat) (hhi : b0.toNat < 0xE0) (hacc : Accepts b0 b1) :
    IsScalar (b0.toNat % 32 * 64 + b1.toNat % 64) ∧
      encodeRune (b0.toNat % 32 * 64 + b1.toNat % 64) = [b0, b1] := by
  rw [accepts_iff, IsContinuation] at hacc
  refine ⟨.inl (by omega), ?_⟩
  rw [encodeRune, if_neg (by omega), if_pos (by omega), ofNat_eq_of_toNat (b := b0) (by omega),
    ofNat_eq_of_toNat (b := b1) (by omega)]

theorem encodeRune_three (hlo : 0xE0 ≤ b0.toNat) (hhi : b0.toNat < 0xF0) (hacc : Accepts b0 b1)
    (h2 : IsContinuation b2) :
    IsScalar (b0.toNat % 16 * 4096 + b1.toNat % 64 * 64 + b2.toNat % 64) ∧
      encodeRune (b0.toNat % 16 * 4096 + b1.toNat % 64 * 64 + b2.toNat % 64) = [b0, b1, b2] := by
  rw [accepts_iff, IsContinuation] at hacc
  rw [IsContinuation] at h2
  have hscalar : IsScalar (b0.toNat % 16 * 4096 + b1.toNat % 64 * 64 + b2.toNat % 64) := by
    unfold IsScalar
    omega
  refine ⟨hscalar, ?_⟩
  rw [encodeRune, if_neg (by omega), if_neg (by omega),
    if_neg (by simp [isSurrogate_of_isScalar hscalar]; omega), if_pos (by omega),
    ofNat_eq_of_toNat (b := b0) (by omega), ofNat_eq_of_toNat (b := b1) (by omega),
    ofNat_eq_of_toNat (b := b2) (by omega)]

theorem encodeRune_four (hlo : 0xF0 ≤ b0.toNat) (hhi : b0.toNat < 0xF5) (hacc : Accepts b0 b1)
    (h2 : IsContinuation b2) (h3 : IsContinuation b3) :
    IsScalar (b0.toNat % 8 * 262144 + b1.toNat % 64 * 4096 + b2.toNat % 64 * 64 + b3.toNat % 64) ∧
      encodeRune (b0.toNat % 8 * 262144 + b1.toNat % 64 * 4096 + b2.toNat % 64 * 64 +
        b3.toNat % 64) = [b0, b1, b2, b3] := by
  rw [accepts_iff, IsContinuation] at hacc
  rw [IsContinuation] at h2 h3
  have hscalar : IsScalar (b0.toNat % 8 * 262144 + b1.toNat % 64 * 4096 + b2.toNat % 64 * 64 +
      b3.toNat % 64) := by
    unfold IsScalar
    omega
  refine ⟨hscalar, ?_⟩
  rw [encodeRune, if_neg (by omega), if_neg (by omega),
    if_neg (by simp [isSurrogate_of_isScalar hscalar]; omega), if_neg (by omega),
    ofNat_eq_of_toNat (b := b0) (by omega), ofNat_eq_of_toNat (b := b1) (by omega),
    ofNat_eq_of_toNat (b := b2) (by omega), ofNat_eq_of_toNat (b := b3) (by omega)]

end Sequences

/-- An encoding is one byte of ASCII or has no byte of ASCII. -/
theorem toNat_of_mem_encodeRune {r : ℕ} {b : UInt8} (h : b ∈ encodeRune r) :
    r < 0x80 ∧ b = UInt8.ofNat r ∨ 0x80 ≤ r ∧ 0x80 ≤ b.toNat := by
  by_cases h1 : r < 0x80
  · rw [encodeRune, if_pos h1, List.mem_singleton] at h
    exact .inl ⟨h1, h⟩
  · refine .inr ⟨by omega, ?_⟩
    rw [encodeRune, if_neg h1] at h
    split_ifs at h with h2 h3 h4
    all_goals simp only [List.mem_cons, List.not_mem_nil, or_false] at h
    · rcases h with rfl | rfl <;> rw [toNat_ofNat_of_lt (by omega)] <;> omega
    · rcases h with rfl | rfl | rfl <;> decide
    · rcases h with rfl | rfl | rfl <;> rw [toNat_ofNat_of_lt (by omega)] <;> omega
    · rcases h with rfl | rfl | rfl | rfl <;> rw [toNat_ofNat_of_lt (by omega)] <;> omega

/-- A nonempty string begins with an invalid byte or with the encoding of its first rune. -/
theorem decodeRune_cases (b : UInt8) (s : Bytes) :
    decodeRune (b :: s) = (runeError, 1) ∨
      ∃ r t, IsScalar r ∧ b :: s = encodeRune r ++ t ∧
        decodeRune (b :: s) = (r, (encodeRune r).length) := by
  suffices h : decodeRune (b :: s) = (runeError, 1) ∨
      ∃ r t, IsScalar r ∧ b :: s = encodeRune r ++ t by
    refine h.imp_right ?_
    rintro ⟨r, t, hr, hs⟩
    exact ⟨r, t, hr, hs, by rw [hs, decodeRune_encodeRune hr]⟩
  unfold decodeRune
  dsimp only
  split_ifs with h1 h2 h3 h4 h5
  · refine .inr ⟨b.toNat, s, .inl (by omega), ?_⟩
    rw [encodeRune, if_pos h1, UInt8.ofNat_toNat, List.singleton_append]
  · exact .inl rfl
  · split
    · rename_i b1 t
      split_ifs with hacc
      · obtain ⟨hscalar, hencode⟩ := encodeRune_two (by omega) h3 hacc
        refine .inr ⟨_, t, hscalar, ?_⟩
        rw [hencode]
        rfl
      · exact .inl rfl
    · exact .inl rfl
  · split
    · rename_i b1 b2 t
      split_ifs with hacc
      · obtain ⟨hscalar, hencode⟩ := encodeRune_three (by omega) h4 hacc.1 hacc.2
        refine .inr ⟨_, t, hscalar, ?_⟩
        rw [hencode]
        rfl
      · exact .inl rfl
    · exact .inl rfl
  · split
    · rename_i b1 b2 b3 t
      split_ifs with hacc
      · obtain ⟨hscalar, hencode⟩ := encodeRune_four (by omega) h5 hacc.1 hacc.2.1 hacc.2.2
        refine .inr ⟨_, t, hscalar, ?_⟩
        rw [hencode]
        rfl
      · exact .inl rfl
    · exact .inl rfl
  · exact .inl rfl

/-- The first byte is invalid only outside ASCII. -/
theorem le_of_decodeRune_invalid {b : UInt8} {s : Bytes}
    (h : decodeRune (b :: s) = (runeError, 1)) : 0x80 ≤ b.toNat := by
  by_contra hlt
  have hone := decodeRune_one s (show b.toNat < 0x80 by omega)
  rw [UInt8.ofNat_toNat, h] at hone
  have hr := (Prod.mk.inj hone).1
  simp only [runeError] at hr
  omega

/-- A single byte is a rune of ASCII or invalid. -/
theorem decodeRune_singleton (b : UInt8) :
    b.toNat < 0x80 ∧ decodeRune [b] = (b.toNat, 1) ∨
      0x80 ≤ b.toNat ∧ decodeRune [b] = (runeError, 1) := by
  rcases lt_or_ge b.toNat 0x80 with hb | hb
  · have hone := decodeRune_one [] hb
    rw [UInt8.ofNat_toNat] at hone
    exact .inl ⟨hb, hone⟩
  · refine .inr ⟨hb, ?_⟩
    simp only [decodeRune, if_neg (not_lt.mpr hb)]
    split_ifs <;> rfl

/-- A rune and the bytes it was decoded from. -/
structure Decoded where
  rune : ℕ
  bytes : Bytes
  deriving DecidableEq, Repr

/-- A single byte that starts no valid sequence. -/
def Decoded.invalid (d : Decoded) : Bool := d.rune == runeError && d.bytes.length == 1

def runesAux : ℕ → Bytes → List Decoded
  | 0, _ => []
  | _ + 1, [] => []
  | fuel + 1, b :: s =>
    let (r, width) := decodeRune (b :: s)
    ⟨r, (b :: s).take width⟩ :: runesAux fuel ((b :: s).drop width)

/-- The runes that a `range` loop over the string visits. -/
def runes (s : Bytes) : List Decoded := runesAux s.length s

def validString (s : Bytes) : Bool := (runes s).all fun d => !d.invalid

/-- The string with a replacement character in place of each invalid byte. -/
def coerce (s : Bytes) : Bytes := (runes s).flatMap fun d => encodeRune d.rune

/-- What can be visited: the encoding of a scalar value or one byte outside ASCII. -/
def Decoded.Sound (d : Decoded) : Prop :=
  (IsScalar d.rune ∧ d.bytes = encodeRune d.rune) ∨
    (d.rune = runeError ∧ ∃ b : UInt8, d.bytes = [b] ∧ 0x80 ≤ b.toNat)

theorem runesAux_cons (fuel : ℕ) (b : UInt8) (s : Bytes) :
    ∃ d t, d.Sound ∧ b :: s = d.bytes ++ t ∧ d.bytes ≠ [] ∧
      runesAux (fuel + 1) (b :: s) = d :: runesAux fuel t := by
  rcases decodeRune_cases b s with h | ⟨r, t, hr, hs, h⟩
  · refine ⟨⟨runeError, [b]⟩, s, .inr ⟨rfl, b, rfl, le_of_decodeRune_invalid h⟩, rfl,
      List.cons_ne_nil _ _, ?_⟩
    rw [runesAux, h]
    rfl
  · refine ⟨⟨r, encodeRune r⟩, t, .inl ⟨hr, rfl⟩, hs, encodeRune_ne_nil r, ?_⟩
    rw [runesAux, h, hs]
    simp

theorem sound_of_mem_runesAux {fuel : ℕ} {s : Bytes} {d : Decoded} (h : d ∈ runesAux fuel s) :
    d.Sound := by
  induction fuel generalizing s with
  | zero => simp [runesAux] at h
  | succ fuel ih =>
    cases s with
    | nil => simp [runesAux] at h
    | cons b s =>
      obtain ⟨d', t, hsound, -, -, heq⟩ := runesAux_cons fuel b s
      rw [heq, List.mem_cons] at h
      rcases h with rfl | h
      · exact hsound
      · exact ih h

theorem flatMap_bytes_runesAux {fuel : ℕ} {s : Bytes} (h : s.length ≤ fuel) :
    (runesAux fuel s).flatMap Decoded.bytes = s := by
  induction fuel generalizing s with
  | zero =>
    rw [List.eq_nil_of_length_eq_zero (by omega : s.length = 0)]
    rfl
  | succ fuel ih =>
    cases s with
    | nil => rfl
    | cons b s =>
      obtain ⟨d, t, -, hs, hne, heq⟩ := runesAux_cons fuel b s
      have hlen := congrArg List.length hs
      have hpos := List.length_pos_of_ne_nil hne
      rw [List.length_append] at hlen
      rw [heq, List.flatMap_cons, ih (by omega), ← hs]

theorem sound_of_mem_runes {s : Bytes} {d : Decoded} (h : d ∈ runes s) : d.Sound :=
  sound_of_mem_runesAux h

/-- The runes of a string cover it. -/
theorem flatMap_bytes_runes (s : Bytes) : (runes s).flatMap Decoded.bytes = s :=
  flatMap_bytes_runesAux le_rfl

/-- A valid string is unchanged. -/
theorem coerce_of_validString {s : Bytes} (h : validString s = true) : coerce s = s := by
  have hbytes : ∀ d ∈ runes s, encodeRune d.rune = d.bytes := by
    intro d hd
    have hvalid : d.invalid = false := by
      simpa using List.all_eq_true.mp h d hd
    rcases sound_of_mem_runes hd with ⟨-, hd'⟩ | ⟨hrune, b, hb, -⟩
    · exact hd'.symm
    · simp [Decoded.invalid, hrune, hb] at hvalid
  rw [coerce, List.flatMap_congr hbytes, flatMap_bytes_runes]

theorem runesAux_flatMap_encodeRune {rs : List ℕ} (h : ∀ r ∈ rs, IsScalar r) {fuel : ℕ}
    (hfuel : (rs.flatMap encodeRune).length ≤ fuel) :
    runesAux fuel (rs.flatMap encodeRune) = rs.map fun r => ⟨r, encodeRune r⟩ := by
  induction rs generalizing fuel with
  | nil => cases fuel <;> rfl
  | cons r rs ih =>
    rw [List.forall_mem_cons] at h
    rw [List.flatMap_cons, List.length_append] at hfuel
    obtain ⟨b, s, hs⟩ := List.exists_cons_of_ne_nil (encodeRune_ne_nil r)
    have hdecode := decodeRune_encodeRune h.1 (rs.flatMap encodeRune)
    have hpos := List.length_pos_of_ne_nil (encodeRune_ne_nil r)
    obtain ⟨fuel, rfl⟩ : ∃ n, fuel = n + 1 := ⟨fuel - 1, by omega⟩
    rw [hs, List.cons_append] at hdecode
    rw [List.flatMap_cons, List.map_cons, ← ih h.2 (show _ ≤ fuel by omega), hs, List.cons_append,
      runesAux, hdecode, ← List.cons_append, ← hs]
    simp

/-- The replacement leaves a valid string. -/
theorem validString_coerce (s : Bytes) : validString (coerce s) = true := by
  have hscalar : ∀ r ∈ (runes s).map Decoded.rune, IsScalar r := by
    intro r hr
    obtain ⟨d, hd, rfl⟩ := List.mem_map.mp hr
    rcases sound_of_mem_runes hd with ⟨hscalar, -⟩ | ⟨hrune, -⟩
    · exact hscalar
    · rw [hrune]
      exact .inr (by decide)
  have hcoerce : coerce s = ((runes s).map Decoded.rune).flatMap encodeRune := by
    rw [List.flatMap_map]
    rfl
  rw [validString, runes, hcoerce, runesAux_flatMap_encodeRune hscalar le_rfl, List.all_map,
    List.all_eq_true]
  intro r _
  by_cases hr : r = runeError
  · subst hr
    decide
  · simp [Decoded.invalid, hr]

theorem coerce_coerce (s : Bytes) : coerce (coerce s) = coerce s :=
  coerce_of_validString (validString_coerce s)

theorem coerce_eq_self_iff {s : Bytes} : coerce s = s ↔ validString s = true := by
  constructor
  · intro h
    rw [← h]
    exact validString_coerce s
  · exact coerce_of_validString

/-- A string of ASCII is valid. -/
theorem validString_of_ascii {s : Bytes} (h : ∀ b ∈ s, b.toNat < 0x80) : validString s = true := by
  refine List.all_eq_true.mpr fun d hd => ?_
  rcases sound_of_mem_runes hd with ⟨hscalar, hd'⟩ | ⟨-, b, hb, hhigh⟩
  · have hwidth : d.rune < 0x80 ∨ (encodeRune d.rune).length ≠ 1 := by
      by_cases hlow : d.rune < 0x80
      · exact .inl hlow
      · right
        rw [encodeRune, if_neg hlow]
        split_ifs <;> simp
    rcases hwidth with hlow | hlen
    · have hne : d.rune ≠ runeError := by
        simp only [runeError]
        omega
      simp [Decoded.invalid, hne]
    · simp [Decoded.invalid, hd', hlen]
  · have hmem : b ∈ s := by
      rw [← flatMap_bytes_runes s]
      exact List.mem_flatMap.mpr ⟨d, hd, by simp [hb]⟩
    exact absurd (h b hmem) (by omega)

end Utf8

end BuildYourOwnStuff.GoStd
