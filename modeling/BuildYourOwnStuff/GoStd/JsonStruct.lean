import BuildYourOwnStuff.GoStd.JsonString
import BuildYourOwnStuff.GoStd.JsonTexts

/-!
# Structs of strings in `encoding/json`

`marshal` writes the fields in their order. `unmarshal` reads any JSON text: it
takes the members whose name is that of a field, in any order and with letters
of either case, skips the others, and fails when a field gets a value that is
neither a string nor `null`.
-/

namespace BuildYourOwnStuff.GoStd.Json

open Foundations Utf8

/-- A field of type `string`. -/
structure StringField (σ : Type) where
  name : Bytes
  get : σ → Bytes
  set : Bytes → σ → σ

/-- `foldRune`, as far as it yields a letter of ASCII. -/
def foldRune (r : ℕ) : ℕ :=
  if 0x61 ≤ r ∧ r ≤ 0x7A then r - 0x20
  -- the sign for Kelvin and the long s
  else if r = 0x212A then 0x4B
  else if r = 0x17F then 0x53
  else r

def foldName (name : Bytes) : Bytes := (runes name).flatMap fun d => encodeRune (foldRune d.rune)

section Struct

variable {σ : Type}

def findField (fields : List (StringField σ)) (key : Bytes) : Option (StringField σ) :=
  (fields.find? fun f => f.name = key).or (fields.find? fun f => foldName f.name = foldName key)

/-- The name and the value of a field. -/
def memberText (s : σ) (f : StringField σ) : Bytes :=
  appendString f.name ++ colon :: appendString (f.get s)

/-- The loop over the fields; `next` is written before the first of them. -/
def appendMembers (s : σ) (next : UInt8) : List (StringField σ) → Bytes
  | [] => []
  | f :: fields => next :: memberText s f ++ appendMembers s comma fields

def marshal (fields : List (StringField σ)) (s : σ) : Bytes :=
  match fields with
  | [] => [openBrace, closeBrace]
  | fields => appendMembers s openBrace fields ++ [closeBrace]

/-- The members of an object, stored one after another. -/
def decodeMembers (fields : List (StringField σ)) : List (Bytes × Value) → σ → Option σ
  | [], s => some s
  | (key, value) :: members, s => do
    let name ← unquote key
    match findField fields name, value with
    | none, _ => decodeMembers fields members s
    | some _, .null => decodeMembers fields members s
    | some f, .string text =>
      let v ← unquote text
      decodeMembers fields members (f.set v s)
    | some _, _ => none

/-- `s` is the struct before; `null` leaves it as it is. -/
def unmarshal (fields : List (StringField σ)) (data : Bytes) (s : σ) : Option σ := do
  match ← parse data with
  | .object members => decodeMembers fields members s
  | .null => some s
  | _ => none

/-- The member that is read for a field. -/
def member (s : σ) (f : StringField σ) : Bytes × Value :=
  (literal f.name, .string (literal (f.get s)))

section Scanning

open Scanner

variable (frames : List Frame)

/-- Where a string may begin, a written string is read. -/
theorem run_appendString {mode : Mode} {frames : List Frame} (s : Bytes)
    (h : step ⟨mode, frames⟩ quote = some ⟨.inString [], frames⟩) :
    Scanner.run ⟨mode, frames⟩ (appendString s) =
      some ⟨.endValue (.string (literal s)), frames⟩ := by
  have hclose : Scanner.run ⟨.inString (literal s), frames⟩ [quote] =
      some ⟨.endValue (.string (literal s)), frames⟩ := rfl
  rw [appendString, List.cons_append, run_cons, h, Option.bind_some, run_append, run_literal,
    Option.bind_some, hclose]

theorem run_memberText (s : σ) (f : StringField σ) {mode : Mode} (ms : List (Bytes × Value))
    (h : step ⟨mode, .objectKey ms :: frames⟩ quote =
      some ⟨.inString [], .objectKey ms :: frames⟩) :
    Scanner.run ⟨mode, .objectKey ms :: frames⟩ (memberText s f) =
      some ⟨.endValue (.string (literal (f.get s))),
        .objectValue ms (literal f.name) :: frames⟩ := by
  have hcolon : step ⟨.endValue (.string (literal f.name)), .objectKey ms :: frames⟩ colon =
      some ⟨.beginValue, .objectValue ms (literal f.name) :: frames⟩ := rfl
  have hvalue := @run_appendString .beginValue (.objectValue ms (literal f.name) :: frames)
    (f.get s) rfl
  rw [memberText, run_append, run_appendString _ h, Option.bind_some, run_cons, hcolon,
    Option.bind_some, hvalue]

theorem run_appendMembers (s : σ) (fields : List (StringField σ)) (ms : List (Bytes × Value))
    (key : Bytes) (value : Value) :
    Scanner.run ⟨.endValue value, .objectValue ms key :: frames⟩
        (appendMembers s comma fields ++ [closeBrace]) =
      some ⟨.endValue (.object (ms ++ (key, value) :: fields.map (member s))), frames⟩ := by
  induction fields generalizing ms key value with
  | nil => rfl
  | cons f fields ih =>
    have hcomma : step ⟨.endValue value, .objectValue ms key :: frames⟩ comma =
        some ⟨.beginString, .objectKey (ms ++ [(key, value)]) :: frames⟩ := rfl
    rw [appendMembers, List.cons_append, List.cons_append, run_cons, hcomma, Option.bind_some,
      List.append_assoc, run_append, run_memberText frames s f _ rfl, Option.bind_some, ih,
      List.append_assoc]
    rfl

/-- The text of a struct is an object with a member for each field. -/
theorem readsAs_marshal (fields : List (StringField σ)) (s : σ) :
    ReadsAs (marshal fields s) (.object (fields.map (member s))) := by
  intro frames hdepth
  have hopen : step ⟨.beginValue, frames⟩ openBrace =
      some ⟨.beginStringOrEmpty, .objectKey [] :: frames⟩ := by
    change push .beginStringOrEmpty (.objectKey []) frames = _
    exact if_pos hdepth
  cases fields with
  | nil =>
    rw [marshal, run_cons, hopen]
    rfl
  | cons f fields =>
    rw [marshal, appendMembers, List.cons_append, List.cons_append, run_cons, hopen,
      Option.bind_some, List.append_assoc, run_append, run_memberText frames s f _ rfl,
      Option.bind_some, run_appendMembers]
    · rfl
    · exact List.cons_ne_nil _ _

end Scanning

theorem head?_marshal (fields : List (StringField σ)) (s : σ) :
    (marshal fields s).head? = some openBrace := by
  cases fields <;> rfl

theorem getLast?_marshal (fields : List (StringField σ)) (s : σ) :
    (marshal fields s).getLast? = some closeBrace := by
  cases fields with
  | nil => rfl
  | cons f fields => exact List.getLast?_concat

theorem printable_memberText (s : σ) (f : StringField σ) :
    ∀ b ∈ memberText s f, 0x20 ≤ b.toNat := by
  have hstring : ∀ s, ∀ b ∈ appendString s, 0x20 ≤ b.toNat := by
    intro s b hb
    simp only [appendString, List.mem_append, List.mem_cons, List.not_mem_nil, or_false] at hb
    rcases hb with (rfl | hb) | rfl
    · decide
    · exact printable_literal s b hb
    · decide
  intro b hb
  simp only [memberText, List.mem_append, List.mem_cons] at hb
  rcases hb with hb | rfl | hb
  · exact hstring _ b hb
  · decide
  · exact hstring _ b hb

theorem printable_appendMembers (s : σ) {next : UInt8} (hnext : 0x20 ≤ next.toNat)
    (fields : List (StringField σ)) : ∀ b ∈ appendMembers s next fields, 0x20 ≤ b.toNat := by
  induction fields generalizing next with
  | nil => simp [appendMembers]
  | cons f fields ih =>
    intro b hb
    simp only [appendMembers, List.mem_append, List.mem_cons] at hb
    rcases hb with (rfl | hb) | hb
    · exact hnext
    · exact printable_memberText s f b hb
    · exact ih (by decide) b hb

/-- The text of a struct has no control character, so it stays on one line. -/
theorem printable_marshal (fields : List (StringField σ)) (s : σ) :
    ∀ b ∈ marshal fields s, 0x20 ≤ b.toNat := by
  intro b hb
  cases fields with
  | nil =>
    simp only [marshal, List.mem_cons, List.not_mem_nil, or_false] at hb
    rcases hb with rfl | rfl <;> decide
  | cons f fields =>
    rcases List.mem_append.mp hb with hb | hb
    · exact printable_appendMembers s (by decide) _ b hb
    · rw [List.mem_singleton] at hb
      subst hb
      decide

/-- Members that were written are stored in their fields. -/
theorem decodeMembers_member {fields sub : List (StringField σ)}
    (h : ∀ f ∈ sub, coerce f.name = f.name ∧ findField fields f.name = some f) (s t : σ) :
    decodeMembers fields (sub.map (member s)) t =
      some (sub.foldl (fun t f => f.set (coerce (f.get s)) t) t) := by
  induction sub generalizing t with
  | nil => rfl
  | cons f sub ih =>
    rw [List.forall_mem_cons] at h
    obtain ⟨⟨hname, hfind⟩, hrest⟩ := h
    rw [List.map_cons, member, decodeMembers, unquote_literal, hname]
    simp only [bind, Option.bind, hfind, unquote_literal]
    exact ih hrest _

/-- A struct that was written is read back, with replacement characters for the
invalid bytes of its fields. -/
theorem unmarshal_marshal {fields : List (StringField σ)}
    (h : ∀ f ∈ fields, coerce f.name = f.name ∧ findField fields f.name = some f) (s t : σ) :
    unmarshal fields (marshal fields s) t =
      some (fields.foldl (fun t f => f.set (coerce (f.get s)) t) t) := by
  rw [unmarshal, parse_of_readsAs (readsAs_marshal fields s)]
  exact decodeMembers_member h s t

theorem unmarshal_of_parse_eq_none {fields : List (StringField σ)} {data : Bytes} {s : σ}
    (h : parse data = none) : unmarshal fields data s = none := by
  rw [unmarshal, h]
  rfl

end Struct

end BuildYourOwnStuff.GoStd.Json
