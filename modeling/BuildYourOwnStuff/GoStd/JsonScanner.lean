import BuildYourOwnStuff.GoStd.Utf8

/-!
# The scanner of `encoding/json`

A text is read byte by byte. The state of the scanner is what it expects next
and the stack of the containers that are open, each with what it holds so far.
Where the scanner of Go only checks the text, this one also keeps the value;
string literals are kept as they are written, numbers are only checked.
-/

namespace BuildYourOwnStuff.GoStd.Json

open Foundations

inductive Value
  | null
  | bool (b : Bool)
  | number
  | string (literal : Bytes)
  | array (elements : List Value)
  | object (members : List (Bytes × Value))

/-- An open container; in an object, before or after the colon of its last member. -/
inductive Frame
  | objectKey (members : List (Bytes × Value))
  | objectValue (members : List (Bytes × Value)) (key : Bytes)
  | arrayValue (elements : List Value)

/-- How much of a number has been read. -/
inductive NumberState
  | neg | zero | one | dot | dotDigit | exp | expSign | expDigit
  deriving DecidableEq, Repr

inductive Word
  | wordTrue | wordFalse | wordNull
  deriving DecidableEq, Repr

def Word.text : Word → Bytes
  | wordTrue => ascii "true"
  | wordFalse => ascii "false"
  | wordNull => ascii "null"

def Word.value : Word → Value
  | wordTrue => .bool true
  | wordFalse => .bool false
  | wordNull => .null

inductive Mode
  | beginValue
  | beginValueOrEmpty
  | beginString
  | beginStringOrEmpty
  | inString (literal : Bytes)
  | inStringEsc (literal : Bytes)
  /-- `missing` more hexadecimal digits of a `\u` escape are expected. -/
  | inStringEscU (missing : ℕ) (literal : Bytes)
  | number (state : NumberState)
  | word (word : Word) (read : ℕ)
  | endValue (value : Value)

structure Scanner where
  mode : Mode
  frames : List Frame

def quote : UInt8 := 0x22
def backslash : UInt8 := 0x5C
def openBrace : UInt8 := 0x7B
def closeBrace : UInt8 := 0x7D
def openBracket : UInt8 := 0x5B
def closeBracket : UInt8 := 0x5D
def colon : UInt8 := 0x3A
def comma : UInt8 := 0x2C

def byte (c : Char) : UInt8 := UInt8.ofNat c.toNat

def maxNestingDepth : ℕ := 10000

def isSpace (c : UInt8) : Bool := c == 0x20 || c == 0x09 || c == 0x0D || c == 0x0A

def isDigit (c : UInt8) : Bool := byte '0' ≤ c && c ≤ byte '9'

def isHexDigit (c : UInt8) : Bool :=
  isDigit c || (byte 'a' ≤ c && c ≤ byte 'f') || (byte 'A' ≤ c && c ≤ byte 'F')

namespace Scanner

def start : Scanner := ⟨.beginValue, []⟩

/-- `pushParseState` -/
def push (mode : Mode) (frame : Frame) (frames : List Frame) : Option Scanner :=
  if frames.length + 1 ≤ maxNestingDepth then some ⟨mode, frame :: frames⟩ else none

/-- `stateEndValue`: a value is complete, `c` comes after it. -/
def endValue (value : Value) (frames : List Frame) (c : UInt8) : Option Scanner :=
  if isSpace c then some ⟨.endValue value, frames⟩
  else
    match frames with
    | [] => none
    | .objectKey members :: frames =>
      match value with
      | .string key =>
        if c = colon then some ⟨.beginValue, .objectValue members key :: frames⟩ else none
      | _ => none
    | .objectValue members key :: frames =>
      if c = comma then some ⟨.beginString, .objectKey (members ++ [(key, value)]) :: frames⟩
      else if c = closeBrace then
        some ⟨.endValue (.object (members ++ [(key, value)])), frames⟩
      else none
    | .arrayValue elements :: frames =>
      if c = comma then some ⟨.beginValue, .arrayValue (elements ++ [value]) :: frames⟩
      else if c = closeBracket then some ⟨.endValue (.array (elements ++ [value])), frames⟩
      else none

def beginValue (frames : List Frame) (c : UInt8) : Option Scanner :=
  if isSpace c then some ⟨.beginValue, frames⟩
  else if c = openBrace then push .beginStringOrEmpty (.objectKey []) frames
  else if c = openBracket then push .beginValueOrEmpty (.arrayValue []) frames
  else if c = quote then some ⟨.inString [], frames⟩
  else if c = byte '-' then some ⟨.number .neg, frames⟩
  else if c = byte '0' then some ⟨.number .zero, frames⟩
  else if c = byte 't' then some ⟨.word .wordTrue 1, frames⟩
  else if c = byte 'f' then some ⟨.word .wordFalse 1, frames⟩
  else if c = byte 'n' then some ⟨.word .wordNull 1, frames⟩
  else if isDigit c then some ⟨.number .one, frames⟩
  else none

def beginString (frames : List Frame) (c : UInt8) : Option Scanner :=
  if isSpace c then some ⟨.beginString, frames⟩
  else if c = quote then some ⟨.inString [], frames⟩
  else none

/-- `state0`: the integer part of a number is complete. -/
def integerEnd (frames : List Frame) (c : UInt8) : Option Scanner :=
  if c = byte '.' then some ⟨.number .dot, frames⟩
  else if c = byte 'e' ∨ c = byte 'E' then some ⟨.number .exp, frames⟩
  else endValue .number frames c

/-- A number goes on with `c`, or it is complete and `c` comes after it. -/
def number (state : NumberState) (frames : List Frame) (c : UInt8) : Option Scanner :=
  match state with
  | .neg =>
    if c = byte '0' then some ⟨.number .zero, frames⟩
    else if isDigit c then some ⟨.number .one, frames⟩
    else none
  | .one => if isDigit c then some ⟨.number .one, frames⟩ else integerEnd frames c
  | .zero => integerEnd frames c
  | .dot => if isDigit c then some ⟨.number .dotDigit, frames⟩ else none
  | .dotDigit =>
    if isDigit c then some ⟨.number .dotDigit, frames⟩
    else if c = byte 'e' ∨ c = byte 'E' then some ⟨.number .exp, frames⟩
    else endValue .number frames c
  | .exp =>
    if c = byte '+' ∨ c = byte '-' then some ⟨.number .expSign, frames⟩
    else if isDigit c then some ⟨.number .expDigit, frames⟩
    else none
  | .expSign => if isDigit c then some ⟨.number .expDigit, frames⟩ else none
  | .expDigit =>
    if isDigit c then some ⟨.number .expDigit, frames⟩ else endValue .number frames c

/-- Read one byte; `none` is a syntax error. -/
def step (s : Scanner) (c : UInt8) : Option Scanner :=
  match s.mode with
  | .beginValue => beginValue s.frames c
  | .beginValueOrEmpty =>
    if isSpace c then some s
    else if c = closeBracket then
      match s.frames with
      | .arrayValue elements :: frames => some ⟨.endValue (.array elements), frames⟩
      | _ => none
    else beginValue s.frames c
  | .beginString => beginString s.frames c
  | .beginStringOrEmpty =>
    if isSpace c then some s
    else if c = closeBrace then
      match s.frames with
      | .objectKey members :: frames => some ⟨.endValue (.object members), frames⟩
      | _ => none
    else beginString s.frames c
  | .inString literal =>
    if c = quote then some ⟨.endValue (.string literal), s.frames⟩
    else if c = backslash then some ⟨.inStringEsc (literal ++ [c]), s.frames⟩
    else if c < 0x20 then none
    else some ⟨.inString (literal ++ [c]), s.frames⟩
  | .inStringEsc literal =>
    if c = byte 'u' then some ⟨.inStringEscU 4 (literal ++ [c]), s.frames⟩
    else if c ∈ ascii "bfnrt/" ∨ c = quote ∨ c = backslash then
      some ⟨.inString (literal ++ [c]), s.frames⟩
    else none
  | .inStringEscU missing literal =>
    if isHexDigit c then
      if missing ≤ 1 then some ⟨.inString (literal ++ [c]), s.frames⟩
      else some ⟨.inStringEscU (missing - 1) (literal ++ [c]), s.frames⟩
    else none
  | .number state => number state s.frames c
  | .word word read =>
    if word.text[read]? = some c then
      if read + 1 = word.text.length then some ⟨.endValue word.value, s.frames⟩
      else some ⟨.word word (read + 1), s.frames⟩
    else none
  | .endValue value => endValue value s.frames c

def run (s : Scanner) (text : Bytes) : Option Scanner := text.foldlM step s

theorem run_cons (s : Scanner) (c : UInt8) (text : Bytes) :
    s.run (c :: text) = (s.step c).bind fun s' => s'.run text := rfl

theorem run_append (s : Scanner) (u w : Bytes) :
    s.run (u ++ w) = (s.run u).bind fun s' => s'.run w := by
  simp only [run, List.foldlM_append]
  rfl

/-- `eof`: the text may end here if a space would not go on with it. -/
def finish (s : Scanner) : Option Value :=
  match s.step 0x20 with
  | some ⟨.endValue value, []⟩ => some value
  | _ => none

end Scanner

/-- The value of a JSON text. -/
def parse (text : Bytes) : Option Value := (Scanner.start.run text).bind Scanner.finish

end BuildYourOwnStuff.GoStd.Json
