import BuildYourOwnStuff.GoStd.Slices
import BuildYourOwnStuff.GoStd.Utf8

/-!
# The angry reader

`Read` fills the caller's buffer from another reader and then puts every letter in it
into upper case, in place. It decodes runes from the whole buffer, also from the bytes
behind those that were read.
-/

namespace BuildYourOwnStuff.Streams

open Foundations GoStd

/-- What the reader uses of package `unicode`. -/
structure Unicode where
  isLetter : ℕ → Bool
  toUpper : ℕ → ℕ

inductive ReadError
  | eof
  | runeWidth (got want : ℕ)
  deriving DecidableEq, Repr

/-- The caller's buffer after a call of `Read`, and what the call returns. -/
structure ReadResult where
  buffer : Bytes
  n : ℕ
  err : Option ReadError
  deriving DecidableEq, Repr

/-- The bytes that the caller is given. -/
def ReadResult.bytes (r : ReadResult) : Bytes := r.buffer.take r.n

/-- `utf8.EncodeRune(b[i:], r)`, which panics if there is no room. -/
def encodeAt (b : Bytes) (i r : ℕ) : Outcome (Bytes × ℕ) :=
  if (Utf8.encodeRune r).length ≤ b.length - i then
    .ok (overwrite b i (Utf8.encodeRune r), (Utf8.encodeRune r).length)
  else .error .panic

namespace AngryReader

variable (u : Unicode)

/-- The loop of `Read`, with at most so many turns. -/
def loop : ℕ → Bytes → ℕ → ℕ → Outcome (Bytes × Option ReadError)
  | 0, b, _, _ => .ok (b, none)
  | turns + 1, b, i, n =>
    if i < n then do
      let (r, w) := Utf8.decodeRune (b.drop i)
      if u.isLetter r then
        let (b, wu) ← encodeAt b i (u.toUpper r)
        if wu ≠ w then return (b, some (.runeWidth wu w))
        else loop turns b (i + w) n
      else loop turns b (i + w) n
    else .ok (b, none)

/-- `Read`, when the other reader puts `chunk` at the start of the buffer, returns `err`
and leaves `rest` behind it. A turn of the loop takes one byte at least. -/
def read (chunk rest : Bytes) (err : Option ReadError) : Outcome ReadResult := do
  let (b, e) ← loop u chunk.length (chunk ++ rest) 0 chunk.length
  return ⟨b, chunk.length, e.or err⟩

/-- A call of `Read` with a buffer that is not empty; the other reader may return
`io.EOF` with its last bytes. -/
structure Call where
  chunk : Bytes
  rest : Bytes
  eof : Bool
  nonempty : chunk ++ rest ≠ []

def Call.read (c : Call) : Outcome ReadResult :=
  AngryReader.read u c.chunk c.rest (if c.eof then some .eof else none)

/-- Calls until one returns an error, and a last one that returns `io.EOF` if none does:
all the bytes that were returned, and the error. -/
def drain : List Call → Outcome (Bytes × ReadError)
  | [] => .ok ([], .eof)
  | c :: calls => do
    let r ← c.read u
    match r.err with
    | some e => return (r.bytes, e)
    | none =>
      let (out, e) ← drain calls
      return (r.bytes ++ out, e)

/-- One call with a buffer of the size of the stream. -/
def readWhole (stream : Bytes) : Outcome (Bytes × ReadError) := do
  let r ← read u stream [] none
  return (r.bytes, r.err.getD .eof)

/-- The other reader returns the stream, in these calls. -/
structure Delivers (stream : Bytes) (calls : List Call) : Prop where
  chunks : calls.flatMap Call.chunk = stream
  eof_last : ∀ c ∈ calls.dropLast, c.eof = false

/-- The text with every letter in upper case. -/
def shouted (text : Bytes) : Bytes :=
  (Utf8.runes text).flatMap fun d =>
    if u.isLetter d.rune then Utf8.encodeRune (u.toUpper d.rune) else d.bytes

variable {u}

theorem loop_done {n i : ℕ} (h : n ≤ i) (turns : ℕ) (b : Bytes) :
    loop u turns b i n = .ok (b, none) := by
  cases turns with
  | zero => rfl
  | succ turns => exact if_neg (by omega)

theorem encodeAt_eq_ok {b b' : Bytes} {i r w : ℕ} : encodeAt b i r = .ok (b', w) ↔
    (Utf8.encodeRune r).length ≤ b.length - i ∧
      b' = overwrite b i (Utf8.encodeRune r) ∧ w = (Utf8.encodeRune r).length := by
  rw [encodeAt]
  split_ifs with hfit
  · simp only [Except.ok.injEq, Prod.mk.injEq, eq_comm, hfit, true_and]
  · simp [hfit]

section Drain

variable {c : Call} {calls : List Call} {result : ReadResult} (hread : c.read u = .ok result)

include hread

/-- A call that returns an error is the last one. -/
theorem drain_cons_of_some {e : ReadError} (h : result.err = some e) :
    drain u (c :: calls) = .ok (result.bytes, e) := by
  simp only [drain, hread, bind, Except.bind, h]
  rfl

theorem drain_cons_of_none (h : result.err = none) {run : Bytes × ReadError} :
    drain u (c :: calls) = .ok run ↔
      ∃ run', drain u calls = .ok run' ∧ run = (result.bytes ++ run'.1, run'.2) := by
  rw [drain, hread]
  change (match result.err with
    | some e => _
    | none => _) = _ ↔ _
  rw [h]
  refine bind_eq_ok.trans (exists_congr fun run' => and_congr_right fun _ => ?_)
  exact ⟨fun h => (Except.ok.inj h).symm, fun h => congrArg Except.ok h.symm⟩

end Drain

end AngryReader

end BuildYourOwnStuff.Streams
