import BuildYourOwnStuff.CppStd.CString

/-!
# Messages of the chat room

A message is an array with a header of four bytes, which holds the length of the
body as a numeral, and a body of at most 512 bytes. The array of a new message has
whatever its memory had; a message made from a string has the header and the body
written over it, and they are read back.
-/

namespace BuildYourOwnStuff.ChatRoom

open Foundations CppStd

/-- What ends a line. -/
def newline : UInt8 := 0x0A

def maxBytes : ℕ := 512

def header : ℕ := 4

/-- `char data[header+maxBytes]` -/
abbrev Data := { d : Bytes // d.length = header + maxBytes }

/-- Copy bytes into the array from a position on. -/
def memcpy (d : Data) (pos : ℕ) (src : Bytes) : Data :=
  ⟨overwrite d.1 pos src, (length_overwrite d.1 pos src).trans d.2⟩

structure Message where
  data : Data
  bodyLength_ : ℕ
  deriving DecidableEq

/-- An `int` as a `size_t`. -/
def toSize (n : ℤ) : ℕ := (n % 2 ^ 64).toNat

namespace Message

def getNewBodyLength (newLength : ℕ) : ℕ :=
  if newLength > maxBytes then maxBytes else newLength

def encodeHeader (m : Message) : Message :=
  { m with data := memcpy m.data 0 ((padded 4 m.bodyLength_).take header) }

/-- The constructor from a string, in memory with the bytes `uninit`. -/
def ofString (uninit : Data) (message : Bytes) : Message :=
  let m := encodeHeader ⟨uninit, getNewBodyLength message.length⟩
  { m with data := memcpy m.data header (message.take m.bodyLength_) }

/-- `memcpy` of `count` bytes into `dst` from a position on; `none` if it reads past the end
of the source or writes past the end of the destination. -/
def copyInside (dst : Bytes) (pos : ℕ) (src : Bytes) (count : ℕ) : Option Bytes :=
  if count ≤ src.length ∧ pos + count ≤ dst.length then
    some (overwrite dst pos (src.take count))
  else none

/-- The bytes of `data` after the constructor from a string, with every write checked:
that of `sprintf` and its zero byte into `new_header`, then the two into `data`. -/
def constructed (uninit : Bytes) (message : Bytes) : Option Bytes := do
  let text := padded 4 (getNewBodyLength message.length) ++ [0]
  let newHeader ← copyInside (List.replicate (header + 1) 0) 0 text text.length
  let data ← copyInside uninit 0 newHeader header
  copyInside data header (message ++ [0]) (getNewBodyLength message.length)

def decodeHeader (m : Message) : Message × Bool :=
  let headerValue := atoi (cString (m.data.1.take header))
  if headerValue > maxBytes then ({ m with bodyLength_ := 0 }, false)
  else ({ m with bodyLength_ := toSize headerValue }, true)

/-- `none` if the bytes asked for are not all in the array. -/
def getData (m : Message) : Option Bytes := slice m.data.1 0 (header + m.bodyLength_)

def getBody (m : Message) : Option Bytes :=
  m.getData.map fun dataStr => (dataStr.drop header).take m.bodyLength_

def getBodyLength (m : Message) : ℕ := m.bodyLength_

/-- The body of a message made from a string. -/
def body (message : Bytes) : Bytes := message.take maxBytes

theorem length_body (message : Bytes) :
    (body message).length = getNewBodyLength message.length := by
  rw [body, List.length_take, getNewBodyLength]
  split_ifs <;> omega

theorem length_body_le (message : Bytes) : (body message).length ≤ maxBytes :=
  List.length_take_le _ _

theorem take_getNewBodyLength (message : Bytes) :
    message.take (getNewBodyLength message.length) = body message := by
  rw [← length_body, body, List.length_take, ← List.take_take, List.take_length]

theorem length_padded_body (message : Bytes) :
    (padded 4 (body message).length).length = header := by
  have hbound := length_body_le message
  have hmax : maxBytes = 512 := rfl
  apply length_padded <;> omega

/-- Header and body stand one after the other, within the array. -/
theorem data_ofString (uninit : Data) (message : Bytes) :
    (ofString uninit message).data.1 = padded 4 (body message).length ++ body message ++
      uninit.1.drop (header + (body message).length) := by
  have hbound := length_body_le message
  have hpad := length_padded_body message
  have huninit := uninit.2
  have hheader := overwrite_append [] uninit.1 (padded 4 (body message).length) (by omega)
  have hrest := overwrite_append (padded 4 (body message).length) (uninit.1.drop header)
    (body message) (by rw [List.length_drop]; omega)
  rw [hpad, List.drop_drop] at hrest
  rw [List.nil_append, List.length_nil, hpad, List.nil_append] at hheader
  change overwrite (overwrite uninit.1 0 ((padded 4 (getNewBodyLength message.length)).take header))
    header (message.take (getNewBodyLength message.length)) = _
  rw [take_getNewBodyLength, ← length_body, List.take_of_length_le (le_of_eq hpad), hheader, hrest]

@[simp] theorem getBodyLength_ofString (uninit : Data) (message : Bytes) :
    (ofString uninit message).getBodyLength = (body message).length :=
  (length_body message).symm

/-- The header of a message made from a string gives the length it was made with. -/
theorem decodeHeader_ofString (uninit : Data) (message : Bytes) :
    (ofString uninit message).decodeHeader = (ofString uninit message, true) := by
  have hbound := length_body_le message
  have hmax : maxBytes = 512 := rfl
  have htake : (ofString uninit message).data.1.take header = padded 4 (body message).length := by
    rw [data_ofString, List.append_assoc]
    exact List.take_left' (length_padded_body message)
  have hsize : toSize ((body message).length : ℤ) = (ofString uninit message).bodyLength_ := by
    change _ = getNewBodyLength message.length
    rw [← length_body, toSize]
    omega
  simp only [decodeHeader, htake, cString_eq_self (zero_notMem_padded _ _), atoi_padded]
  rw [if_neg (by omega), hsize]

theorem getBody_ofString (uninit : Data) (message : Bytes) :
    (ofString uninit message).getBody = some (body message) := by
  have hpad := length_padded_body message
  have hlen : header + (ofString uninit message).bodyLength_ =
      (padded 4 (body message).length ++ body message).length := by
    rw [List.length_append, hpad, length_body]
    rfl
  have hdata : (ofString uninit message).getData =
      some (padded 4 (body message).length ++ body message) := by
    apply slice_eq_some.mpr
    rw [hlen, data_ofString]
    refine ⟨Nat.zero_le _, (List.prefix_append _ _).length_le, ?_⟩
    rw [List.drop_zero, Nat.sub_zero, List.take_left]
  rw [getBody, hdata, Option.map_some, List.drop_left' hpad]
  apply congrArg some
  apply List.take_of_length_le
  exact le_of_eq (length_body message)

/-- No write of the constructor is outside of the array. -/
theorem constructed_eq (uninit : Data) (message : Bytes) :
    constructed uninit.1 message = some (ofString uninit message).data.1 := by
  have hbound := length_body_le message
  have hmax : maxBytes = 512 := rfl
  have hheader : header = 4 := rfl
  have huninit := uninit.2
  have hpad := length_padded_body message
  rw [length_body] at hbound hpad
  have hle : getNewBodyLength message.length ≤ message.length := by
    rw [← length_body, body, List.length_take]
    exact Nat.min_le_right _ _
  have htext : copyInside (List.replicate (header + 1) 0) 0
      (padded 4 (getNewBodyLength message.length) ++ [0])
      (padded 4 (getNewBodyLength message.length) ++ [0]).length =
        some (padded 4 (getNewBodyLength message.length) ++ [0]) := by
    have hlength : (padded 4 (getNewBodyLength message.length) ++ [0]).length = header + 1 := by
      rw [List.length_append, hpad, List.length_singleton]
    rw [copyInside, if_pos ⟨le_rfl, by rw [hlength, List.length_replicate]; omega⟩,
      List.take_length, overwrite_to_end (by rw [hlength, List.length_replicate]; omega),
      List.take_zero,
      List.nil_append]
  have hdata : copyInside uninit.1 0 (padded 4 (getNewBodyLength message.length) ++ [0]) header =
      some (overwrite uninit.1 0 ((padded 4 (getNewBodyLength message.length)).take header)) := by
    rw [copyInside, if_pos ⟨by rw [List.length_append]; omega, by omega⟩,
      List.take_append_of_le_length (by omega)]
  rw [constructed]
  simp only [htext, Option.bind_eq_bind, Option.bind_some, hdata]
  rw [copyInside, length_overwrite, if_pos ⟨by rw [List.length_append]; omega, by omega⟩,
    List.take_append_of_le_length hle]
  rfl

/-- A message made of any string is written inside its array, and the header that is
decoded from it neither rejects nor resizes it: the body is the first 512 bytes. -/
theorem decoded_as_constructed (uninit : Data) (message : Bytes) :
    constructed uninit.1 message = some (ofString uninit message).data.1 ∧
      (ofString uninit message).decodeHeader = (ofString uninit message, true) ∧
      (ofString uninit message).getBodyLength = min message.length 512 ∧
      (ofString uninit message).getBody = some (message.take (min message.length 512)) := by
  refine ⟨constructed_eq uninit message, decodeHeader_ofString uninit message, ?_, ?_⟩
  · rw [getBodyLength_ofString, body, List.length_take, Nat.min_comm]
    rfl
  · rw [getBody_ofString, body, Nat.min_comm, ← List.take_take, List.take_length]
    rfl

end Message

end BuildYourOwnStuff.ChatRoom
