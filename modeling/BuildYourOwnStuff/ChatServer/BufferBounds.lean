import BuildYourOwnStuff.ChatServer.Receive

/-!
# The bounds of the receive buffer

In each turn of the loop of `handleClient` the second call of `recv` is for as many
bytes as the client says, and a zero is stored after those that it returns. Both are
inside the buffer exactly if the length leaves a place for the zero.
-/

namespace BuildYourOwnStuff.ChatServer

open Foundations

/-- A turn of the loop: the memory of `msgLength`, how many bytes have arrived at the
calls of `recv`, and all the bytes that are to come. -/
structure Pass where
  uninit : Word
  portion : ℕ+
  portion' : ℕ+
  stream : Bytes

namespace Pass

variable (p : Pass)

/-- What is received of the length. -/
def lengthBytes : Bytes := (recv p.portion 4 p.stream).1

/-- How many bytes the calls of `recv` ask for. -/
def requests : List ℕ :=
  if p.lengthBytes = [] then [4] else [4, requestedLength p.uninit p.lengthBytes]

/-- What is received into the buffer. -/
def body : Bytes :=
  if p.lengthBytes = [] then []
  else (recv p.portion' (requestedLength p.uninit p.lengthBytes) (recv p.portion 4 p.stream).2).1

/-- Where the terminating zero is stored. -/
def terminator : Option ℕ := if p.body = [] then none else some p.body.length

/-- No call asks for more than the buffer holds, and the zero is inside it. -/
structure InBounds : Prop where
  requests : ∀ n ∈ p.requests, n ≤ bufferSize
  terminator : ∀ i ∈ p.terminator, i < bufferSize

/-- The length that the client has sent, over what was in memory. -/
def length : ℕ :=
  beNat (p.stream.take (min (p.portion : ℕ) 4) ++
    p.uninit.1.drop (p.stream.take (min (p.portion : ℕ) 4)).length)

/-- The client sends nothing, or a length with a place for the zero, or the size of the
buffer when not so many bytes arrive at once. -/
def LengthFits : Prop :=
  p.stream = [] ∨ p.length < bufferSize ∨
    p.length = bufferSize ∧
      ((p.portion' : ℕ) < bufferSize ∨
        (p.stream.drop (min (p.portion : ℕ) 4)).length < bufferSize)

variable {p}

theorem lengthBytes_eq_nil_iff : p.lengthBytes = [] ↔ p.stream = [] := by
  have hportion := p.portion.pos
  rw [lengthBytes, recv, List.take_eq_nil_iff, or_iff_right]
  omega

theorem requestedLength_le_iff :
    requestedLength p.uninit p.lengthBytes ≤ bufferSize ↔ p.length ≤ bufferSize := by
  change (if p.length < 2 ^ 31 then p.length else p.length + (2 ^ 64 - 2 ^ 32)) ≤ 1024 ↔
    p.length ≤ 1024
  -- from 2 ^ 31 on the length is negative, and the request is huge
  split_ifs <;> omega

theorem requestedLength_eq (h : p.length ≤ bufferSize) :
    requestedLength p.uninit p.lengthBytes = p.length := by
  rw [bufferSize] at h
  exact if_pos (show p.length < 2 ^ 31 by omega)

theorem requests_le_iff (hne : p.stream ≠ []) :
    (∀ n ∈ p.requests, n ≤ bufferSize) ↔ p.length ≤ bufferSize := by
  have hbytes := mt lengthBytes_eq_nil_iff.mp hne
  rw [requests, if_neg hbytes, List.forall_mem_cons, List.forall_mem_singleton,
    requestedLength_le_iff]
  exact and_iff_right (by decide)

theorem terminator_lt_iff :
    (∀ i ∈ p.terminator, i < bufferSize) ↔ p.body.length < bufferSize := by
  rw [terminator]
  split_ifs with hnil
  · rw [hnil]
    exact iff_of_true nofun (by decide)
  · exact ⟨fun h => h _ rfl, fun h i hi => Option.some.inj hi ▸ h⟩

theorem length_body (hne : p.stream ≠ []) (h : p.length ≤ bufferSize) :
    p.body.length =
      min (min (p.portion' : ℕ) p.length) (p.stream.drop (min (p.portion : ℕ) 4)).length := by
  rw [body, if_neg (mt lengthBytes_eq_nil_iff.mp hne), requestedLength_eq h]
  exact List.length_take

/-- A turn stays in the buffer exactly if the length fits. -/
theorem inBounds_iff : p.InBounds ↔ p.LengthFits := by
  by_cases hnil : p.stream = []
  · have hempty := lengthBytes_eq_nil_iff.mpr hnil
    refine iff_of_true ⟨?_, ?_⟩ (.inl hnil)
    · rw [requests, if_pos hempty]
      decide
    · rw [terminator_lt_iff, body, if_pos hempty]
      decide
  · have hbounds : p.InBounds ↔ p.length ≤ bufferSize ∧ p.body.length < bufferSize :=
      ⟨fun h => ⟨(requests_le_iff hnil).mp h.requests, terminator_lt_iff.mp h.terminator⟩,
        fun h => ⟨(requests_le_iff hnil).mpr h.1, terminator_lt_iff.mpr h.2⟩⟩
    rw [hbounds, LengthFits, or_iff_right hnil]
    constructor
    · rintro ⟨hle, hbody⟩
      rw [length_body hnil hle] at hbody
      omega
    · intro h
      have hle : p.length ≤ bufferSize := by omega
      rw [length_body hnil hle]
      omega

end Pass

/-- The turns of the loop, up to the one in which it ends. -/
def passes (uninit : ℕ → Word) (portions : ℕ → ℕ+) (stream : Bytes) : List Pass :=
  ⟨uninit 0, portions 0, portions 1, stream⟩ ::
    match h : receiveMessage (uninit 0) (portions 0) (portions 1) stream with
    | .ended _ => []
    | .received message rest =>
      have := length_of_received h
      if IsLogout message then []
      else passes (fun k => uninit (k + 1)) (fun k => portions (k + 2)) rest
termination_by stream.length

/-- The message of a turn, if the loop goes on to it. -/
def Pass.message (p : Pass) : Option Bytes :=
  match receiveMessage p.uninit p.portion p.portion' p.stream with
  | .ended _ => none
  | .received message _ => some message

theorem passes_of_ended {uninit : ℕ → Word} {portions : ℕ → ℕ+} {stream : Bytes}
    {ending : Ending}
    (h : receiveMessage (uninit 0) (portions 0) (portions 1) stream = .ended ending) :
    passes uninit portions stream = [⟨uninit 0, portions 0, portions 1, stream⟩] := by
  rw [passes]
  split
  · rfl
  · rename_i hr
    rw [h] at hr
    cases hr

theorem passes_of_received {uninit : ℕ → Word} {portions : ℕ → ℕ+} {stream message rest : Bytes}
    (h : receiveMessage (uninit 0) (portions 0) (portions 1) stream = .received message rest) :
    passes uninit portions stream = ⟨uninit 0, portions 0, portions 1, stream⟩ ::
      if IsLogout message then []
      else passes (fun k => uninit (k + 1)) (fun k => portions (k + 2)) rest := by
  rw [passes]
  split
  · rename_i hr
    rw [h] at hr
    cases hr
  · rename_i hr
    rw [h] at hr
    cases hr
    rfl

/-- These are the turns in which the messages are received. -/
theorem handleClient_messages (uninit : ℕ → Word) (portions : ℕ → ℕ+) (stream : Bytes) :
    (handleClient uninit portions stream).messages =
      (passes uninit portions stream).filterMap Pass.message := by
  cases h : receiveMessage (uninit 0) (portions 0) (portions 1) stream with
  | ended ending =>
    rw [handleClient_of_ended h, passes_of_ended h, List.filterMap_cons_none (by
      rw [Pass.message, h])]
    rfl
  | received message rest =>
    have hlt := length_of_received h
    rw [handleClient_of_received h, passes_of_received h, List.filterMap_cons_some (by
      rw [Pass.message, h])]
    split_ifs
    · rfl
    · rw [handleClient_messages _ _ rest]
termination_by stream.length

/-- Over a whole connection, each turn stays in the buffer exactly if each length fits. -/
theorem inBounds_passes_iff (uninit : ℕ → Word) (portions : ℕ → ℕ+) (stream : Bytes) :
    (∀ p ∈ passes uninit portions stream, p.InBounds) ↔
      ∀ p ∈ passes uninit portions stream, p.LengthFits :=
  forall₂_congr fun _ _ => Pass.inBounds_iff

section Frames

variable {m : Bytes} {portion portion' : ℕ+} (uninit : Word) (s : Bytes)

theorem length_frame (hm : m.length < 256 ^ 4) (hportion : 4 ≤ (portion : ℕ)) :
    Pass.length ⟨uninit, portion, portion', frame m ++ s⟩ = m.length := by
  have hheader : (frame m ++ s).take (min (portion : ℕ) 4) = frameHeader m :=
    congrArg Prod.fst (recv_header hportion m s)
  rw [Pass.length, hheader]
  exact beNat_frameHeader hm uninit

theorem inBounds_frame (hm : m.length < bufferSize) (hportion : 4 ≤ (portion : ℕ)) :
    Pass.InBounds ⟨uninit, portion, portion', frame m ++ s⟩ := by
  refine Pass.inBounds_iff.mpr (.inr (.inl ?_))
  rw [length_frame uninit s (hm.trans (by decide)) hportion]
  exact hm

/-- A message of the size of the buffer leaves no place for the zero. -/
theorem terminator_frame (hm : m.length = bufferSize) (hportion : 4 ≤ (portion : ℕ))
    (hportion' : m.length ≤ (portion' : ℕ)) :
    Pass.terminator ⟨uninit, portion, portion', frame m ++ s⟩ = some bufferSize := by
  have hlength : Pass.length ⟨uninit, portion, portion', frame m ++ s⟩ = m.length :=
    length_frame uninit s (by rw [hm]; decide) hportion
  have hframe : 4 + m.length ≤ (frame m ++ s).length := by
    simp only [frame, frameHeader, List.length_append, length_beBytes]
    omega
  have hne : frame m ++ s ≠ [] := List.ne_nil_of_length_pos (by omega)
  have hbody : (Pass.body ⟨uninit, portion, portion', frame m ++ s⟩).length = bufferSize := by
    rw [Pass.length_body hne (by rw [hlength, hm]), hlength, List.length_drop,
      min_eq_right hportion]
    dsimp only
    omega
  have hbody_ne : Pass.body ⟨uninit, portion, portion', frame m ++ s⟩ ≠ [] :=
    List.ne_nil_of_length_pos (by rw [hbody]; decide)
  rw [Pass.terminator, if_neg hbody_ne, hbody]

end Frames

/-- Sendable messages that are read in full stay in the buffer. -/
theorem inBounds_of_fullReads {ms : List Bytes} (hms : ∀ m ∈ ms, Sendable m)
    {portions : ℕ → ℕ+} (hfull : FullReads portions ms) (uninit : ℕ → Word) :
    ∀ p ∈ passes uninit portions (ms.flatMap frame), p.InBounds := by
  induction ms generalizing portions uninit with
  | nil =>
    have hended : receiveMessage (uninit 0) (portions 0) (portions 1) [] = .ended .closed := by
      simp [receiveMessage, recv]
    rw [List.flatMap_nil, passes_of_ended hended, List.forall_mem_singleton]
    exact Pass.inBounds_iff.mpr (.inl rfl)
  | cons m ms ih =>
    rw [List.forall_mem_cons] at hms
    obtain ⟨⟨hportion, hportion'⟩, hrest⟩ := fullReads_cons.mp hfull
    rw [List.flatMap_cons, passes_of_received
      (receiveMessage_full hms.1 (uninit 0) hportion hportion' _), List.forall_mem_cons]
    refine ⟨inBounds_frame _ _ hms.1.2.1 hportion, ?_⟩
    split_ifs
    · exact List.forall_mem_nil _
    · exact ih hms.2 hrest _

/-- A client that sends -1 as a length, and one whose message fills the buffer. -/
theorem outOfBounds :
    Pass.requests ⟨zeroWord, 4, 4, [0xFF, 0xFF, 0xFF, 0xFF, 0x61]⟩ = [4, 2 ^ 64 - 1] ∧
    Pass.terminator ⟨zeroWord, 4, 1024, frame (List.replicate 1024 0x61)⟩ = some 1024 ∧
    ¬ ∀ (uninit : ℕ → Word) (portions : ℕ → ℕ+) (stream : Bytes),
      ∀ p ∈ passes uninit portions stream, p.InBounds := by
  have hrequests :
      Pass.requests ⟨zeroWord, 4, 4, [0xFF, 0xFF, 0xFF, 0xFF, 0x61]⟩ = [4, 2 ^ 64 - 1] := by
    decide
  have hterminator :
      Pass.terminator ⟨zeroWord, 4, 1024, frame (List.replicate 1024 0x61) ++ []⟩ = some 1024 :=
    terminator_frame zeroWord [] List.length_replicate (by decide) (by
      rw [List.length_replicate]; decide)
  rw [List.append_nil] at hterminator
  refine ⟨hrequests, hterminator, fun h => ?_⟩
  have hbounds := h (fun _ => zeroWord) (fun _ => 4) [0xFF, 0xFF, 0xFF, 0xFF, 0x61]
    ⟨zeroWord, 4, 4, [0xFF, 0xFF, 0xFF, 0xFF, 0x61]⟩ (by rw [passes]; exact List.mem_cons_self)
  have hrequest := hbounds.requests (2 ^ 64 - 1) (by rw [hrequests]; decide)
  exact absurd hrequest (by decide)

end BuildYourOwnStuff.ChatServer
