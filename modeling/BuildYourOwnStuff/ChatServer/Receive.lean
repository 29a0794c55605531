import BuildYourOwnStuff.ChatServer.Server
import BuildYourOwnStuff.CppStd.CString

/-!
# Receiving messages

The loop of `handleClient` takes the length and the body of a message with one
call of `recv` each, whatever the call returns. It processes the messages that
were sent exactly when each call returns all the bytes it asks for and no
message before the last one is a logout.
-/

namespace BuildYourOwnStuff.ChatServer

open Foundations GoStd CppStd

def bufferSize : ℕ := 1024

/-- A call of `recv` returns no more than the portion that has arrived and no more
than is requested, and nothing only if nothing is requested or to come. -/
def recv (portion : ℕ+) (requested : ℕ) (stream : Bytes) : Bytes × Bytes :=
  (stream.take (min (portion : ℕ) requested), stream.drop (min (portion : ℕ) requested))

/-- The memory of `msgLength`. -/
abbrev Word := { w : Bytes // w.length = 4 }

/-- `ntohl(msgLength)` as a `size_t`, when `recv` has written the first bytes of it. -/
def requestedLength (uninit : Word) (received : Bytes) : ℕ :=
  let n := beNat (received ++ uninit.1.drop received.length)
  if n < 2 ^ 31 then n else n + (2 ^ 64 - 2 ^ 32)

/-- How `handleClient` ends: the connection is closed, the client logs out, or bytes
are written past the end of the buffer. -/
inductive Ending
  | closed
  | logout
  | overflow
  deriving DecidableEq, Repr

/-- One turn of the loop up to `std::string message(buffer)`. -/
inductive Turn
  | ended (ending : Ending)
  | received (message : Bytes) (rest : Bytes)
  deriving DecidableEq, Repr

def receiveMessage (uninit : Word) (portion portion' : ℕ+) (stream : Bytes) : Turn :=
  let length := recv portion 4 stream
  if length.1 = [] then .ended .closed
  else
    let body := recv portion' (requestedLength uninit length.1) length.2
    if body.1 = [] then .ended .closed
    else if bufferSize ≤ body.1.length then .ended .overflow
    else .received (cString body.1) body.2

theorem length_of_received {uninit : Word} {portion portion' : ℕ+} {stream message rest : Bytes}
    (h : receiveMessage uninit portion portion' stream = .received message rest) :
    rest.length < stream.length := by
  have hportion := portion.pos
  simp only [receiveMessage] at h
  split_ifs at h with hlength
  cases h
  rw [recv, List.take_eq_nil_iff, not_or] at hlength
  have hpos := List.length_pos_of_ne_nil hlength.2
  simp only [recv, List.length_drop]
  omega

structure Handled where
  messages : List Bytes
  ending : Ending
  deriving DecidableEq, Repr

/-- The messages that `handleClient` processes of a stream that arrives in portions,
where `uninit k` is in the memory of `msgLength` in turn `k`. -/
def handleClient (uninit : ℕ → Word) (portions : ℕ → ℕ+) (stream : Bytes) : Handled :=
  match h : receiveMessage (uninit 0) (portions 0) (portions 1) stream with
  | .ended ending => ⟨[], ending⟩
  | .received message rest =>
    have := length_of_received h
    if IsLogout message then ⟨[message], .logout⟩
    else
      let handled := handleClient (fun k => uninit (k + 1)) (fun k => portions (k + 2)) rest
      ⟨message :: handled.messages, handled.ending⟩
termination_by stream.length

/-- What the client's `sendMessage` is given: no empty message, and none that does
not fit into the buffer of the server or has a zero byte. -/
def Sendable (m : Bytes) : Prop := m ≠ [] ∧ m.length < bufferSize ∧ 0 ∉ m

instance (m : Bytes) : Decidable (Sendable m) := inferInstanceAs (Decidable (_ ∧ _))

/-- Each call of `recv` returns all the bytes it asks for. -/
def FullReads (portions : ℕ → ℕ+) (ms : List Bytes) : Prop :=
  ∀ i m, ms[i]? = some m → 4 ≤ (portions (2 * i) : ℕ) ∧ m.length ≤ (portions (2 * i + 1) : ℕ)

theorem fullReads_cons {portions : ℕ → ℕ+} {m : Bytes} {ms : List Bytes} :
    FullReads portions (m :: ms) ↔
      (4 ≤ (portions 0 : ℕ) ∧ m.length ≤ (portions 1 : ℕ)) ∧
        FullReads (fun k => portions (k + 2)) ms := by
  constructor
  · intro h
    exact ⟨h 0 m rfl, fun i m' hm' => h (i + 1) m' hm'⟩
  · rintro ⟨hfirst, hrest⟩ i m' hm'
    cases i with
    | zero =>
      cases hm'
      exact hfirst
    | succ i => exact hrest i m' hm'

theorem handleClient_of_ended {uninit : ℕ → Word} {portions : ℕ → ℕ+} {stream : Bytes}
    {ending : Ending}
    (h : receiveMessage (uninit 0) (portions 0) (portions 1) stream = .ended ending) :
    handleClient uninit portions stream = ⟨[], ending⟩ := by
  rw [handleClient]
  split
  · rename_i hr
    rw [h] at hr
    cases hr
    rfl
  · rename_i hr
    rw [h] at hr
    cases hr

theorem handleClient_of_received {uninit : ℕ → Word} {portions : ℕ → ℕ+}
    {stream message rest : Bytes}
    (h : receiveMessage (uninit 0) (portions 0) (portions 1) stream = .received message rest) :
    (handleClient uninit portions stream).messages =
      if IsLogout message then [message]
      else message ::
        (handleClient (fun k => uninit (k + 1)) (fun k => portions (k + 2)) rest).messages := by
  rw [handleClient]
  split
  · rename_i hr
    rw [h] at hr
    cases hr
  · rename_i hr
    rw [h] at hr
    cases hr
    split_ifs <;> rfl

/-- A whole length leaves nothing of what was in memory. -/
theorem beNat_frameHeader {m : Bytes} (hm : m.length < 256 ^ 4) (uninit : Word) :
    beNat (frameHeader m ++ uninit.1.drop (frameHeader m).length) = m.length := by
  have hdrop : uninit.1.drop (frameHeader m).length = [] :=
    List.drop_of_length_le (by rw [uninit.2, frameHeader, length_beBytes])
  rw [hdrop, List.append_nil]
  exact beNat_beBytes hm

theorem recv_header {portion : ℕ+} (hportion : 4 ≤ (portion : ℕ)) (m s : Bytes) :
    recv portion 4 (frame m ++ s) = (frameHeader m, m ++ s) := by
  rw [recv, min_eq_right hportion, frame, List.append_assoc]
  exact Prod.ext (List.take_left' (length_beBytes 4 _)) (List.drop_left' (length_beBytes 4 _))

/-- With full reads a turn takes one frame. -/
theorem receiveMessage_full {m : Bytes} (hm : Sendable m) (uninit : Word) {portion portion' : ℕ+}
    (hportion : 4 ≤ (portion : ℕ)) (hportion' : m.length ≤ (portion' : ℕ)) (s : Bytes) :
    receiveMessage uninit portion portion' (frame m ++ s) = .received m s := by
  obtain ⟨hne, hlength, hzero⟩ := hm
  have hheader := recv_header hportion m s
  have hrequested : requestedLength uninit (frameHeader m) = m.length := by
    rw [requestedLength, beNat_frameHeader (hlength.trans (by decide))]
    exact if_pos (hlength.trans (by decide))
  have hbody : recv portion' m.length (m ++ s) = (m, s) := by
    rw [recv, min_eq_right hportion']
    exact Prod.ext List.take_left List.drop_left
  have hheader_ne : frameHeader m ≠ [] := by
    intro h
    have := congrArg List.length h
    simp [frameHeader] at this
  simp only [receiveMessage, hheader, hrequested, hbody]
  rw [if_neg hheader_ne, if_neg hne, if_neg (by omega), cString_eq_self hzero]

theorem message_of_received {uninit : Word} {portion portion' : ℕ+} {stream message rest : Bytes}
    (h : receiveMessage uninit portion portion' stream = .received message rest) :
    message = cString (((stream.drop (min (portion : ℕ) 4)).take (min (portion' : ℕ)
      (requestedLength uninit (stream.take (min (portion : ℕ) 4)))))) := by
  simp only [receiveMessage] at h
  split_ifs at h
  cases h
  rfl

/-- A message is no longer than the portion and the request that brought it. -/
theorem length_message_le {uninit : Word} {portion portion' : ℕ+} {stream message rest : Bytes}
    (h : receiveMessage uninit portion portion' stream = .received message rest) :
    message.length ≤ (portion' : ℕ) ∧
      message.length ≤ requestedLength uninit (stream.take (min (portion : ℕ) 4)) := by
  rw [message_of_received h]
  have hle := (List.takeWhile_sublist (fun b : UInt8 => b != 0) (l :=
    (stream.drop (min (portion : ℕ) 4)).take (min (portion' : ℕ)
      (requestedLength uninit (stream.take (min (portion : ℕ) 4)))))).length_le
  rw [List.length_take] at hle
  rw [cString]
  omega

theorem frameHeader_of_length_lt {m : Bytes} (h : m.length < bufferSize) :
    frameHeader m = [0, 0, UInt8.ofNat (m.length / 256), UInt8.ofNat m.length] := by
  rw [bufferSize] at h
  have hhigh : m.length / 256 / 256 = 0 := by omega
  simp [frameHeader, beBytes, leBytes, hhigh]

/-- Memory that happens to be zero. -/
def zeroWord : Word := ⟨[0, 0, 0, 0], rfl⟩

/-- Three bytes of a length over zeros are the length without its lowest byte. -/
theorem requestedLength_upper {n : ℕ} (hn : n < 2 ^ 16) :
    requestedLength zeroWord [0, 0, UInt8.ofNat (n / 256)] = 256 * (n / 256) := by
  have hhigh : (UInt8.ofNat (n / 256)).toNat = n / 256 := by
    rw [UInt8.toNat_ofNat']
    omega
  have hbe : beNat [0, 0, UInt8.ofNat (n / 256), 0] = 256 * (n / 256) := by
    simp only [beNat, List.reverse_cons, List.reverse_nil, List.nil_append, List.cons_append,
      leNat, hhigh]
    simp
  change (if beNat [0, 0, UInt8.ofNat (n / 256), 0] < 2 ^ 31 then _ else _) = _
  rw [hbe, if_pos (by omega)]
  exact hbe

/-- Over zeros, a message is received as it was sent only if both calls return all
the bytes they ask for. -/
theorem full_of_received {m : Bytes} (hm : Sendable m) {portion portion' : ℕ+} {s rest : Bytes}
    (h : receiveMessage zeroWord portion portion' (frame m ++ s) = .received m rest) :
    4 ≤ (portion : ℕ) ∧ m.length ≤ (portion' : ℕ) := by
  obtain ⟨hle, hrequested⟩ := length_message_le h
  refine ⟨?_, hle⟩
  by_contra hshort
  obtain ⟨hne, hlength, -⟩ := hm
  have hpos := List.length_pos_of_ne_nil hne
  have hmin : min (portion : ℕ) 4 = portion := min_eq_left (by omega)
  have hportion := portion.pos
  have hmessage := message_of_received h
  rw [hmin] at hrequested hmessage
  rw [frame, frameHeader_of_length_lt hlength] at hrequested hmessage
  rw [bufferSize] at hlength
  have hcases : (portion : ℕ) = 1 ∨ (portion : ℕ) = 2 ∨ (portion : ℕ) = 3 := by omega
  rcases hcases with hone | htwo | hthree
  · rw [hone] at hrequested
    change m.length ≤ requestedLength zeroWord [0] at hrequested
    have hzero : requestedLength zeroWord [0] = 0 := by decide
    omega
  · rw [htwo] at hrequested
    change m.length ≤ requestedLength zeroWord [0, 0] at hrequested
    have hzero : requestedLength zeroWord [0, 0] = 0 := by decide
    omega
  · -- the length is at most the upper bytes, so its lowest byte, which is left for the body, is 0
    rw [hthree] at hrequested hmessage
    change m.length ≤ requestedLength zeroWord [0, 0, UInt8.ofNat (m.length / 256)] at hrequested
    rw [requestedLength_upper (by omega)] at hrequested
    have hlow : UInt8.ofNat m.length = 0 := by
      apply UInt8.toNat_inj.mp
      rw [UInt8.toNat_ofNat']
      change m.length % 2 ^ 8 = 0
      omega
    have hnil : m = [] := by
      rw [hmessage]
      change cString ((UInt8.ofNat m.length :: (m ++ s)).take _) = []
      rw [hlow]
      rcases min (portion' : ℕ) _ with _ | n <;> rfl
    exact hne hnil

theorem forall_mem_dropLast_cons {m : Bytes} {ms : List Bytes} {P : Bytes → Prop} :
    (∀ m' ∈ (m :: ms).dropLast, P m') ↔ (ms ≠ [] → P m) ∧ ∀ m' ∈ ms.dropLast, P m' := by
  rcases ms with _ | ⟨m', ms⟩
  · simp
  · rw [List.dropLast_cons_of_ne_nil (by simp), List.forall_mem_cons]
    simp

/-- Memory with the given bytes in the first turn. -/
def firstWord (w : Word) (uninit : ℕ → Word) : ℕ → Word
  | 0 => w
  | k + 1 => uninit k

/-- If the first message is processed over zeros, it was read in full. -/
theorem full_of_processed {m : Bytes} (hm : Sendable m) {ms : List Bytes} {portions : ℕ → ℕ+}
    {s : Bytes} {uninit : ℕ → Word} (hzero : uninit 0 = zeroWord)
    (h : (handleClient uninit portions (frame m ++ s)).messages = m :: ms) :
    4 ≤ (portions 0 : ℕ) ∧ m.length ≤ (portions 1 : ℕ) := by
  cases hturn : receiveMessage (uninit 0) (portions 0) (portions 1) (frame m ++ s) with
  | ended ending =>
    rw [handleClient_of_ended hturn] at h
    cases h
  | received message rest =>
    rw [handleClient_of_received hturn] at h
    have hmessage : message = m := by
      split_ifs at h
      · exact (List.cons.inj h).1
      · exact (List.cons.inj h).1
    rw [hmessage, hzero] at hturn
    exact full_of_received hm hturn

/-- The messages of a stream of frames are processed, whatever was in memory, exactly
when each call of `recv` returns all the bytes it asks for and no message but the
last one is a logout. -/
theorem processed_iff (ms : List Bytes) (hms : ∀ m ∈ ms, Sendable m) (portions : ℕ → ℕ+) :
    (∀ uninit, (handleClient uninit portions (ms.flatMap frame)).messages = ms) ↔
      FullReads portions ms ∧ ∀ m ∈ ms.dropLast, ¬ IsLogout m := by
  induction ms generalizing portions with
  | nil =>
    refine ⟨fun _ => ⟨fun i m hm => by simp at hm, nofun⟩, fun _ uninit => ?_⟩
    have hended : receiveMessage (uninit 0) (portions 0) (portions 1) [] = .ended .closed := by
      simp [receiveMessage, recv]
    rw [List.flatMap_nil, handleClient_of_ended hended]
  | cons m ms ih =>
    rw [List.forall_mem_cons] at hms
    have hturn : 4 ≤ (portions 0 : ℕ) ∧ m.length ≤ (portions 1 : ℕ) → ∀ uninit,
        (handleClient uninit portions (frame m ++ ms.flatMap frame)).messages =
          if IsLogout m then [m]
          else m :: (handleClient (fun k => uninit (k + 1)) (fun k => portions (k + 2))
            (ms.flatMap frame)).messages :=
      fun hfull uninit => handleClient_of_received
        (receiveMessage_full hms.1 (uninit 0) hfull.1 hfull.2 _)
    rw [List.flatMap_cons, fullReads_cons, forall_mem_dropLast_cons]
    constructor
    · intro h
      have hfull := full_of_processed hms.1 rfl (h (firstWord zeroWord fun _ => zeroWord))
      by_cases hlogout : IsLogout m
      · have hnil : ms = [] := by
          have hone := h fun _ => zeroWord
          rw [hturn hfull, if_pos hlogout] at hone
          exact (List.cons.inj hone).2.symm
        subst hnil
        exact ⟨⟨hfull, fun i m' hm' => by simp at hm'⟩, fun hne => absurd rfl hne, nofun⟩
      · have htail := (ih hms.2 fun k => portions (k + 2)).mp fun uninit => by
          have hall := h (firstWord zeroWord uninit)
          rw [hturn hfull, if_neg hlogout] at hall
          exact (List.cons.inj hall).2
        exact ⟨⟨hfull, htail.1⟩, fun _ => hlogout, htail.2⟩
    · rintro ⟨⟨hfull, hrest⟩, hfirst, hlogout⟩ uninit
      rw [hturn hfull]
      rcases eq_or_ne ms [] with rfl | hne
      · split_ifs
        · rfl
        · rw [(ih hms.2 _).mpr ⟨hrest, hlogout⟩]
      · rw [if_neg (hfirst hne), (ih hms.2 _).mpr ⟨hrest, hlogout⟩]

theorem processed_two : (handleClient (fun _ => zeroWord) (fun _ => 4)
    ([[0x61, 0x62], [0x63]].flatMap frame)).messages = [[0x61, 0x62], [0x63]] := by
  apply (processed_iff [[0x61, 0x62], [0x63]] (by decide) fun _ => 4).mpr
  refine ⟨?_, by decide⟩
  rintro (_ | _ | i) m hm <;> cases hm <;> decide

/-- A length that arrives byte by byte ends the connection. -/
theorem processed_fails : ¬ ∀ (ms : List Bytes) (portions : ℕ → ℕ+), (∀ m ∈ ms, Sendable m) →
    ∀ uninit, (handleClient uninit portions (ms.flatMap frame)).messages = ms := by
  intro h
  have hmessages := h [[0x61]] (fun _ => 1) (by decide) fun _ => zeroWord
  have hended : receiveMessage zeroWord 1 1 ([[0x61]].flatMap frame) = .ended .closed := by decide
  rw [handleClient_of_ended hended] at hmessages
  cases hmessages

end BuildYourOwnStuff.ChatServer
