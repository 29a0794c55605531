import BuildYourOwnStuff.ChatRoom.Message
import BuildYourOwnStuff.ChatRoom.Room
import BuildYourOwnStuff.Foundations.Lines

/-!
# Sessions

A session makes a message of each line it receives, and the room writes it to the
other sessions. Such a message has at most 512 bytes, so a longer line loses its end
and its newline; shorter lines reach the others as they were sent.
-/

namespace BuildYourOwnStuff.ChatRoom

open Foundations

/-- A call of `async_write`. -/
structure AsyncWrite where
  messageBody : Bytes
  messageLength : ℕ
  deriving DecidableEq, Repr

/-- The queue of a session, and its calls of `async_write` so far. -/
structure Session where
  messageQueue : List Message
  asyncWrites : List AsyncWrite

namespace Session

/-- The loop of `write`; `none` if a message does not have all of its body. -/
def drain (asyncWrites : List AsyncWrite) : List Message → Option Session
  | [] => some ⟨[], asyncWrites⟩
  | message :: messageQueue =>
    let (message, headerDecode) := message.decodeHeader
    if headerDecode then do
      let body ← message.getBody
      drain (asyncWrites ++ [⟨body, message.getBodyLength⟩]) messageQueue
    else drain asyncWrites messageQueue

def write (s : Session) (message : Message) : Option Session :=
  drain s.asyncWrites (s.messageQueue ++ [message])

end Session

/-- What happens on the sockets: a session starts, receives a line, or is closed. The
bytes `uninit` are in the memory of the message that is made of the line. -/
inductive SocketEvent (π : Type)
  | start (session : π)
  | line (session : π) (text : Bytes) (uninit : Data)
  | closed (session : π)
  deriving DecidableEq

/-- The room and the session at each pointer. -/
structure Server (π : Type) where
  room : Room π Message
  sessions : π → Session

namespace Server

variable {π : Type} [LinearOrder π]

/-- The event for the room: the handler of `async_read` passes on the line with its newline. -/
def toEvent : SocketEvent π → Event π Message
  | .start session => .join session
  | .line session text uninit => .deliver session (.ofString uninit (text ++ [newline]))
  | .closed session => .leave session

def perform (sessions : π → Session) : List (WriteCall π Message) → Option (π → Session)
  | [] => some sessions
  | call :: calls => do
    let s ← (sessions call.participant).write call.message
    perform (Function.update sessions call.participant s) calls

def step (server : Server π) (e : SocketEvent π) : Option (Server π) := do
  let (room, calls) := server.room.handle (toEvent e)
  let sessions ← perform server.sessions calls
  return ⟨room, sessions⟩

/-- An empty room, and sessions that have written nothing. -/
def init : Server π := ⟨Room.empty, fun _ => ⟨[], []⟩⟩

def run (events : List (SocketEvent π)) : Option (Server π) := events.foldlM step init

/-- The call that hands over a line. -/
def handed (text : Bytes) : AsyncWrite :=
  ⟨(text ++ [newline]).take maxBytes, ((text ++ [newline]).take maxBytes).length⟩

/-- The call of `async_write` that a message gets. -/
def callFor (message : Message) : AsyncWrite :=
  ⟨message.getBody.getD [], message.getBodyLength⟩

theorem callFor_ofString (uninit : Data) (text : Bytes) :
    callFor (.ofString uninit (text ++ [newline])) = handed text := by
  rw [callFor, Message.getBody_ofString, Message.getBodyLength_ofString]
  rfl

/-- The message is made of a string. -/
def FromString (message : Message) : Prop := ∃ uninit s, message = .ofString uninit s

theorem write_fromString {s : Session} (h : s.messageQueue = []) {message : Message}
    (hmessage : FromString message) :
    s.write message = some ⟨[], s.asyncWrites ++ [callFor message]⟩ := by
  obtain ⟨uninit, t, rfl⟩ := hmessage
  rw [Session.write, h, List.nil_append, Session.drain, Message.decodeHeader_ofString]
  simp [Message.getBody_ofString, callFor, Session.drain]

/-- The sessions after some calls, one call for each message written to them. -/
theorem perform_eq_some {calls : List (WriteCall π Message)}
    (hcalls : ∀ c ∈ calls, FromString c.message) {sessions : π → Session}
    (hqueues : ∀ q, (sessions q).messageQueue = []) :
    perform sessions calls = some fun q =>
      ⟨[], (sessions q).asyncWrites ++ (Room.written q calls).map callFor⟩ := by
  induction calls generalizing sessions with
  | nil =>
    apply congrArg some
    funext q
    rw [Room.written_nil, List.map_nil, List.append_nil, ← hqueues q]
  | cons call calls ih =>
    rw [List.forall_mem_cons] at hcalls
    rw [perform, write_fromString (hqueues _) hcalls.1]
    change perform (Function.update sessions call.participant _) calls = _
    rw [ih hcalls.2]
    · apply congrArg some
      funext q
      by_cases hq : call.participant = q
      · subst hq
        simp [Room.written]
      · simp [Room.written, hq, Ne.symm hq]
    · intro q
      by_cases hq : q = call.participant
      · simp [hq]
      · simp [hq, hqueues]

theorem fromString_of_mem_handle {room : Room π Message} (h : room.messageQueue = [])
    {e : SocketEvent π} {c : WriteCall π Message} (hc : c ∈ (room.handle (toEvent e)).2) :
    FromString c.message := by
  cases e with
  | start session => cases hc
  | closed session => cases hc
  | line session text uninit =>
    rw [toEvent, Room.handle, Room.deliver_eq h, Room.writeToOthers] at hc
    obtain ⟨p, -, rfl⟩ := List.mem_map.mp hc
    exact ⟨uninit, _, rfl⟩

/-- Each session has handed over what the room has written to it. -/
theorem run_eq_some (events : List (SocketEvent π)) : run events =
    some ⟨(Room.run (events.map toEvent)).1, fun q =>
      ⟨[], (Room.written q (Room.run (events.map toEvent)).2).map callFor⟩⟩ := by
  induction events using List.reverseRecOn with
  | nil => rfl
  | append_singleton events e ih =>
    have hqueue := Room.messageQueue_run (events.map toEvent)
    rw [run, List.foldlM_append, ← run, ih, List.map_append, List.map_singleton, Room.run_concat]
    simp only [List.foldlM_cons, List.foldlM_nil, Option.bind_eq_bind, Option.bind_some, step]
    rw [perform_eq_some (fun c hc => fromString_of_mem_handle hqueue hc) (fun _ => rfl)]
    simp

/-- A session is in the room whenever a line is received. -/
def Present (q : π) (events : List (SocketEvent π)) : Prop :=
  ∀ pre session text uninit post, events = pre ++ .line session text uninit :: post →
    Room.Member q (pre.map toEvent)

/-- The lines that sessions other than `q` receive. -/
def linesOfOthers (q : π) (events : List (SocketEvent π)) : List Bytes :=
  events.filterMap fun e =>
    match e with
    | .line session text _ => if session ≠ q then some text else none
    | _ => none

omit [LinearOrder π] in
theorem present_start {q : π} {events : List (SocketEvent π)} (h : .closed q ∉ events) :
    Present q (.start q :: events) := by
  intro pre session text uninit post heq
  rcases pre with _ | ⟨e, pre⟩
  · cases heq
  · obtain ⟨rfl, rfl⟩ := List.cons.inj heq
    refine ⟨[], .join q, pre.map toEvent, rfl, rfl, fun event hmem hleave => ?_⟩
    obtain ⟨e, he, rfl⟩ := List.mem_map.mp hmem
    cases e with
    | closed session =>
      cases hleave
      exact h (List.mem_append_left _ he)
    | start session => cases hleave
    | line session text uninit => cases hleave

theorem due_of_present {q : π} {events : List (SocketEvent π)} (h : Present q events) :
    (Room.due q (events.map toEvent)).map callFor = (linesOfOthers q events).map handed := by
  induction events using List.reverseRecOn with
  | nil => rfl
  | append_singleton events e ih =>
    have hpre : Present q events := by
      rintro pre session text uninit post rfl
      exact h pre session text uninit (post ++ [e]) (by simp)
    have hlines : linesOfOthers q (events ++ [e]) = linesOfOthers q events ++ linesOfOthers q [e] :=
      List.filterMap_append
    have hget : (events.map toEvent ++ [toEvent e])[(events.map toEvent).length]? =
        some (toEvent e) := by simp
    rw [List.map_append, List.map_singleton, Room.due_concat, List.map_append, ih hpre,
      Room.dueAt, hget, hlines, List.map_append, List.take_left]
    apply congrArg
    cases e with
    | start session => rfl
    | closed session => rfl
    | line session text uninit =>
      have hmember : Room.Member q (events.map toEvent) := h events session text uninit [] rfl
      by_cases hq : session = q
      · simp [toEvent, linesOfOthers, hq]
      · simp [toEvent, linesOfOthers, hq, hmember, callFor_ofString]

/-- What is handed over for a session that is present at every line. -/
theorem asyncWrites_of_present {q : π} {events : List (SocketEvent π)} (h : Present q events) :
    ∃ server, run events = some server ∧
      (server.sessions q).asyncWrites = (linesOfOthers q events).map handed := by
  refine ⟨_, run_eq_some events, ?_⟩
  change (Room.written q (Room.run (events.map toEvent)).2).map callFor = _
  rw [Room.written_run, due_of_present h]

/-- The concatenation of the bodies handed over for a session. -/
def bytesFor (server : Server π) (q : π) : Bytes :=
  (server.sessions q).asyncWrites.flatMap AsyncWrite.messageBody

theorem handed_of_length_lt {text : Bytes} (h : text.length < maxBytes) :
    (handed text).messageBody = text ++ [newline] := by
  apply List.take_of_length_le
  rw [List.length_append]
  exact h

/-- A session that is present at every line is handed one body for each line of the
others, in order: the first 512 bytes of the line with its newline. If all these lines
are shorter than that, the bodies split at newlines are the lines. -/
theorem lines_handed (q : π) (events : List (SocketEvent π)) (hpresent : Present q events)
    (htext : ∀ text ∈ linesOfOthers q events, newline ∉ text) :
    ∃ server, run events = some server ∧
      (server.sessions q).asyncWrites = (linesOfOthers q events).map handed ∧
      ((∀ text ∈ linesOfOthers q events, text.length < maxBytes) →
        lines newline (server.bytesFor q) = linesOfOthers q events) := by
  obtain ⟨server, hrun, hwrites⟩ := asyncWrites_of_present hpresent
  refine ⟨server, hrun, hwrites, fun hshort => ?_⟩
  have hbytes : server.bytesFor q =
      (linesOfOthers q events).flatMap (fun text => text ++ [newline]) ++ [] := by
    rw [bytesFor, hwrites, List.flatMap_map, List.append_nil]
    exact List.flatMap_congr fun text h => handed_of_length_lt (hshort text h)
  rw [hbytes, lines_terminated htext, lines_nil, List.append_nil]

/-- The bytes in memory before a message is made there. -/
def zeros : Data := ⟨List.replicate (header + maxBytes) 0, List.length_replicate⟩

/-- Of three lines, one of which is empty, and one that the session has sent itself. -/
theorem lines_handed_several : ∃ server : Server ℕ,
    run [.start 1, .start 0, .line 0 [0x61] zeros, .line 1 [0x62] zeros, .start 2,
        .line 2 [] zeros, .line 0 [0x63, 0x64] zeros] = some server ∧
      (server.sessions 1).asyncWrites = [handed [0x61], handed [], handed [0x63, 0x64]] ∧
      ((∀ text ∈ ([[0x61], [], [0x63, 0x64]] : List Bytes), text.length < maxBytes) →
        lines newline (server.bytesFor 1) = [[0x61], [], [0x63, 0x64]]) :=
  lines_handed 1 [.start 1, .start 0, .line 0 [0x61] zeros, .line 1 [0x62] zeros, .start 2,
    .line 2 [] zeros, .line 0 [0x63, 0x64] zeros] (present_start (by decide)) (by decide)

/-- A line of 512 bytes is joined with the next one. -/
theorem lines_joined : ¬ ∀ (q : ℕ) (events : List (SocketEvent ℕ)), Present q events →
    (∀ text ∈ linesOfOthers q events, newline ∉ text) →
    ∃ server, run events = some server ∧
      lines newline (server.bytesFor q) = linesOfOthers q events := by
  intro h
  have hpresent : Present 1 [.start 1, .line 0 (List.replicate 512 0x61) zeros,
      .line 0 [0x62] zeros] := by
    apply present_start
    intro hmem
    rcases List.mem_pair.mp hmem with heq | heq <;> cases heq
  obtain ⟨server, hrun, hlines⟩ := h 1 _ hpresent (by
    intro text htext
    rcases List.mem_pair.mp htext with rfl | rfl
    · exact fun hmem => absurd (List.eq_of_mem_replicate hmem) (by decide)
    · decide)
  obtain ⟨server', hrun', hwrites⟩ := asyncWrites_of_present hpresent
  obtain rfl : server = server' := Option.some.inj (hrun.symm.trans hrun')
  have hbytes : server.bytesFor 1 = (List.replicate 512 0x61 ++ [0x62]) ++ newline :: [] := by
    have hlong : (handed (List.replicate 512 0x61)).messageBody = List.replicate 512 0x61 :=
      List.take_left' List.length_replicate
    rw [bytesFor, hwrites]
    change (handed (List.replicate 512 0x61)).messageBody ++ _ = _
    rw [hlong, List.append_assoc]
    rfl
  rw [hbytes, lines_append_sep] at hlines
  · exact absurd (congrArg List.length hlines) (by decide)
  · rw [List.mem_append, not_or]
    exact ⟨fun hmem => absurd (List.eq_of_mem_replicate hmem) (by decide), by decide⟩

end Server

end BuildYourOwnStuff.ChatRoom
