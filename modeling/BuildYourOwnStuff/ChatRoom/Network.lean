import BuildYourOwnStuff.ChatRoom.Reader
import BuildYourOwnStuff.ChatRoom.Session
import BuildYourOwnStuff.ChatRoom.Client

/-!
# The chat room over its connections

The handlers of all sessions run one at a time, in an order that depends on when
connections are accepted, bytes arrive and connections fail. Each session delivers the
lines of the stream it receives, in order, and all participants are handed what others
deliver in the order in which the handlers have run.
-/

namespace BuildYourOwnStuff.ChatRoom

open Foundations CppStd

/-- Before a connection is accepted, while a read of its session is pending, and after a read
has failed. -/
inductive Phase
  | waiting
  | reading
  | closed
  deriving DecidableEq, Repr

/-- The stream buffer of a session, and the bytes that have arrived at its socket and are still
to be read. -/
structure Connection where
  phase : Phase
  buffer : Bytes
  unread : Bytes
  deriving DecidableEq, Repr

/-- What happens to a connection. -/
inductive Happening
  /-- The handler of `async_accept` makes a session and starts it. -/
  | accept
  | arrive (chunk : Bytes)
  /-- `async_read_until` reads some bytes of the socket into the buffer. -/
  | receive (count : ℕ)
  /-- The handler of `async_read_until` without an error. -/
  | complete (uninit : Data)
  /-- The same with an error, such as the end of the stream. -/
  | fail
  deriving DecidableEq

/-- The session that does something. -/
def SocketEvent.session {π : Type} : SocketEvent π → π
  | start session => session
  | line session _ _ => session
  | closed session => session

/-- The bytes that arrive. -/
def Happening.bytes : Happening → Bytes
  | arrive chunk => chunk
  | _ => []

namespace Connection

/-- The connection after something that happens to it, and what its session does. A read takes
bytes of the socket, or fails, only while there is no newline in the buffer. -/
def step {π : Type} (c : Connection) (p : π) : Happening → Connection × Option (SocketEvent π)
  | .accept =>
    if c.phase = .waiting then ({ c with phase := .reading }, some (.start p)) else (c, none)
  | .arrive chunk => ({ c with unread := c.unread ++ chunk }, none)
  | .receive count =>
    if c.phase = .reading ∧ newline ∉ c.buffer then
      ({ c with buffer := c.buffer ++ c.unread.take count, unread := c.unread.drop count }, none)
    else (c, none)
  | .complete uninit =>
    if c.phase = .reading then
      match cut newline c.buffer with
      | some (text, rest) => ({ c with buffer := rest }, some (.line p text uninit))
      | none => (c, none)
    else (c, none)
  | .fail =>
    if c.phase = .reading ∧ newline ∉ c.buffer then
      ({ c with phase := .closed }, some (.closed p))
    else (c, none)

/-- What is not delivered yet. -/
def pending (c : Connection) : Bytes := c.buffer ++ c.unread

/-- What a session can do, with its connection before and after. -/
inductive Acts {π : Type} (c : Connection) (p : π) : Connection → SocketEvent π → Prop
  | start (hphase : c.phase = .waiting) : Acts c p { c with phase := .reading } (.start p)
  | line {text rest : Bytes} (uninit : Data) (hphase : c.phase = .reading)
    (hbuffer : c.buffer = text ++ newline :: rest) (htext : newline ∉ text) :
    Acts c p { c with buffer := rest } (.line p text uninit)
  | closed (hphase : c.phase = .reading) (hbuffer : newline ∉ c.buffer) :
    Acts c p { c with phase := .closed } (.closed p)

/-- The session does something, or the bytes that arrive are added to what is pending. -/
theorem step_cases {π : Type} (c : Connection) (p : π) (h : Happening) :
    (∃ c', c.step p h = (c', none) ∧ c'.phase = c.phase ∧ c'.pending = c.pending ++ h.bytes) ∨
      ∃ c' e, c.step p h = (c', some e) ∧ h.bytes = [] ∧ Acts c p c' e := by
  have hsame : h.bytes = [] → c.step p h = (c, none) →
      ∃ c', c.step p h = (c', none) ∧ c'.phase = c.phase ∧ c'.pending = c.pending ++ h.bytes :=
    fun hbytes hstep => ⟨c, hstep, rfl, by rw [hbytes, List.append_nil]⟩
  cases h with
  | accept =>
    by_cases hphase : c.phase = .waiting
    · exact .inr ⟨_, _, if_pos hphase, rfl, .start hphase⟩
    · exact .inl (hsame rfl (if_neg hphase))
  | arrive chunk => exact .inl ⟨_, rfl, rfl, by simp [pending, Happening.bytes]⟩
  | receive count =>
    by_cases hread : c.phase = .reading ∧ newline ∉ c.buffer
    · exact .inl ⟨_, if_pos hread, rfl, by simp [pending, Happening.bytes]⟩
    · exact .inl (hsame rfl (if_neg hread))
  | complete uninit =>
    by_cases hphase : c.phase = .reading
    · by_cases hmem : newline ∈ c.buffer
      · obtain ⟨text, rest, hbuffer, htext⟩ := List.eq_append_cons_of_mem hmem
        refine .inr ⟨{ c with buffer := rest }, .line p text uninit, ?_, rfl,
          .line uninit hphase hbuffer htext⟩
        simp [step, hphase, hbuffer, cut_append_sep htext]
      · exact .inl (hsame rfl (by simp [step, cut, hmem]))
    · exact .inl (hsame rfl (if_neg hphase))
  | fail =>
    by_cases hread : c.phase = .reading ∧ newline ∉ c.buffer
    · exact .inr ⟨_, _, if_pos hread, rfl, .closed hread.1 hread.2⟩
    · exact .inl (hsame rfl (if_neg hread))

theorem Acts.session {π : Type} {c c' : Connection} {p : π} {e : SocketEvent π}
    (h : Acts c p c' e) : e.session = p := by
  cases h <;> rfl

end Connection

/-- The server, the connection of each session, and what the sessions have done so far, which
is not read. -/
structure Network (π : Type) where
  server : Server π
  connections : π → Connection
  handled : List (SocketEvent π)

namespace Network

variable {π : Type} [LinearOrder π]

def init : Network π := ⟨Server.init, fun _ => ⟨.waiting, [], []⟩, []⟩

/-- Something happens to the connection of a session. -/
def step (n : Network π) (e : π × Happening) : Option (Network π) :=
  match (n.connections e.1).step e.1 e.2 with
  | (c, none) => some { n with connections := Function.update n.connections e.1 c }
  | (c, some event) => do
    let server ← n.server.step event
    return ⟨server, Function.update n.connections e.1 c, n.handled ++ [event]⟩

def run (events : List (π × Happening)) : Option (Network π) := events.foldlM step init

/-- The bytes that arrive for a session. -/
def arrived (p : π) (events : List (π × Happening)) : Bytes :=
  (events.filter fun e => e.1 = p).flatMap fun e => e.2.bytes

/-- The lines that a session delivers. -/
def linesOf (p : π) (handled : List (SocketEvent π)) : List Bytes :=
  handled.filterMap fun event =>
    match event with
    | .line session text _ => if session = p then some text else none
    | _ => none

/-- What the sessions do while a session is in the room. -/
inductive Attended (q : π) : Phase → List (SocketEvent π) → List (SocketEvent π) → Prop
  | waiting {pre : List (SocketEvent π)} (hpre : ∀ e ∈ pre, e.session ≠ q) :
    Attended q .waiting pre []
  | reading {pre during : List (SocketEvent π)} (hpre : ∀ e ∈ pre, e.session ≠ q)
    (hduring : .closed q ∉ during) :
    Attended q .reading (pre ++ .start q :: during) during
  | closed {pre during post : List (SocketEvent π)} (hpre : ∀ e ∈ pre, e.session ≠ q)
    (hduring : .closed q ∉ during) (hpost : ∀ e ∈ post, e.session ≠ q) :
    Attended q .closed (pre ++ .start q :: during ++ .closed q :: post) during

omit [LinearOrder π] in
theorem Attended.other {q : π} {phase : Phase} {events during : List (SocketEvent π)}
    (h : Attended q phase events during) {e : SocketEvent π} (he : e.session ≠ q) :
    Attended q phase (events ++ [e]) (if phase = .reading then during ++ [e] else during) := by
  have hclosed : e ≠ .closed q := by
    rintro rfl
    exact he rfl
  have hconcat : ∀ {l : List (SocketEvent π)}, (∀ e ∈ l, e.session ≠ q) →
      ∀ e' ∈ l ++ [e], e'.session ≠ q := fun hl =>
    List.forall_mem_append.mpr ⟨hl, List.forall_mem_singleton.mpr he⟩
  cases h with
  | waiting hpre => exact .waiting (hconcat hpre)
  | reading hpre hduring =>
    rw [if_pos rfl, List.append_assoc, List.cons_append]
    exact .reading hpre (by simp [hduring, hclosed.symm])
  | closed hpre hduring hpost =>
    rw [List.append_assoc, List.cons_append]
    exact .closed hpre hduring (hconcat hpost)

omit [LinearOrder π] in
/-- A session is in the room while its read is pending. -/
theorem Attended.member_iff {q : π} {phase : Phase} {events during : List (SocketEvent π)}
    (h : Attended q phase events during) :
    Room.Member q (events.map Server.toEvent) ↔ phase = .reading := by
  have hsilent : ∀ {l : List (SocketEvent π)}, (∀ e ∈ l, e.session ≠ q) →
      ∀ e ∈ l.map Server.toEvent, ¬ e = .join q ∧ ¬ e = .leave q := by
    intro l hl e he
    obtain ⟨event, hevent, rfl⟩ := List.mem_map.mp he
    have hne := hl event hevent
    cases event <;> simp_all [Server.toEvent, SocketEvent.session]
  cases h with
  | waiting hpre =>
    have h := since_append (l := []) (hsilent hpre)
    rw [List.nil_append] at h
    simp [Room.Member, h]
  | reading hpre hduring =>
    refine iff_of_true ⟨_, .join q, _, List.map_append, rfl, ?_⟩ rfl
    intro e he hleave
    obtain ⟨event, hevent, rfl⟩ := List.mem_map.mp he
    cases event <;> cases hleave
    exact hduring hevent
  | closed hpre hduring hpost =>
    rw [Room.Member, List.map_append, List.map_cons, List.append_cons, since_append (hsilent hpost),
      since_concat]
    simp [Server.toEvent]

omit [LinearOrder π] in
/-- What a session does while it is in the room. -/
theorem Attended.own {q : π} {events during : List (SocketEvent π)}
    (h : Attended q .reading events during) {e : SocketEvent π} (he : e ≠ .closed q) :
    Attended q .reading (events ++ [e]) (during ++ [e]) := by
  cases h with
  | reading hpre hduring =>
    rw [List.append_assoc, List.cons_append]
    exact .reading hpre (by simp [hduring, he.symm])

/-- What an event hands over for a session that is in the room before it. -/
theorem asyncWrites_step {events : List (SocketEvent π)} {server : Server π}
    (h : Server.run events = some server) (e : SocketEvent π) :
    ∃ server', server.step e = some server' ∧ Server.run (events ++ [e]) = some server' ∧
      ∀ q, (server'.sessions q).asyncWrites = (server.sessions q).asyncWrites ++
        if Room.Member q (events.map Server.toEvent) then
          (Server.linesOfOthers q [e]).map Server.handed else [] := by
  have hrun := Server.run_eq_some (events ++ [e])
  have hstep : Server.run (events ++ [e]) = server.step e := by
    rw [Server.run, List.foldlM_append, ← Server.run, h]
    simp
  obtain rfl := Option.some.inj (h.symm.trans (Server.run_eq_some events))
  refine ⟨_, hstep.symm.trans hrun, hrun, fun q => ?_⟩
  simp only [List.map_append, List.map_singleton, Room.run_concat, Room.written_append]
  congr 1
  cases e with
  | start session => simp [Server.toEvent, Room.handle, Server.linesOfOthers]
  | closed session => simp [Server.toEvent, Room.handle, Server.linesOfOthers]
  | line session text uninit =>
    have hmem := Room.mem_participants_run (q := q) (events.map Server.toEvent)
    rw [Server.toEvent, Room.handle, Room.deliver_eq (Room.messageQueue_run _),
      Room.written_writeToOthers]
    by_cases hmember : Room.Member q (events.map Server.toEvent)
    · by_cases hq : session = q
      · simp [hq, Server.linesOfOthers]
      · simp [hq, Ne.symm hq, hmem, hmember, Server.linesOfOthers, Server.callFor_ofString]
    · simp [hmem, hmember]

theorem linesOf_concat (p : π) (handled : List (SocketEvent π)) (e : SocketEvent π) :
    linesOf p (handled ++ [e]) = linesOf p handled ++ linesOf p [e] :=
  List.filterMap_append

theorem linesOf_of_ne {q : π} {e : SocketEvent π} (h : e.session ≠ q) : linesOf q [e] = [] := by
  cases e with
  | line session text uninit =>
    have hne : session ≠ q := h
    simp [linesOf, hne]
  | _ => rfl

/-- What a session delivers is taken from what is pending. -/
theorem pending_of_acts {p : π} {c c' : Connection} {e : SocketEvent π} (hact : c.Acts p c' e) :
    c.pending = Client.stream (linesOf p [e]) ++ c'.pending ∧ ∀ l ∈ linesOf p [e], newline ∉ l := by
  cases hact with
  | start hphase => exact ⟨rfl, by simp [linesOf]⟩
  | closed hphase hbuffer => exact ⟨rfl, by simp [linesOf]⟩
  | line uninit hphase hbuffer htext =>
    simp [linesOf, Client.stream, Connection.pending, hbuffer, htext]

theorem arrived_concat (p : π) (events : List (π × Happening)) (e : π × Happening) :
    arrived p (events ++ [e]) = arrived p events ++ if e.1 = p then e.2.bytes else [] := by
  rw [arrived, List.filter_append, List.flatMap_append, ← arrived]
  by_cases h : e.1 = p <;> simp [h]

/-- What a session does belongs to what another one attends if that is in the room. -/
theorem Attended.act {p q : π} {c c' : Connection} {e : SocketEvent π} (hact : c.Acts p c' e)
    {phase : Phase} (hphase : q = p → phase = c.phase) {events during : List (SocketEvent π)}
    (h : Attended q phase events during) :
    ∃ during', Attended q (if q = p then c'.phase else phase) (events ++ [e]) during' ∧
      Server.linesOfOthers q during' = Server.linesOfOthers q during ++
        if phase = .reading then Server.linesOfOthers q [e] else [] := by
  by_cases hq : q = p
  · subst hq
    rw [hphase rfl] at h ⊢
    rw [if_pos rfl]
    cases hact with
    | start hwaiting =>
      rw [hwaiting] at h ⊢
      cases h with
      | waiting hpre => exact ⟨[], .reading hpre (by simp), rfl⟩
    | line uninit hreading hbuffer htext =>
      rw [hreading] at h ⊢
      exact ⟨_, h.own (by simp), List.filterMap_append⟩
    | closed hreading hbuffer =>
      rw [hreading] at h ⊢
      cases h with
      | reading hpre hduring =>
        exact ⟨during, .closed hpre hduring (by simp), by simp [Server.linesOfOthers]⟩
  · rw [if_neg hq]
    refine ⟨_, h.other (by rw [hact.session]; exact Ne.symm hq), ?_⟩
    split_ifs
    · exact List.filterMap_append
    · exact (List.append_nil _).symm

/-- What holds after some events. -/
structure Kept (events : List (π × Happening)) (n : Network π) : Prop where
  server : Server.run n.handled = some n.server
  arrived : ∀ p, arrived p events =
    Client.stream (linesOf p n.handled) ++ (n.connections p).pending
  lines : ∀ p, ∀ l ∈ linesOf p n.handled, newline ∉ l
  attended : ∀ q, ∃ during, Attended q (n.connections q).phase n.handled during ∧
    (n.server.sessions q).asyncWrites = (Server.linesOfOthers q during).map Server.handed

theorem kept_init : Kept [] (init : Network π) where
  server := rfl
  arrived _ := rfl
  lines _ _ h := absurd h List.not_mem_nil
  attended _ := ⟨[], .waiting (by simp [init]), rfl⟩

theorem Kept.step {events : List (π × Happening)} {n : Network π} (h : Kept events n)
    (e : π × Happening) : ∃ n', n.step e = some n' ∧ Kept (events ++ [e]) n' := by
  obtain ⟨p, happening⟩ := e
  rcases (n.connections p).step_cases p happening with
    ⟨c', hstep, hphase, hpending⟩ | ⟨c', event, hstep, hbytes, hact⟩
  · refine ⟨{ n with connections := Function.update n.connections p c' },
      by simp [Network.step, hstep],
      h.server, fun q => ?_, h.lines, fun q => ?_⟩
    · rw [arrived_concat, h.arrived q]
      by_cases hq : q = p
      · subst hq
        simp [hpending]
      · simp [hq, Ne.symm hq]
    · have hsame : (Function.update n.connections p c' q).phase = (n.connections q).phase := by
        by_cases hq : q = p
        · subst hq
          simp [hphase]
        · simp [hq]
      rw [hsame]
      exact h.attended q
  · obtain ⟨server', hserver, hrun, hwrites⟩ := asyncWrites_step h.server event
    refine ⟨⟨server', Function.update n.connections p c', n.handled ++ [event]⟩,
      by simp [Network.step, hstep, hserver], hrun, fun q => ?_, fun q => ?_, fun q => ?_⟩
    · rw [arrived_concat, hbytes, h.arrived q, linesOf_concat, Client.stream, Client.stream,
        List.flatMap_append, List.append_assoc]
      by_cases hq : q = p
      · subst hq
        simp [(pending_of_acts hact).1, Client.stream]
      · simp [hq, linesOf_of_ne (q := q) (by rw [hact.session]; exact Ne.symm hq)]
    · rw [linesOf_concat, List.forall_mem_append]
      refine ⟨h.lines q, ?_⟩
      by_cases hq : q = p
      · subst hq
        exact (pending_of_acts hact).2
      · simp [linesOf_of_ne (q := q) (by rw [hact.session]; exact Ne.symm hq)]
    · obtain ⟨during, hattended, hbefore⟩ := h.attended q
      obtain ⟨during', hattended', hlines⟩ := hattended.act hact (fun hq => by rw [hq])
      refine ⟨during', ?_, ?_⟩
      · by_cases hq : q = p
        · subst hq
          simpa using hattended'
        · simpa [hq] using hattended'
      · rw [hwrites q, hbefore, hlines, List.map_append, if_congr hattended.member_iff rfl rfl]
        split_ifs <;> rfl

theorem run_concat {events : List (π × Happening)} {n : Network π} (h : run events = some n)
    (e : π × Happening) : run (events ++ [e]) = n.step e := by
  rw [run, List.foldlM_append, ← run, h]
  simp

theorem kept_run (events : List (π × Happening)) : ∃ n, run events = some n ∧ Kept events n := by
  induction events using List.reverseRecOn with
  | nil => exact ⟨init, rfl, kept_init⟩
  | append_singleton events e ih =>
    obtain ⟨n, hrun, hkept⟩ := ih
    obtain ⟨n', hstep, hkept'⟩ := hkept.step e
    exact ⟨n', (run_concat hrun e).trans hstep, hkept'⟩

theorem kept_of_run {events : List (π × Happening)} {n : Network π} (h : run events = some n) :
    Kept events n := by
  obtain ⟨n', hrun, hkept⟩ := kept_run events
  obtain rfl := Option.some.inj (h.symm.trans hrun)
  exact hkept

/-- Whatever the order in which the handlers run, each session has delivered lines of the bytes
that have arrived for it, in order, and the rest is pending. A session was handed, in the order in
which the handlers ran, every line that another one has delivered while it is in the room, cut as
`handed` does it. -/
theorem chat_exact (events : List (π × Happening)) : ∃ n, run events = some n ∧
    (∀ p, (∀ l ∈ linesOf p n.handled, newline ∉ l) ∧
      arrived p events = Client.stream (linesOf p n.handled) ++ (n.connections p).pending) ∧
    ∀ q, ∃ during, Attended q (n.connections q).phase n.handled during ∧
      (n.server.sessions q).asyncWrites =
        (Server.linesOfOthers q during).map Server.handed := by
  obtain ⟨n, hrun, hkept⟩ := kept_run events
  exact ⟨n, hrun, fun p => ⟨hkept.lines p, hkept.arrived p⟩, hkept.attended⟩

/-- A read of the session of `p` goes on. -/
def Reads (p : π) (e : π × Happening) : Prop :=
  e.1 = p ∧ ((∃ count, e.2 = .receive count) ∨ ∃ uninit, e.2 = .complete uninit)

theorem arrived_of_reads {q : π} {more : List (π × Happening)}
    (h : ∀ e ∈ more, ∃ p, Reads p e) (events : List (π × Happening)) :
    arrived q (events ++ more) = arrived q events := by
  induction more using List.reverseRecOn with
  | nil => rw [List.append_nil]
  | append_singleton more e ih =>
    rw [List.forall_mem_append, List.forall_mem_singleton] at h
    have hbytes : e.2.bytes = [] := by
      obtain ⟨p, -, ⟨count, he⟩ | ⟨uninit, he⟩⟩ := h.2 <;> rw [he] <;> rfl
    rw [← List.append_assoc, arrived_concat, ih h.1, hbytes, ite_self, List.append_nil]

/-- As long as a newline is pending, the read of a session goes on. -/
theorem exists_read {n : Network π} {events : List (π × Happening)} (hrun : run events = some n)
    {p : π} (hphase : (n.connections p).phase = .reading)
    (hmem : newline ∈ (n.connections p).pending) :
    ∃ e n', Reads p e ∧ run (events ++ [e]) = some n' ∧
      (∀ q ≠ p, n'.connections q = n.connections q) ∧
      (n'.connections p).pending.length + (n'.connections p).unread.length <
        (n.connections p).pending.length + (n.connections p).unread.length := by
  by_cases hbuffer : newline ∈ (n.connections p).buffer
  · obtain ⟨text, rest, hsplit, htext⟩ := List.eq_append_cons_of_mem hbuffer
    have hstep : (n.connections p).step p (.complete Server.zeros) =
        ({ n.connections p with buffer := rest }, some (.line p text Server.zeros)) := by
      simp [Connection.step, hphase, hsplit, cut_append_sep htext]
    obtain ⟨server, hserver, -⟩ := asyncWrites_step (kept_of_run hrun).server
      (.line p text Server.zeros)
    refine ⟨(p, .complete Server.zeros), _, ⟨rfl, .inr ⟨_, rfl⟩⟩,
      (run_concat hrun _).trans (by simp only [Network.step, hstep, hserver]; rfl),
      fun q hq => Function.update_of_ne hq _ _, ?_⟩
    simp [Connection.pending, hsplit]
    omega
  · have hunread : newline ∈ (n.connections p).unread :=
      (List.mem_append.mp hmem).resolve_left hbuffer
    have hstep : (n.connections p).step p (.receive (n.connections p).unread.length) =
        ({ n.connections p with
            buffer := (n.connections p).buffer ++ (n.connections p).unread
            unread := [] }, none) := by
      simp [Connection.step, hphase, hbuffer]
    refine ⟨(p, .receive (n.connections p).unread.length), _, ⟨rfl, .inl ⟨_, rfl⟩⟩,
      (run_concat hrun _).trans (by simp only [Network.step, hstep]; rfl),
      fun q hq => Function.update_of_ne hq _ _, ?_⟩
    have hpos := List.length_pos_of_mem hunread
    simp [Connection.pending]
    omega

/-- Nothing that could be delivered is pending. -/
def Quiet (c : Connection) : Prop := c.phase = .reading → newline ∉ c.pending

theorem exists_quiet {n : Network π} {events : List (π × Happening)} (hrun : run events = some n)
    (p : π) : ∃ more n', (∀ e ∈ more, Reads p e) ∧ run (events ++ more) = some n' ∧
      (∀ q ≠ p, n'.connections q = n.connections q) ∧ Quiet (n'.connections p) := by
  induction hn : (n.connections p).pending.length + (n.connections p).unread.length
    using Nat.strong_induction_on generalizing n events with
  | _ k ih =>
    by_cases hquiet : Quiet (n.connections p)
    · exact ⟨[], n, by simp, by rw [List.append_nil]; exact hrun, fun q _ => rfl, hquiet⟩
    · rw [Quiet, Classical.not_imp, not_not] at hquiet
      obtain ⟨e, n₁, hreads, hrun₁, hothers₁, hlt⟩ := exists_read hrun hquiet.1 hquiet.2
      obtain ⟨more, n', hmore, hrun', hothers, hend⟩ := ih _ (hn ▸ hlt) hrun₁ rfl
      refine ⟨e :: more, n', List.forall_mem_cons.mpr ⟨hreads, hmore⟩, ?_,
        fun q hq => (hothers q hq).trans (hothers₁ q hq), hend⟩
      rwa [List.append_cons]

theorem exists_all_quiet (events : List (π × Happening)) (sessions : Finset π) :
    ∃ more n', (∀ e ∈ more, ∃ p ∈ sessions, Reads p e) ∧ run (events ++ more) = some n' ∧
      ∀ p ∈ sessions, Quiet (n'.connections p) := by
  induction sessions using Finset.induction_on with
  | empty =>
    obtain ⟨n, hrun, -⟩ := kept_run events
    exact ⟨[], n, by simp, by rw [List.append_nil]; exact hrun, by simp⟩
  | insert p sessions hp ih =>
    obtain ⟨more, n₁, hmore, hrun₁, hquiet⟩ := ih
    obtain ⟨last, n', hlast, hrun', hothers, hend⟩ := exists_quiet hrun₁ p
    refine ⟨more ++ last, n', ?_, by rw [← List.append_assoc]; exact hrun', ?_⟩
    · rw [List.forall_mem_append]
      refine ⟨fun e he => ?_, fun e he => ⟨p, by simp, hlast e he⟩⟩
      obtain ⟨q, hq, hreads⟩ := hmore e he
      exact ⟨q, by simp [hq], hreads⟩
    · rw [Finset.forall_mem_insert]
      refine ⟨hend, fun q hq => ?_⟩
      rw [hothers q (by rintro rfl; exact hp hq)]
      exact hquiet q hq

/-- No line is stuck: by reads that go on, without anything else happening, all sessions whose
reads are pending come to have delivered exactly what one reader delivers of the bytes that have
arrived for them, however they were cut into chunks. -/
theorem lines_not_stuck (events : List (π × Happening)) (sessions : Finset π) :
    ∃ more n, (∀ e ∈ more, ∃ p ∈ sessions, Reads p e) ∧ run (events ++ more) = some n ∧
      ∀ p ∈ sessions, (n.connections p).phase = .reading →
        ∀ chunks : List Bytes, chunks.flatten = arrived p events →
          Session.asyncRead [] chunks =
            ((linesOf p n.handled).map fun l => l ++ [newline], (n.connections p).pending) := by
  obtain ⟨more, n, hmore, hrun, hquiet⟩ := exists_all_quiet events sessions
  refine ⟨more, n, hmore, hrun, fun p hp hphase chunks hchunks => ?_⟩
  have hkept := kept_of_run hrun
  have harrived := hkept.arrived p
  rw [arrived_of_reads fun e he => (hmore e he).imp fun _ h => h.2] at harrived
  rw [Session.asyncRead_eq_terminated, List.nil_append, hchunks, harrived, Client.stream]
  exact terminated_flatMap (hkept.lines p) (hquiet p hp hphase)

end Network

end BuildYourOwnStuff.ChatRoom
