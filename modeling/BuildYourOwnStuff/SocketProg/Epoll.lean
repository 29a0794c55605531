import BuildYourOwnStuff.Foundations.Runs
import BuildYourOwnStuff.GoStd.Utf8
import BuildYourOwnStuff.SocketProg.Sockets

/-!
# The epoll echo server

The sockets of the clients do not block, so `send` may accept only some of the bytes it
is given, or none. The server keeps nothing of what it has received, so it loses bytes
exactly at such calls.
-/

namespace BuildYourOwnStuff.SocketProg

open Foundations GoStd

/-- The bytes received from a client and those that `send` has accepted for it. -/
structure Traffic where
  received : Bytes
  accepted : Bytes
  deriving DecidableEq, Repr

/-- What `send` returns: the number of bytes it has accepted, or -1 with `EAGAIN`. -/
inductive Sent
  | accepted (n : ℕ)
  | again
  deriving DecidableEq, Repr

def Sent.count : Sent → ℕ
  | accepted n => n
  | again => 0

/-- The server within its loop. What is received for a client is in `buffer` until it is
given to `send`. -/
structure EpollServer where
  clients : Fd → Option Traffic := fun _ => none
  closed : List Traffic := []
  events : List Fd := []
  buffer : Option (Fd × Bytes) := none

/-- The calls of the loop, with what they return. -/
inductive EpollCall
  | wait (ready : List Fd)
  | accept (client_fd : Fd)
  | recv (received : Received)
  | send (sent : Sent)
  deriving DecidableEq, Repr

namespace EpollServer

/-- A descriptor that is in use is not returned. -/
def accept (server_fd client_fd : Fd) (s : EpollServer) : EpollServer :=
  match s.buffer, s.events with
  | none, fd :: events =>
    if fd = server_fd ∧ client_fd ≠ server_fd ∧ s.clients client_fd = none then
      if client_fd ≠ -1 then
        { s with
          events := events
          clients := Function.update s.clients client_fd (some ⟨[], []⟩) }
      else { s with events := events }
    else s
  | _, _ => s

/-- From a descriptor that was closed since `epoll_wait`, nothing is received. -/
def recv (server_fd : Fd) (received : Received) (s : EpollServer) : EpollServer :=
  match s.buffer, s.events with
  | none, fd :: events =>
    if fd = server_fd then s
    else
      match s.clients fd with
      | none => { s with events := events }
      | some t =>
        let received := received.upTo 1024
        if received.count ≤ 0 then
          { s with
            events := events
            clients := Function.update s.clients fd none
            closed := t :: s.closed }
        else
          { s with
            events := events
            clients := Function.update s.clients fd
              (some { t with received := t.received ++ received.data })
            buffer := some (fd, received.data) }
  | _, _ => s

/-- The return value of `send` is not looked at. -/
def send (sent : Sent) (s : EpollServer) : EpollServer :=
  match s.buffer with
  | some (fd, data) =>
    { s with
      clients := Function.update s.clients fd
        ((s.clients fd).map fun t => { t with accepted := t.accepted ++ data.take sent.count })
      buffer := none }
  | none => s

/-- A call that is not the next one of the loop does nothing. -/
def step (server_fd : Fd) (s : EpollServer) : EpollCall → EpollServer
  | .wait ready => if s.events = [] ∧ s.buffer = none then { s with events := ready } else s
  | .accept client_fd => s.accept server_fd client_fd
  | .recv received => s.recv server_fd received
  | .send sent => s.send sent

/-- The bytes that the server still has for a client. -/
def held (s : EpollServer) (fd : Fd) : Bytes :=
  match s.buffer with
  | some (fd', data) => if fd' = fd then data else []
  | none => []

/-- What `send` has accepted for a client, with what is held for it, is what was received
from it. -/
structure NoLoss (s : EpollServer) : Prop where
  clients : ∀ fd t, s.clients fd = some t → t.accepted ++ s.held fd = t.received
  closed : ∀ t ∈ s.closed, t.accepted = t.received

/-- The bytes in the buffer are those of a client. -/
def Buffered (s : EpollServer) : Prop :=
  ∀ fd data, s.buffer = some (fd, data) → ∃ t, s.clients fd = some t

/-- If the call is that of `send`, it accepts all the bytes. -/
def AcceptsAll (s : EpollServer) : EpollCall → Prop
  | .send sent => ∀ fd data, s.buffer = some (fd, data) → data.length ≤ sent.count
  | _ => True

variable {server_fd : Fd} {s : EpollServer}

theorem held_of_none (h : s.buffer = none) (fd : Fd) : s.held fd = [] := by
  rw [held, h]

theorem held_of_some {fd' : Fd} {data : Bytes} (h : s.buffer = some (fd', data)) (fd : Fd) :
    s.held fd = if fd' = fd then data else [] := by
  rw [held, h]

/-- Without a buffer, all that was received has been accepted. -/
theorem NoLoss.accepted_eq (h : s.NoLoss) (hbuffer : s.buffer = none) {fd : Fd} {t : Traffic}
    (ht : s.clients fd = some t) : t.accepted = t.received := by
  rw [← h.clients fd t ht, held_of_none hbuffer, List.append_nil]

theorem NoLoss.withEvents (h : s.NoLoss) (events : List Fd) :
    NoLoss { s with events := events } :=
  ⟨h.clients, h.closed⟩

/-- Nothing is lost when one client changes, and nothing is held for the others. -/
theorem noLoss_of_update {s' : EpollServer} {fd : Fd} {o : Option Traffic}
    (hclients : s'.clients = Function.update s.clients fd o)
    (hfd : ∀ t, o = some t → t.accepted ++ s'.held fd = t.received)
    (hheld : ∀ fd' ≠ fd, s'.held fd' = [])
    (hothers : ∀ fd' ≠ fd, ∀ t, s.clients fd' = some t → t.accepted = t.received)
    (hclosed : ∀ t ∈ s'.closed, t.accepted = t.received) : s'.NoLoss := by
  refine ⟨fun fd' t ht => ?_, hclosed⟩
  rw [hclients] at ht
  by_cases heq : fd' = fd
  · rw [heq, Function.update_self] at ht
    rw [heq]
    exact hfd t ht
  · rw [Function.update_of_ne heq] at ht
    rw [hheld fd' heq, List.append_nil]
    exact hothers fd' heq t ht

theorem NoLoss.accept (h : s.NoLoss) (client_fd : Fd) : (s.accept server_fd client_fd).NoLoss := by
  unfold EpollServer.accept
  split
  · rename_i fd events hbuffer hevents
    split_ifs
    · refine noLoss_of_update (s := s) rfl ?_ (fun fd' _ => held_of_none hbuffer fd')
        (fun fd' _ t ht => h.accepted_eq hbuffer ht) h.closed
      rintro t ⟨⟩
      exact held_of_none hbuffer client_fd
    · exact h.withEvents events
    · exact h
  · exact h

theorem NoLoss.recv (h : s.NoLoss) (received : Received) : (s.recv server_fd received).NoLoss := by
  unfold EpollServer.recv
  split
  · rename_i fd events hbuffer hevents
    split_ifs with hserver
    · exact h
    cases ht : s.clients fd with
    | none => exact h.withEvents events
    | some t =>
      have haccepted := h.accepted_eq hbuffer ht
      dsimp only
      split_ifs with hend
      · refine noLoss_of_update (s := s) rfl nofun (fun fd' _ => held_of_none hbuffer fd')
          (fun fd' _ t ht => h.accepted_eq hbuffer ht) ?_
        exact List.forall_mem_cons.mpr ⟨haccepted, h.closed⟩
      · refine noLoss_of_update (s := s) rfl ?_ (fun fd' hne => ?_)
          (fun fd' _ t ht => h.accepted_eq hbuffer ht) h.closed
        · rintro t' ⟨⟩
          rw [held_of_some rfl, if_pos rfl, haccepted]
        · rw [held_of_some rfl, if_neg (Ne.symm hne)]
  · exact h

/-- The bytes that `send` does not accept are lost. -/
theorem noLoss_send_iff (hbuffered : s.Buffered) (h : s.NoLoss) (sent : Sent) :
    (s.send sent).NoLoss ↔ s.AcceptsAll (.send sent) := by
  unfold EpollServer.send
  cases hbuffer : s.buffer with
  | none =>
    refine ⟨fun _ fd data heq => ?_, fun _ => h⟩
    rw [hbuffer] at heq
    cases heq
  | some p =>
    obtain ⟨fd, data⟩ := p
    obtain ⟨t, ht⟩ := hbuffered fd data hbuffer
    have hreceived := h.clients fd t ht
    rw [held_of_some hbuffer, if_pos rfl] at hreceived
    constructor
    · intro hsent fd' data' heq
      rw [hbuffer] at heq
      cases heq
      have hall := hsent.clients fd { t with accepted := t.accepted ++ data.take sent.count }
        (by simp [ht])
      rw [held_of_none rfl, List.append_nil, ← hreceived, List.append_cancel_left_eq,
        List.take_eq_self_iff] at hall
      exact hall
    · intro hall
      refine noLoss_of_update (s := s) rfl ?_ (fun fd' _ => held_of_none rfl fd') ?_ h.closed
      · rw [ht, Option.map_some, List.take_of_length_le (hall fd data hbuffer)]
        rintro t' ⟨⟩
        rw [held_of_none rfl, List.append_nil]
        exact hreceived
      · intro fd' hne t' ht'
        have hother := h.clients fd' t' ht'
        rwa [held_of_some hbuffer, if_neg (Ne.symm hne), List.append_nil] at hother

/-- One call keeps all bytes exactly if it is no call of `send` that accepts fewer. -/
theorem noLoss_step_iff (call : EpollCall) (hbuffered : s.Buffered) (h : s.NoLoss) :
    (s.step server_fd call).NoLoss ↔ s.AcceptsAll call := by
  cases call with
  | wait ready =>
    refine ⟨fun _ => trivial, fun _ => ?_⟩
    rw [step]
    split_ifs
    · exact h.withEvents ready
    · exact h
  | accept client_fd => exact ⟨fun _ => trivial, fun _ => h.accept client_fd⟩
  | recv received => exact ⟨fun _ => trivial, fun _ => h.recv received⟩
  | send sent => exact noLoss_send_iff hbuffered h sent

theorem Buffered.step (h : s.Buffered) (call : EpollCall) : (s.step server_fd call).Buffered := by
  cases call with
  | wait ready =>
    rw [EpollServer.step]
    split_ifs
    · exact h
    · exact h
  | accept client_fd =>
    rw [EpollServer.step, EpollServer.accept]
    split
    · rename_i hbuffer _
      have hnone : ∀ fd data, s.buffer ≠ some (fd, data) := by simp [hbuffer]
      split_ifs
      · exact fun fd data heq => absurd heq (hnone fd data)
      · exact fun fd data heq => absurd heq (hnone fd data)
      · exact h
    · exact h
  | recv received =>
    rw [EpollServer.step, EpollServer.recv]
    split
    · rename_i fd events hbuffer _
      have hnone : ∀ fd data, s.buffer ≠ some (fd, data) := by simp [hbuffer]
      split_ifs
      · exact h
      cases s.clients fd with
      | none => exact fun fd data heq => absurd heq (hnone fd data)
      | some t =>
        dsimp only
        split_ifs
        · exact fun fd data heq => absurd heq (hnone fd data)
        · rintro fd' data ⟨⟩
          exact ⟨_, Function.update_self _ _ _⟩
    · exact h
  | send sent =>
    rw [EpollServer.step, EpollServer.send]
    split
    · rintro fd data ⟨⟩
    · exact h

/-- No byte is lost in a run of the server exactly if every call of `send` in it accepts
all the bytes it is given. -/
theorem noLoss_iff (server_fd : Fd) (calls : List EpollCall) :
    AllStates (step server_fd) NoLoss {} calls ↔ AllSteps (step server_fd) AcceptsAll {} calls := by
  refine allStates_iff_allSteps (I := Buffered) (fun s call h => h.step call)
    (fun s call hbuffered h => noLoss_step_iff call hbuffered h) ?_ ?_ calls
  · rintro fd data ⟨⟩
  · refine ⟨fun fd t ht => ?_, List.forall_mem_nil _⟩
    cases ht

/-- Two of five bytes are accepted, and the others are gone. -/
theorem bytes_lost :
    let calls : List EpollCall := [.wait [3], .accept 4, .wait [4], .recv (.bytes (ascii "hello")),
      .send (.accepted 2)]
    (calls.foldl (step 3) {}).clients 4 = some ⟨ascii "hello", ascii "he"⟩ ∧
      (calls.foldl (step 3) {}).held 4 = [] ∧ ¬ AllStates (step 3) NoLoss {} calls := by
  refine ⟨rfl, rfl, fun h => ?_⟩
  have hlast := h.last.clients 4 ⟨ascii "hello", ascii "he"⟩ rfl
  exact absurd hlast (by decide)

end EpollServer

end BuildYourOwnStuff.SocketProg
