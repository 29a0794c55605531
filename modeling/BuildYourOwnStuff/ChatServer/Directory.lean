import BuildYourOwnStuff.ChatServer.Server
import BuildYourOwnStuff.Foundations.Since

/-!
# The directory of users

When events are handled one at a time, the list of clients and the map from
usernames are functions of the history: the sockets that are held by a
connection, and the last login under each name whose connection has not left.
-/

namespace BuildYourOwnStuff.ChatServer

open Foundations GoStd

inductive Event
  | accept (socket : Socket)
  | receive (socket : Socket) (message : Bytes)
  | disconnect (socket : Socket)
  deriving DecidableEq, Repr

/-- The name under which a message logs in. -/
def loginName (message : Bytes) : Option Bytes :=
  if (parseMessage message).1 = .login then some (parseMessage message).2 else none

/-- The connection on the socket ends. -/
def Leaves (s : Socket) (e : Event) : Prop :=
  e = .disconnect s ∨ ∃ message, e = .receive s message ∧ IsLogout message

def LoginAs (u : Bytes) (s : Socket) (e : Event) : Prop :=
  ∃ message, e = .receive s message ∧ loginName message = some u

/-- A connection was accepted on the socket and has not left. -/
def Holds (s : Socket) : List Event → Prop := Since (fun e => e = .accept s) (Leaves s)

/-- The last login under the name came from the socket, whose connection has not left since. -/
def LoggedIn (u : Bytes) (s : Socket) : List Event → Prop :=
  Since (LoginAs u s) fun e => Leaves s e ∨ ∃ s', LoginAs u s' e

/-- Only sockets that are not held are accepted, and all other events are of
sockets that are held. -/
inductive History : List Event → Prop
  | nil : History []
  | accept {events s} : History events → ¬ Holds s events → History (events ++ [.accept s])
  | receive {events s} (message : Bytes) :
      History events → Holds s events → History (events ++ [.receive s message])
  | disconnect {events s} :
      History events → Holds s events → History (events ++ [.disconnect s])

namespace Directory

def empty : Directory := ⟨[], ∅, ∅⟩

def serve (d : Directory) : Event → Directory × List Sent
  | .accept s => ((d.accept s).register s, [])
  | .receive s message => (handleMessage s message).exec d
  | .disconnect s => (handleLogoutClient s).exec d

/-- The directory after some events, and all that was sent until then. -/
def run (events : List Event) : Directory × List Sent :=
  events.foldl (fun r e => ((r.1.serve e).1, r.2 ++ (r.1.serve e).2)) (empty, [])

theorem run_concat (events : List Event) (e : Event) : run (events ++ [e]) =
    (((run events).1.serve e).1, (run events).2 ++ ((run events).1.serve e).2) := by
  rw [run, List.foldl_append]
  rfl

theorem lookup_eraseSocket {m : ClientMap} {s s' : Socket} {u : Bytes} :
    (m.eraseSocket s).lookup u = some s' ↔ m.lookup u = some s' ∧ s' ≠ s := by
  rw [Finmap.lookup_eq_some_iff, Finmap.lookup_eq_some_iff, ClientMap.eraseSocket,
    Multiset.mem_filter]

theorem index_of_mem {d : Directory} {u : Bytes} (h : u ∈ d.client_mapp) :
    ∃ s, d.client_mapp.lookup u = some s ∧ d.index u = (d, s) := by
  obtain ⟨s, hs⟩ := Finmap.mem_iff.mp h
  refine ⟨s, hs, ?_⟩
  rw [index, hs]

theorem exec_sendToOthers (d : Directory) (text : Bytes) (sender : Socket) (clients : List Socket)
    (next : Program) : (sendToOthers text sender clients next).exec d =
      ((next.exec d).1, ((clients.filter fun client => client ≠ sender).map fun client =>
        ⟨client, text, client ∈ d.opened⟩) ++ (next.exec d).2) := by
  induction clients with
  | nil => rfl
  | cons client clients ih =>
    by_cases h : client = sender
    · simp [sendToOthers, h, ih]
    · simp [sendToOthers, h, Program.exec, ih]

/-- A direct message does not change the directory, and goes to a socket with a
username. -/
theorem exec_handleDirectMessage (d : Directory) (s : Socket) (data : Bytes) :
    ((handleDirectMessage data s).exec d).1 = d ∧
      ∀ x ∈ ((handleDirectMessage data s).exec d).2,
        (x.client = s ∨ ∃ u, d.client_mapp.lookup u = some x.client) ∧
          x.isOpen = decide (x.client ∈ d.opened) := by
  unfold handleDirectMessage
  rcases cut colon data with _ | ⟨username, text⟩
  · simp [Program.exec]
  · by_cases h : username ∈ d.client_mapp
    · obtain ⟨receiver, hlookup, hindex⟩ := index_of_mem h
      have hname : ∃ u, d.client_mapp.lookup u = some receiver := ⟨username, hlookup⟩
      simp [Program.exec, h, hindex, hname]
    · simp [Program.exec, h]

/-- What an event does to the directory. -/
theorem exec_handleEvent (d : Directory) (s : Socket) (event : EventType) (data : Bytes) :
    ((handleEvent s (event, data)).exec d).1 =
      match event with
      | .login => d.assign data s
      | .logout => (d.remove s).close s
      | _ => d := by
  cases event with
  | login => rfl
  | direct => exact (exec_handleDirectMessage d s data).1
  | broadcast => simp [handleEvent, broadcastMessage, Program.exec, exec_sendToOthers]
  | logout => rfl
  | onlineUsers => rfl
  | invalid => rfl

/-- A message is sent to the sender, to clients and to sockets with a username, and
no socket is closed before. -/
theorem sent_handleMessage {d : Directory} {s : Socket} {message : Bytes} {x : Sent}
    (hx : x ∈ ((handleMessage s message).exec d).2) :
    (x.client = s ∨ x.client ∈ d.clients ∨ ∃ u, d.client_mapp.lookup u = some x.client) ∧
      x.isOpen = decide (x.client ∈ d.opened) := by
  unfold handleMessage at hx
  generalize parseMessage message = parsed at hx
  rcases parsed with ⟨event, data⟩
  cases event with
  | direct =>
    obtain ⟨hclient, hopen⟩ := (exec_handleDirectMessage d s data).2 x hx
    exact ⟨hclient.imp_right .inr, hopen⟩
  | broadcast =>
    simp only [handleEvent, broadcastMessage, Program.exec, exec_sendToOthers, List.mem_append,
      List.mem_map, List.mem_filter, List.mem_singleton] at hx
    rcases hx with ⟨client, ⟨hclient, -⟩, rfl⟩ | rfl
    · exact ⟨.inr (.inl hclient), rfl⟩
    · exact ⟨.inl rfl, rfl⟩
  | login =>
    rw [List.mem_singleton.mp hx]
    exact ⟨.inl rfl, rfl⟩
  | logout =>
    rw [List.mem_singleton.mp hx]
    exact ⟨.inl rfl, rfl⟩
  | onlineUsers =>
    rw [List.mem_singleton.mp hx]
    exact ⟨.inl rfl, rfl⟩
  | invalid =>
    rw [List.mem_singleton.mp hx]
    exact ⟨.inl rfl, rfl⟩

/-- The directory says of each socket and name what the history does. -/
structure Exact (events : List Event) (d : Directory) : Prop where
  nodup : d.clients.Nodup
  mem_clients : ∀ s, s ∈ d.clients ↔ Holds s events
  mem_opened : ∀ s, s ∈ d.opened ↔ Holds s events
  lookup : ∀ u s, d.client_mapp.lookup u = some s ↔ LoggedIn u s events

theorem Exact.accept {events : List Event} {d : Directory} (h : Exact events d) {s : Socket}
    (hs : ¬ Holds s events) : Exact (events ++ [.accept s]) (d.serve (.accept s)).1 where
  nodup := by
    have hnew : s ∉ d.clients := fun hmem => hs ((h.mem_clients s).mp hmem)
    change (d.clients ++ [s]).Nodup
    rw [List.nodup_append_comm]
    exact List.nodup_cons.mpr ⟨hnew, h.nodup⟩
  mem_clients s' := by
    rw [Holds, since_concat, ← Holds, ← h.mem_clients]
    simp [serve, register, Directory.accept, Leaves, or_comm, eq_comm]
  mem_opened s' := by
    rw [Holds, since_concat, ← Holds, ← h.mem_opened]
    simp [serve, register, Directory.accept, Leaves, eq_comm]
  lookup u s' := by
    rw [LoggedIn, since_concat, ← LoggedIn, ← h.lookup]
    simp [serve, register, Directory.accept, Leaves, LoginAs]

/-- A connection that leaves takes its socket and its names out of the directory. -/
theorem Exact.leave {events : List Event} {d : Directory} (h : Exact events d) {s : Socket}
    {e : Event} (he : ∀ s', Leaves s' e ↔ s' = s) (haccept : ∀ s', e ≠ .accept s')
    (hlogin : ∀ u s', ¬ LoginAs u s' e) : Exact (events ++ [e]) ((d.remove s).close s) where
  nodup := h.nodup.filter _
  mem_clients s' := by
    rw [Holds, since_concat, ← Holds, ← h.mem_clients, he]
    simp [close, remove, haccept]
  mem_opened s' := by
    rw [Holds, since_concat, ← Holds, ← h.mem_opened, he]
    simp [close, remove, haccept, and_comm]
  lookup u s' := by
    rw [LoggedIn, since_concat, ← LoggedIn, ← h.lookup, he]
    simp [close, remove, lookup_eraseSocket, hlogin]

theorem Exact.login {events : List Event} {d : Directory} (h : Exact events d) {s : Socket}
    {u : Bytes} {e : Event} (he : ∀ u' s', LoginAs u' s' e ↔ u' = u ∧ s' = s)
    (haccept : ∀ s', e ≠ .accept s') (hleaves : ∀ s', ¬ Leaves s' e) :
    Exact (events ++ [e]) (d.assign u s) where
  nodup := h.nodup
  mem_clients s' := by
    rw [Holds, since_concat, ← Holds, ← h.mem_clients]
    simp [assign, haccept, hleaves]
  mem_opened s' := by
    rw [Holds, since_concat, ← Holds, ← h.mem_opened]
    simp [assign, haccept, hleaves]
  lookup u' s' := by
    rw [LoggedIn, since_concat, ← LoggedIn, ← h.lookup]
    by_cases hu : u' = u
    · subst hu
      simp [assign, he, hleaves, eq_comm (a := s)]
    · simp [assign, hu, he, hleaves]

/-- Any other event leaves the directory as it is. -/
theorem Exact.other {events : List Event} {d : Directory} (h : Exact events d) {e : Event}
    (haccept : ∀ s', e ≠ .accept s') (hleaves : ∀ s', ¬ Leaves s' e)
    (hlogin : ∀ u s', ¬ LoginAs u s' e) : Exact (events ++ [e]) d where
  nodup := h.nodup
  mem_clients s' := by
    rw [Holds, since_concat, ← Holds, ← h.mem_clients]
    simp [haccept, hleaves]
  mem_opened s' := by
    rw [Holds, since_concat, ← Holds, ← h.mem_opened]
    simp [haccept, hleaves]
  lookup u' s' := by
    rw [LoggedIn, since_concat, ← LoggedIn, ← h.lookup]
    simp [hleaves, hlogin]

theorem Exact.receive {events : List Event} {d : Directory} (h : Exact events d) (s : Socket)
    (message : Bytes) :
    Exact (events ++ [.receive s message]) ((handleMessage s message).exec d).1 := by
  have haccept : ∀ s', Event.receive s message ≠ .accept s' := nofun
  have hleaves : ∀ s', Leaves s' (.receive s message) ↔ s' = s ∧ IsLogout message := by
    intro s'
    simp [Leaves, eq_comm]
  have hlogin : ∀ u s', LoginAs u s' (.receive s message) ↔
      loginName message = some u ∧ s' = s := by
    intro u s'
    simp [LoginAs, eq_comm, and_comm]
  rcases hparse : parseMessage message with ⟨event, data⟩
  rw [handleMessage, hparse, exec_handleEvent]
  by_cases hlogout : event = .logout
  · subst hlogout
    apply h.leave
    · simp [hleaves, IsLogout, hparse]
    · exact haccept
    · simp [hlogin, loginName, hparse]
  · by_cases hevent : event = .login
    · subst hevent
      apply h.login
      · simp [hlogin, loginName, hparse, eq_comm]
      · exact haccept
      · simp [hleaves, IsLogout, hparse]
    · have hother := h.other haccept (e := .receive s message)
        (by simp [hleaves, IsLogout, hparse, hlogout])
        (by simp [hlogin, loginName, hparse, hevent])
      cases event <;> first | exact hother | contradiction

theorem exact_run {events : List Event} (h : History events) : Exact events (run events).1 := by
  induction h with
  | nil =>
    refine ⟨List.nodup_nil, ?_, ?_, ?_⟩ <;> simp [run, empty, Holds, LoggedIn]
  | accept _ hs ih =>
    rw [run_concat]
    exact ih.accept hs
  | receive message _ _ ih =>
    rw [run_concat]
    exact ih.receive _ message
  | @disconnect events s _ _ ih =>
    rw [run_concat]
    apply ih.leave
    · simp [Leaves, eq_comm]
    · exact nofun
    · simp [LoginAs]

/-- A login that counts is one of a connection that is still there. -/
theorem holds_of_loggedIn {events : List Event} (h : History events) {u : Bytes} {s : Socket}
    (hlogged : LoggedIn u s events) : Holds s events := by
  induction h with
  | nil => exact absurd hlogged not_since_nil
  | accept _ _ ih =>
    rcases since_concat.mp hlogged with ⟨_, he, -⟩ | ⟨hlogged, hlast⟩
    · cases he
    · exact since_concat.mpr (.inr ⟨ih hlogged, fun hleaves => hlast (.inl hleaves)⟩)
  | @receive events s' message _ hs ih =>
    rcases since_concat.mp hlogged with ⟨message', he, hname⟩ | ⟨hlogged, hlast⟩
    · cases he
      refine since_concat.mpr (.inr ⟨hs, ?_⟩)
      rintro (he | ⟨_, he, hlogout⟩)
      · cases he
      · cases he
        rw [IsLogout] at hlogout
        simp [loginName, hlogout] at hname
    · exact since_concat.mpr (.inr ⟨ih hlogged, fun hleaves => hlast (.inl hleaves)⟩)
  | disconnect _ _ ih =>
    rcases since_concat.mp hlogged with ⟨_, he, -⟩ | ⟨hlogged, hlast⟩
    · cases he
    · exact since_concat.mpr (.inr ⟨ih hlogged, fun hleaves => hlast (.inl hleaves)⟩)

theorem isOpen_of_sent {events : List Event} (h : History events) {x : Sent}
    (hx : x ∈ (run events).2) : x.isOpen = true := by
  induction h with
  | nil => cases hx
  | accept _ _ ih =>
    rw [run_concat, List.mem_append] at hx
    rcases hx with hx | hx
    · exact ih hx
    · cases hx
  | @receive events s message hevents hs ih =>
    rw [run_concat, List.mem_append] at hx
    rcases hx with hx | hx
    · exact ih hx
    · have hexact := exact_run hevents
      obtain ⟨hclient, hopen⟩ := sent_handleMessage hx
      rw [hopen, decide_eq_true_iff, hexact.mem_opened]
      rcases hclient with rfl | hclient | ⟨u, hlookup⟩
      · exact hs
      · exact (hexact.mem_clients _).mp hclient
      · exact holds_of_loggedIn hevents ((hexact.lookup _ _).mp hlookup)
  | @disconnect events s hevents hs ih =>
    rw [run_concat, List.mem_append] at hx
    rcases hx with hx | hx
    · exact ih hx
    · rw [List.mem_singleton.mp hx]
      exact decide_eq_true (((exact_run hevents).mem_opened s).mpr hs)

/-- After any history the clients are the sockets that are held, each once, and a
name is mapped to the socket of its last login if that connection has not left;
so every mapped socket is a client, and nothing was sent to a closed socket. -/
theorem run_exact (events : List Event) (h : History events) :
    (run events).1.clients.Nodup ∧
      (∀ s, s ∈ (run events).1.clients ↔ Holds s events) ∧
      (∀ u s, (run events).1.client_mapp.lookup u = some s ↔ LoggedIn u s events) ∧
      (∀ u s, (run events).1.client_mapp.lookup u = some s → s ∈ (run events).1.clients) ∧
      ∀ x ∈ (run events).2, x.isOpen = true := by
  have hexact := exact_run h
  refine ⟨hexact.nodup, hexact.mem_clients, hexact.lookup, fun u s hlookup => ?_, fun x hx => ?_⟩
  · exact (hexact.mem_clients s).mpr (holds_of_loggedIn h ((hexact.lookup u s).mp hlookup))
  · exact isOpen_of_sent h hx

/-- The socket is accepted again after its user has left, and another one logs in on it. -/
theorem run_exact_reaccepted :
    let events : List Event := [.accept 4, .receive 4 (ascii "login:b"), .disconnect 4, .accept 4,
      .receive 4 (ascii "login:c")]
    ((run events).1.clients.Nodup ∧
      (∀ s, s ∈ (run events).1.clients ↔ Holds s events) ∧
      (∀ u s, (run events).1.client_mapp.lookup u = some s ↔ LoggedIn u s events) ∧
      (∀ u s, (run events).1.client_mapp.lookup u = some s → s ∈ (run events).1.clients) ∧
      ∀ x ∈ (run events).2, x.isOpen = true) ∧
    LoggedIn (ascii "c") 4 events ∧ ¬ LoggedIn (ascii "b") 4 events := by
  intro events
  have hstay : ¬ Leaves 4 (.receive 4 (ascii "login:b")) := by
    rintro (he | ⟨_, he, hlogout⟩)
    · cases he
    · cases he
      exact absurd hlogout (by decide)
  have haccepted : Holds 4 [.accept 4] := ⟨[], _, [], rfl, rfl, nofun⟩
  have hlogin : Holds 4 ([.accept 4] ++ [.receive 4 (ascii "login:b")]) :=
    since_concat.mpr (.inr ⟨haccepted, hstay⟩)
  have hleft : ¬ Holds 4 ([.accept 4] ++ [.receive 4 (ascii "login:b")] ++ [.disconnect 4]) := by
    rw [Holds, since_concat]
    rintro (he | ⟨-, hlast⟩)
    · cases he
    · exact hlast (.inl rfl)
  have hagain : Holds 4 ([.accept 4] ++ [.receive 4 (ascii "login:b")] ++ [.disconnect 4] ++
      [.accept 4]) :=
    since_concat.mpr (.inl rfl)
  have hfirst := (History.nil.accept not_since_nil).receive (ascii "login:b") haccepted
  have hexact := run_exact events
    (((hfirst.disconnect hlogin).accept hleft).receive (ascii "login:c") hagain)
  refine ⟨hexact, (hexact.2.2.1 _ _).mp (by decide), fun hlogged => ?_⟩
  exact absurd ((hexact.2.2.1 _ _).mpr hlogged) (by decide)

end Directory

end BuildYourOwnStuff.ChatServer
