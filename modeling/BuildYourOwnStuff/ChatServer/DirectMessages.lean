import BuildYourOwnStuff.ChatServer.Directory

/-!
# Direct messages

A login takes all that follows the first colon as the username, while a direct message
takes what is before the next one. So the users that can be reached by direct messages
are those without a colon in their names.
-/

namespace BuildYourOwnStuff.ChatServer

open Foundations GoStd

/-- What a client sends to log in. -/
def loginMessage (username : Bytes) : Bytes := ascii "login" ++ colon :: username

/-- What a client sends to reach a user. -/
def directMessage (username text : Bytes) : Bytes :=
  ascii "direct" ++ colon :: (username ++ colon :: text)

/-- The text at the receiver and the confirmation at the sender, and nothing else. -/
def delivered (sender receiver : Socket) (text : Bytes) : List Sent :=
  [⟨receiver, directLabel ++ text, true⟩,
    ⟨sender, ascii "Direct message sent successfully.", true⟩]

theorem parseMessage_loginMessage (username : Bytes) :
    parseMessage (loginMessage username) = (.login, username) := by
  rw [parseMessage, loginMessage, cut_append_sep (by decide)]
  rfl

theorem parseMessage_directMessage (username text : Bytes) :
    parseMessage (directMessage username text) = (.direct, username ++ colon :: text) := by
  rw [parseMessage, directMessage, cut_append_sep (by decide)]
  rfl

theorem loginName_loginMessage (username : Bytes) :
    loginName (loginMessage username) = some username := by
  rw [loginName, parseMessage_loginMessage, if_pos rfl]

namespace Directory

variable {d : Directory} {c : Socket} {u v text : Bytes}

/-- A direct message goes to the user whose name is before the colon. -/
theorem exec_direct_of_mem {s : Socket} (hu : colon ∉ u) (hs : d.client_mapp.lookup u = some s) :
    ((handleDirectMessage (u ++ colon :: text) c).exec d).2 =
      [⟨s, directLabel ++ text, s ∈ d.opened⟩,
        ⟨c, ascii "Direct message sent successfully.", c ∈ d.opened⟩] := by
  have hmem : u ∈ d.client_mapp := Finmap.mem_of_lookup_eq_some hs
  have hindex : d.index u = (d, s) := by
    rw [index, hs]
  simp [handleDirectMessage, cut_append_sep hu, Program.exec, hmem, hindex]

theorem exec_direct_of_notMem (hu : colon ∉ u) (hmem : u ∉ d.client_mapp) :
    ((handleDirectMessage (u ++ colon :: text) c).exec d).2 =
      [⟨c, ascii "Error: Receiver not found or offline.", c ∈ d.opened⟩] := by
  simp [handleDirectMessage, cut_append_sep hu, Program.exec, hmem]

/-- A name with a colon is cut, and its end goes to the text. -/
theorem exec_direct_ne_delivered {s : Socket} (hu : colon ∈ u) :
    ((handleDirectMessage (u ++ colon :: text) c).exec d).2 ≠ delivered c s text := by
  obtain ⟨v, w, rfl, hv⟩ := List.eq_append_cons_of_mem hu
  rw [List.append_assoc, List.cons_append]
  by_cases hmem : v ∈ d.client_mapp
  · obtain ⟨s', hs'⟩ := Finmap.mem_iff.mp hmem
    rw [exec_direct_of_mem hv hs', delivered]
    intro h
    have hmessage := congrArg (fun sent : List Sent => sent.map fun x => x.message.length) h
    simp at hmessage
    omega
  · rw [exec_direct_of_notMem hv hmem, delivered]
    intro h
    simp at h

/-- A client that sends to a user who is logged in reaches that user, and is told so,
exactly if there is no colon in the username. -/
theorem delivered_iff {events : List Event} (h : History events) {u : Bytes} {s c : Socket}
    (hlogged : LoggedIn u s events) (hc : Holds c events) (text : Bytes) :
    ((run events).1.serve (.receive c (directMessage u text))).2 = delivered c s text ↔
      colon ∉ u := by
  have hexact := exact_run h
  have hserve : ((run events).1.serve (.receive c (directMessage u text))).2 =
      ((handleDirectMessage (u ++ colon :: text) c).exec (run events).1).2 := by
    rw [serve, handleMessage, parseMessage_directMessage]
    rfl
  rw [hserve]
  constructor
  · intro hsent hu
    exact exec_direct_ne_delivered hu hsent
  · intro hu
    have hopen : s ∈ (run events).1.opened :=
      (hexact.mem_opened s).mpr (holds_of_loggedIn h hlogged)
    rw [exec_direct_of_mem hu ((hexact.lookup u s).mpr hlogged), delivered, decide_eq_true hopen,
      decide_eq_true ((hexact.mem_opened c).mpr hc)]

/-- A user logs in, and another client is connected. -/
def twoClients (u : Bytes) : List Event :=
  [.accept 4, .receive 4 (loginMessage u), .accept 5]

theorem twoClients_connected (u : Bytes) :
    History (twoClients u) ∧ LoggedIn u 4 (twoClients u) ∧ Holds 5 (twoClients u) := by
  have hlogin : LoginAs u 4 (.receive 4 (loginMessage u)) :=
    ⟨_, rfl, loginName_loginMessage u⟩
  have hfirst : Holds 4 [.accept 4] := ⟨[], _, [], rfl, rfl, List.forall_mem_nil _⟩
  have hsecond : ¬ Holds 5 [.accept 4, .receive 4 (loginMessage u)] := by
    rintro ⟨pre, e, post, heq, rfl, -⟩
    have hmem : Event.accept 5 ∈ [Event.accept 4, .receive 4 (loginMessage u)] := by
      rw [heq]
      simp
    simp at hmem
  refine ⟨((History.nil.accept not_since_nil).receive _ hfirst).accept hsecond, ?_, ?_⟩
  · refine ⟨[.accept 4], _, [.accept 5], rfl, hlogin, fun e he => ?_⟩
    rw [List.mem_singleton.mp he]
    simp [Leaves, LoginAs]
  · exact ⟨[.accept 4, .receive 4 (loginMessage u)], _, [], rfl, rfl, List.forall_mem_nil _⟩

theorem delivered_iff_bob :
    ((run (twoClients (ascii "bob"))).1.serve
      (.receive 5 (directMessage (ascii "bob") (ascii "8:30?")))).2 =
        delivered 5 4 (ascii "8:30?") ↔ colon ∉ ascii "bob" :=
  delivered_iff (twoClients_connected (ascii "bob")).1 (twoClients_connected (ascii "bob")).2.1
    (twoClients_connected (ascii "bob")).2.2 (ascii "8:30?")

/-- The user "a:b" has logged in and cannot be found. -/
theorem colon_not_found :
    History (twoClients (ascii "a:b")) ∧ LoggedIn (ascii "a:b") 4 (twoClients (ascii "a:b")) ∧
      Holds 5 (twoClients (ascii "a:b")) ∧
      ((run (twoClients (ascii "a:b"))).1.serve
        (.receive 5 (directMessage (ascii "a:b") (ascii "hi")))).2 =
          [⟨5, ascii "Error: Receiver not found or offline.", true⟩] := by
  obtain ⟨hhistory, hlogged, hholds⟩ := twoClients_connected (ascii "a:b")
  exact ⟨hhistory, hlogged, hholds, by decide⟩

end Directory

end BuildYourOwnStuff.ChatServer
