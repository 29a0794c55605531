import BuildYourOwnStuff.Foundations.Loops
import BuildYourOwnStuff.SocketProg.Sockets

/-!
# The pass of the poll server

The loop over `fds` appends to the vector and erases from it while it goes through it.
What is before the index is done with, and what is erased is at the index, so each
entry has one turn.
-/

namespace BuildYourOwnStuff.SocketProg

open Foundations

/-- The entries of `fds`. -/
structure Pollfd where
  fd : Fd
  events : UInt16
  revents : UInt16
  deriving DecidableEq, Repr

/-- The entry after a call of `poll`. -/
def Pollfd.polled (k : Kernel) (p : Pollfd) : Pollfd := { p with revents := k.revents p.fd }

/-- The entries of the listener and of some clients, in the order in which they came. -/
structure Watches (fds : List Pollfd) (listener : Fd) (clients : List Fd) : Prop where
  map_fd : fds.map Pollfd.fd = listener :: clients
  events : ∀ p ∈ fds, p.events = POLLIN

/-- The vector and the index of the loop, and the calls so far. An index of type `size_t`
that is decremented at 0 is 0 after the next increment, so it is an integer here. -/
structure PollServer where
  fds : List Pollfd
  i : ℤ := 0
  calls : List Call := []
  deriving DecidableEq, Repr

namespace PollServer

variable (k : Kernel) (listener : Fd) (memory : Fd → Buffer)

def acceptClient (s : PollServer) : PollServer :=
  let client_fd := k.accepted
  let s := { s with calls := s.calls ++ [Call.accept] }
  if client_fd > 0 then { s with fds := s.fds ++ [⟨client_fd, POLLIN, 0⟩] } else s

def serveClient (s : PollServer) (fd : Fd) : Except Fault PollServer := do
  let bytes := (k.received fd).upTo 1024
  let buffer ← store (memory fd).1 0 bytes.data
  let s := { s with calls := s.calls ++ [Call.recv fd] }
  if bytes.count ≤ 0 then
    -- the next entry moves to the index, and the loop increments it
    return { fds := s.fds.eraseIdx s.i.toNat, i := s.i - 1, calls := s.calls ++ [Call.close fd] }
  else
    return { s with calls := s.calls ++ [Call.send fd (buffer.take bytes.count.toNat)] }

/-- What a turn does with the entry at the index. -/
def turn (s : PollServer) : Except Fault PollServer :=
  match s.fds[s.i.toNat]? with
  | none => .error .undefined
  | some p =>
    if p.revents &&& POLLIN ≠ 0 then
      if p.fd = listener then .ok (s.acceptClient k) else s.serveClient k memory p.fd
    else .ok s

/-- The body of the loop, and `++i`. -/
def body (s : PollServer) : Except Fault PollServer := do
  let s ← s.turn k listener memory
  return { s with i := s.i + 1 }

/-- So many turns of the loop. -/
def loop (turns : ℕ) (s : PollServer) : Except Fault PollServer :=
  whileLoop (fun s : PollServer => .ok (s.i < s.fds.length)) (body k listener memory) .unended
    turns s

/-- One pass, from the call of `poll` on. -/
def pass (fds : List Pollfd) : Except Fault PollServer :=
  loop k listener memory (fds.length + 1) { fds := fds.map (Pollfd.polled k) }

variable {k listener memory} {p : Pollfd} {clients rest : List Pollfd} {calls : List Call}

theorem entry_at_index (visited : List Pollfd) :
    (visited ++ p :: rest)[(visited.length : ℤ).toNat]? = some p := by
  rw [Int.toNat_natCast, List.getElem?_append_right le_rfl, Nat.sub_self, List.getElem?_cons_zero]

/-- What the server does for a client. -/
theorem serveClient_eq (visited : List Pollfd) (hreadable : k.Readable p.fd)
    (hlength : (k.received p.fd).data.length ≤ 1024) :
    serveClient k memory ⟨visited ++ p :: rest, visited.length, calls⟩ p.fd =
      .ok (if k.Ended p.fd then ⟨visited ++ rest, visited.length - 1, calls ++ k.echo p.fd⟩
        else ⟨visited ++ p :: rest, visited.length, calls ++ k.echo p.fd⟩) := by
  have hdata : ((k.received p.fd).upTo 1024).data = (k.received p.fd).data :=
    Received.data_upTo_of_le hlength
  have herase : (visited ++ p :: rest).eraseIdx (visited.length : ℤ).toNat = visited ++ rest := by
    rw [Int.toNat_natCast, List.eraseIdx_append_of_length_le le_rfl, Nat.sub_self,
      List.eraseIdx_cons_zero]
  have hfits : (k.received p.fd).data.length ≤ (memory p.fd).1.length := by
    rw [(memory p.fd).2]
    exact hlength
  have hended : ((k.received p.fd).upTo 1024).count ≤ 0 ↔ k.Ended p.fd :=
    Kernel.count_upTo_le_zero_iff hreadable hlength
  have hstore : store (memory p.fd).1 0 (k.received p.fd).data =
      .ok (overwrite (memory p.fd).1 0 (k.received p.fd).data) :=
    store_eq (by omega)
  rw [serveClient]
  simp only [hdata, hstore, bind, Except.bind, hended, herase, Kernel.echo, if_pos hreadable]
  split_ifs
  · simp [pure, Except.pure]
  · rw [Received.toNat_count_upTo hlength, take_overwrite_zero hfits]
    simp [pure, Except.pure]

theorem body_of_turn {s s' : PollServer} (h : s.turn k listener memory = .ok s') :
    s.body k listener memory = .ok { s' with i := s'.i + 1 } := by
  rw [body, h]
  rfl

/-- An entry without an event is passed over. -/
theorem body_of_not_seen (visited : List Pollfd) (h : p.revents &&& POLLIN = 0) :
    body k listener memory ⟨visited ++ p :: rest, visited.length, calls⟩ =
      .ok ⟨visited ++ p :: rest, (visited ++ [p]).length, calls⟩ := by
  have hturn : turn k listener memory ⟨visited ++ p :: rest, visited.length, calls⟩ =
      .ok ⟨visited ++ p :: rest, visited.length, calls⟩ := by
    simp [turn, h]
  rw [body_of_turn hturn]
  simp

/-- The entry of a client stays where it is unless its connection has ended. -/
theorem body_client (visited : List Pollfd) (hne : p.fd ≠ listener)
    (hrevents : p.revents = k.revents p.fd)
    (hlength : k.Readable p.fd → (k.received p.fd).data.length ≤ 1024) :
    body k listener memory ⟨visited ++ p :: rest, visited.length, calls⟩ =
      .ok ⟨visited ++ [p].filter (fun p => ¬ k.Ended p.fd) ++ rest,
        (visited ++ [p].filter fun p => ¬ k.Ended p.fd).length, calls ++ k.echo p.fd⟩ := by
  by_cases hreadable : k.Readable p.fd
  · have hseen : p.revents &&& POLLIN ≠ 0 := by
      rw [hrevents]
      exact hreadable
    have hturn : turn k listener memory ⟨visited ++ p :: rest, visited.length, calls⟩ =
        serveClient k memory ⟨visited ++ p :: rest, visited.length, calls⟩ p.fd := by
      rw [turn, entry_at_index]
      dsimp only
      rw [if_pos hseen, if_neg hne]
    rw [serveClient_eq visited hreadable (hlength hreadable)] at hturn
    rw [body_of_turn hturn]
    by_cases hended : k.Ended p.fd <;> simp [hended]
  · have hseen : p.revents &&& POLLIN = 0 := by
      rw [hrevents]
      exact not_not.mp hreadable
    have hended : ¬ k.Ended p.fd := fun h => hreadable h.1
    rw [body_of_not_seen visited hseen]
    simp [Kernel.echo, hreadable, hended]

theorem loop_done {s : PollServer} (h : s.fds.length ≤ s.i) (turns : ℕ) :
    s.loop k listener memory turns = .ok s :=
  whileLoop_done (by simpa using h) turns

theorem loop_turn {s s' : PollServer} (h : s.i < s.fds.length)
    (hbody : s.body k listener memory = .ok s') (turns : ℕ) :
    s.loop k listener memory (turns + 1) = s'.loop k listener memory turns :=
  whileLoop_turn (by simpa using h) hbody turns

/-- The turns of the clients. -/
theorem loop_clients (hne : ∀ p ∈ clients, p.fd ≠ listener)
    (hrevents : ∀ p ∈ clients, p.revents = k.revents p.fd)
    (hlength : ∀ p ∈ clients, k.Readable p.fd → (k.received p.fd).data.length ≤ 1024)
    (visited : List Pollfd) (turns : ℕ) :
    loop k listener memory (clients.length + turns)
        ⟨visited ++ clients ++ rest, visited.length, calls⟩ =
      loop k listener memory turns
        ⟨visited ++ clients.filter (fun p => ¬ k.Ended p.fd) ++ rest,
          (visited ++ clients.filter fun p => ¬ k.Ended p.fd).length,
          calls ++ clients.flatMap fun p => k.echo p.fd⟩ := by
  induction clients generalizing visited calls with
  | nil => simp
  | cons p clients ih =>
    rw [List.forall_mem_cons] at hne hrevents hlength
    -- the turn of `p` puts it behind the index or takes it out, and the others follow
    have hlt : (visited.length : ℤ) < (visited ++ p :: (clients ++ rest)).length := by
      simp only [List.length_append, List.length_cons]
      omega
    rw [List.append_assoc, List.cons_append, List.length_cons, Nat.add_right_comm,
      loop_turn hlt (body_client visited hne.1 hrevents.1 hlength.1), ← List.append_assoc,
      ih hne.2 hrevents.2 hlength.2]
    rw [List.filter_cons, List.flatMap_cons, List.append_assoc calls]
    by_cases hended : k.Ended p.fd <;> simp [hended]

/-- The entries that are made for new clients. -/
def newEntries (k : Kernel) (listener : Fd) : List Pollfd :=
  (k.newClients listener).map fun fd => ⟨fd, POLLIN, 0⟩

/-- The turn of the listener. -/
theorem body_listener (hfd : p.fd = listener) (hrevents : p.revents = k.revents p.fd) :
    body k listener memory ⟨p :: rest, 0, []⟩ =
      .ok ⟨[p] ++ rest ++ newEntries k listener, [p].length, k.calls listener []⟩ := by
  subst hfd
  by_cases hreadable : k.Readable p.fd
  · have hseen : p.revents &&& POLLIN ≠ 0 := by
      rw [hrevents]
      exact hreadable
    have hturn : turn k p.fd memory ⟨p :: rest, 0, []⟩ =
        .ok (acceptClient k ⟨p :: rest, 0, []⟩) := by
      simp [turn, hseen]
    rw [body_of_turn hturn]
    by_cases haccepted : 0 < k.accepted <;>
      simp [acceptClient, newEntries, Kernel.newClients, Kernel.calls, hreadable, haccepted]
  · have hseen : p.revents &&& POLLIN = 0 := by
      rw [hrevents]
      exact not_not.mp hreadable
    have hbody : body k p.fd memory ⟨p :: rest, 0, []⟩ = .ok ⟨p :: rest, 1, []⟩ :=
      body_of_not_seen [] hseen
    rw [hbody]
    simp [newEntries, Kernel.newClients, Kernel.calls, hreadable]

/-- A new client has no event yet. -/
theorem loop_new (visited : List Pollfd) : ∃ i, loop k listener memory 1
    ⟨visited ++ newEntries k listener, visited.length, calls⟩ =
      .ok ⟨visited ++ newEntries k listener, i, calls⟩ := by
  rw [newEntries, Kernel.newClients]
  split_ifs
  · rw [List.map_singleton]
    refine ⟨(visited ++ [(⟨k.accepted, POLLIN, 0⟩ : Pollfd)]).length, ?_⟩
    have hseen : (⟨k.accepted, POLLIN, 0⟩ : Pollfd).revents &&& POLLIN = 0 := UInt16.zero_and
    rw [loop_turn (by simp) (body_of_not_seen visited hseen)]
    exact loop_done le_rfl 0
  · exact ⟨visited.length, loop_done (by simp) 1⟩

/-- The entries whose clients are left after a pass. -/
def keptEntries (k : Kernel) (entries : List Pollfd) : List Pollfd :=
  (entries.filter fun p => ¬ k.Ended p.fd).map (Pollfd.polled k)

/-- The pass up to the end of the entries that were there before. -/
theorem pass_loop {entries : List Pollfd} (hp : p.fd = listener)
    (hne : ∀ q ∈ entries, q.fd ≠ listener)
    (hlength : ∀ q ∈ entries, k.Readable q.fd → (k.received q.fd).data.length ≤ 1024) :
    pass k listener memory (p :: entries) = loop k listener memory 1
      ⟨p.polled k :: keptEntries k entries ++ newEntries k listener,
        (p.polled k :: keptEntries k entries).length,
        k.calls listener (entries.map Pollfd.fd)⟩ := by
  have hturns : (p :: entries).length + 1 = (entries.map (Pollfd.polled k)).length + 1 + 1 := by
    rw [List.length_map, List.length_cons]
  have hfirst : body k listener memory ⟨p.polled k :: entries.map (Pollfd.polled k), 0, []⟩ =
      .ok ⟨[p.polled k] ++ entries.map (Pollfd.polled k) ++ newEntries k listener,
        [p.polled k].length, k.calls listener []⟩ :=
    body_listener hp rfl
  have hkept : (entries.map (Pollfd.polled k)).filter (fun q => ¬ k.Ended q.fd) =
      keptEntries k entries :=
    List.filter_map
  have hcalls : k.calls listener [] ++
      (entries.map (Pollfd.polled k)).flatMap (fun q => k.echo q.fd) =
        k.calls listener (entries.map Pollfd.fd) := by
    rw [← k.calls_append listener (entries.map Pollfd.fd), List.flatMap_map, List.flatMap_map]
    rfl
  have hothers : ∀ q ∈ entries.map (Pollfd.polled k), q.fd ≠ listener :=
    List.forall_mem_map.mpr hne
  have hrevents : ∀ q ∈ entries.map (Pollfd.polled k), q.revents = k.revents q.fd :=
    List.forall_mem_map.mpr fun _ _ => rfl
  have hlengths : ∀ q ∈ entries.map (Pollfd.polled k), k.Readable q.fd →
      (k.received q.fd).data.length ≤ 1024 :=
    List.forall_mem_map.mpr hlength
  rw [pass, hturns, List.map_cons, loop_turn (by simp) hfirst,
    loop_clients hothers hrevents hlengths, hkept, hcalls]
  rfl

/-- The entries after a pass. -/
theorem watches_tracked {entries : List Pollfd}
    (hfds : Watches (p :: entries) listener (entries.map Pollfd.fd)) :
    Watches (p.polled k :: keptEntries k entries ++ newEntries k listener) listener
      (k.tracked listener (entries.map Pollfd.fd)) := by
  obtain ⟨hmap, hevents⟩ := hfds
  rw [List.forall_mem_cons] at hevents
  constructor
  · have hnewFds : (newEntries k listener).map Pollfd.fd = k.newClients listener := by
      rw [newEntries, List.map_map]
      exact List.map_id _
    rw [Kernel.tracked, List.map_append, hnewFds, List.map_cons, keptEntries, List.map_map,
      List.filter_map]
    exact congrArg (· :: _) (List.cons.inj hmap).1
  · refine List.forall_mem_append.mpr ⟨List.forall_mem_cons.mpr ⟨hevents.1, ?_⟩, ?_⟩
    · exact List.forall_mem_map.mpr fun q hq => hevents.2 q (List.mem_of_mem_filter hq)
    · exact List.forall_mem_map.mpr fun _ _ => rfl

/-- One pass of the loop, from the listener and some clients. -/
theorem pass_eq (memory : Fd → Buffer) {fds : List Pollfd} {clients : List Fd}
    (hfds : Watches fds listener clients) (hne : listener ∉ clients)
    (hlength : ∀ fd ∈ clients, k.Readable fd → (k.received fd).data.length ≤ 1024) :
    ∃ s, pass k listener memory fds = .ok s ∧
      Watches s.fds listener (k.tracked listener clients) ∧
        s.calls = k.calls listener clients := by
  obtain ⟨p, entries, rfl, hp, rfl⟩ := List.map_eq_cons_iff.mp hfds.map_fd
  have hothers : ∀ q ∈ entries, q.fd ≠ listener := fun q hq =>
    ne_of_mem_of_not_mem (List.mem_map_of_mem hq) hne
  obtain ⟨i, hnew⟩ := loop_new (p.polled k :: keptEntries k entries)
  exact ⟨_, (pass_loop hp hothers (List.forall_mem_map.mp hlength)).trans hnew,
    watches_tracked hfds, rfl⟩

end PollServer

end BuildYourOwnStuff.SocketProg
