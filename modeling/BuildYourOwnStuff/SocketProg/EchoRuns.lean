import BuildYourOwnStuff.SocketProg.Equivalence
import BuildYourOwnStuff.SocketProg.Rounds

/-!
# Runs of the poll and the select server

The main loops of the two servers among clients that do what they like, but read on. Both
send back every byte, close every connection that ends, and never stop before. The select
server fails as soon as it is given a descriptor without a bit.
-/

namespace BuildYourOwnStuff.SocketProg

open Foundations

/-- The clients do something, or a server makes a pass. In the pass, `accept` can return `new_fd`,
the clients have done something since the server was woken, and there may be anything in the
memory of the buffers. -/
inductive Action (M : Type)
  | event (e : Event)
  | pass (new_fd : Fd) (between : List Event) (memory : M)

namespace Network

variable {n later : Network} {listener new_fd fd : Fd} {size : ℕ} {clients : List Fd} {M : Type}

/-- What was sent back to a client, with what was not yet received from it, is what it has sent.
A connection that is closed has ended. -/
structure Exact (n : Network) : Prop where
  echoed : ∀ i, (n.conn i).echoed ++ (n.conn i).pending = (n.conn i).arrived
  closed : ∀ i, (n.conn i).closed = true → (n.conn i).pending = [] ∧ (n.conn i).ended = true

/-- The server tracks the open connections, and when there is nothing to wake it, all is done. -/
structure WellServed (n : Network) (listener : Fd) (clients : List Fd) : Prop where
  exact : n.Exact
  nodup : clients.Nodup
  mem_iff : ∀ fd, fd ∈ clients ↔ n.client fd ≠ none
  complete : n.Quiet listener → n.Complete

/-- The server is woken, and there is a descriptor if it is to accept a connection. -/
def Productive (n : Network) (listener : Fd) : Action M → Prop
  | .event _ => False
  | .pass new_fd between _ => between = [] ∧ (∃ fd, n.ReadableAt listener fd) ∧
    (n.accepted < n.count → n.Free listener new_fd)

/-- A descriptor that is given to a connection has a bit. -/
def NewHasBit (n : Network) (listener : Fd) : Action M → Prop
  | .event _ => True
  | .pass new_fd between _ => n.accepted < n.count →
    (between.foldl event n).Free listener new_fd → new_fd < FD_SETSIZE

theorem tracked_init (listener : Fd) : ({} : Network).Tracked listener [] :=
  ⟨sound_init listener, fun _ => rfl, List.nodup_nil, fun _ => by simp⟩

theorem Tracked.wellServed (h : n.Tracked listener clients) : n.WellServed listener clients where
  exact := ⟨fun i => congrArg (· ++ (n.conn i).pending) (h.answered i),
    fun i hc => (h.sound.proper i).atEnd ((h.sound.proper i).closed hc)⟩
  nodup := h.nodup
  mem_iff := h.mem_iff
  complete := h.sound.complete h.answered

theorem Tracked.listener_notMem (h : n.Tracked listener clients) : listener ∉ clients :=
  fun hmem => (h.mem_iff listener).mp hmem h.sound.client_listener

theorem Tracked.event (h : n.Tracked listener clients) (e : Event) :
    (n.event e).Tracked listener clients :=
  h.events [e]

theorem length_received_kernel (fd : Fd) :
    ((kernel n later listener new_fd size).received fd).data.length ≤ size := by
  dsimp only [kernel]
  cases later.client fd with
  | none => exact Nat.zero_le _
  | some i => exact List.length_take_le _ _

/-- A pass of a server that is woken has something to do. -/
theorem Tracked.work_lt (h : n.Tracked listener clients) (size : ℕ) (hsize : 0 < size)
    {memory : M} {between : List Event}
    (hproductive : n.Productive listener (.pass new_fd between memory)) :
    let k := kernel n n listener new_fd size
    ((k.calls listener clients).foldl (call listener new_fd size) n).work < n.work := by
  obtain ⟨-, ⟨fd, hread⟩, hfree⟩ := hproductive
  obtain ⟨-, hclient, hlistener⟩ := h.pass [] new_fd hsize
  by_cases hfd : fd = listener
  · rw [ReadableAt, if_pos hfd] at hread
    exact hlistener hread (hfree hread)
  · refine hclient ⟨fd, (h.mem_iff fd).mpr ?_, hread⟩
    rw [ReadableAt, if_neg hfd] at hread
    obtain ⟨i, hi, -⟩ := hread
    rw [Option.mem_def.mp hi]
    exact Option.some_ne_none i

end Network

namespace PollServer

/-- The server at the beginning of its main loop, and the connections. -/
structure Running where
  network : Network := {}
  fds : List Pollfd

def start (listener : Fd) : Running := { fds := [⟨listener, POLLIN, 0⟩] }

def act (listener : Fd) (s : Running) : Action (Fd → Buffer) → Except Fault Running
  | .event e => .ok { s with network := s.network.event e }
  | .pass new_fd between memory => do
    let later := between.foldl Network.event s.network
    let served ← pass (s.network.kernel later listener new_fd 1024) listener memory s.fds
    return ⟨served.calls.foldl (Network.call listener new_fd 1024) later, served.fds⟩

/-- The entries are those of the listener and of the open connections. -/
def Kept (listener : Fd) (s : Running) : Prop :=
  ∃ clients, Watches s.fds listener clients ∧ s.network.Tracked listener clients

variable {listener : Fd} {s : Running}

theorem kept_start (listener : Fd) : Kept listener (start listener) :=
  ⟨[], ⟨rfl, by simp [start]⟩, Network.tracked_init listener⟩

theorem Kept.act (h : Kept listener s) (a : Action (Fd → Buffer)) :
    ∃ s', PollServer.act listener s a = .ok s' ∧ Kept listener s' ∧
      (s.network.Productive listener a → s'.network.work < s.network.work) := by
  obtain ⟨clients, hwatches, htracked⟩ := h
  cases a with
  | event e => exact ⟨_, rfl, ⟨clients, hwatches, htracked.event e⟩, False.elim⟩
  | pass new_fd between memory =>
    set later := between.foldl Network.event s.network
    set k := s.network.kernel later listener new_fd 1024 with hk
    obtain ⟨served, hserved, hwatches', hcalls⟩ := pass_eq (k := k) memory hwatches
      htracked.listener_notMem fun fd _ _ => Network.length_received_kernel fd
    refine ⟨⟨served.calls.foldl (Network.call listener new_fd 1024) later, served.fds⟩, ?_,
      ⟨k.tracked listener clients, hwatches', ?_⟩, fun hproductive => ?_⟩
    · rw [PollServer.act, ← hk, hserved]
      rfl
    · rw [hcalls]
      exact (htracked.pass between new_fd (by decide)).1
    · have hwork := htracked.work_lt 1024 (by decide) hproductive
      obtain ⟨rfl, -⟩ := hproductive
      rw [hcalls]
      exact hwork

/-- In every run with clients that read on, the server tracks the open connections and has sent back
what it has received. When nothing is there to wake it, all is done, and if the clients do nothing
more and `accept` gets descriptors, that is after so many passes. -/
theorem echoes (listener : Fd) (actions : List (Action (Fd → Buffer))) :
    ∃ s, actions.foldl (tryStep (act listener)) (.ok (start listener)) = .ok s ∧
      (∃ clients, Watches s.fds listener clients ∧ s.network.WellServed listener clients) ∧
      ∀ passes, AllSteps (tryStep (act listener))
        (fun s a => ∃ s', s = .ok s' ∧ s'.network.Productive listener a) (.ok s) passes →
          passes.length ≤ s.network.work := by
  obtain ⟨s, hrun, hkept⟩ := exists_foldl_tryStep (I := Kept listener)
    (fun s a h => (h.act a).imp fun _ h => ⟨h.1, h.2.1⟩) (kept_start listener) actions
  refine ⟨s, hrun, hkept.imp fun _ h => ⟨h.1, h.2.wellServed⟩, fun passes hpasses => ?_⟩
  refine length_le_of_tryStep (I := Kept listener) (Φ := fun s => s.network.work)
    (fun s a h hproductive => ?_) hkept hpasses
  exact (h.act a).imp fun _ h => ⟨h.1, h.2.1, h.2.2 hproductive⟩

end PollServer

namespace SelectServer

/-- The server at the beginning of its main loop, and the connections. -/
structure Running where
  network : Network := {}
  clients : List Fd := []

def act (listener : Fd) (s : Running) : Action Buffer → Except Fault Running
  | .event e => .ok { s with network := s.network.event e }
  | .pass new_fd between memory => do
    let later := between.foldl Network.event s.network
    let served ← pass (s.network.kernel later listener new_fd 1023) listener memory s.clients
    return ⟨served.calls.foldl (Network.call listener new_fd 1023) later, served.clients⟩

/-- The clients are the open connections, and each has a bit. -/
structure Kept (listener : Fd) (s : Running) : Prop where
  tracked : s.network.Tracked listener s.clients
  lt : ∀ fd ∈ s.clients, fd < FD_SETSIZE

variable {listener new_fd : Fd} {s s' : Running}

theorem kept_start (listener : Fd) : Kept listener {} :=
  ⟨Network.tracked_init listener, by simp⟩

theorem accepted_kernel_ne_zero (n later : Network) (size : ℕ) :
    (n.kernel later listener new_fd size).accepted ≠ 0 := by
  change (if later.Free listener new_fd then new_fd else -1) ≠ 0
  split_ifs with hfree
  · exact hfree.1.ne'
  · decide

/-- The descriptors of a pass. -/
theorem Kept.hasBit_iff (h : Kept listener s) (hlistener : HasBit listener)
    (between : List Event) (memory : Buffer) :
    (∀ fd ∈ listener :: s.clients ++ (s.network.kernel (between.foldl Network.event s.network)
      listener new_fd 1023).newClients listener, HasBit fd) ↔
        s.network.NewHasBit listener (.pass new_fd between memory) := by
  rw [List.forall_mem_append, Network.newClients_kernel, List.forall_mem_cons]
  have hclients : ∀ fd ∈ s.clients, HasBit fd := fun fd hfd => by
    obtain ⟨i, hi⟩ := Option.ne_none_iff_exists'.mp ((h.tracked.mem_iff fd).mp hfd)
    exact ⟨(h.tracked.sound.client fd i hi).1.le, h.lt fd hfd⟩
  rw [and_iff_right ⟨hlistener, hclients⟩, Network.NewHasBit]
  split_ifs with hnew
  · rw [List.forall_mem_singleton]
    exact ⟨fun hbit _ _ => hbit.2, fun hlt => ⟨hnew.2.1.le, hlt hnew.1 hnew.2⟩⟩
  · exact iff_of_true (List.forall_mem_nil _) fun hwaiting hfree => absurd ⟨hwaiting, hfree⟩ hnew

/-- A pass that is given no descriptor without a bit. -/
theorem Kept.act (h : Kept listener s) (hlistener : HasBit listener) {a : Action Buffer}
    (ha : s.network.NewHasBit listener a) :
    ∃ s', SelectServer.act listener s a = .ok s' ∧ Kept listener s' ∧
      (s.network.Productive listener a → s'.network.work < s.network.work) := by
  cases a with
  | event e => exact ⟨_, rfl, ⟨h.tracked.event e, h.lt⟩, False.elim⟩
  | pass new_fd between memory =>
    have hbit := (h.hasBit_iff hlistener between memory).mpr ha
    set later := between.foldl Network.event s.network
    set k := s.network.kernel later listener new_fd 1023 with hk
    have hnew : ∀ fd ∈ k.newClients listener, fd ∉ listener :: s.clients := by
      rw [hk, Network.newClients_kernel]
      split_ifs with hnew
      · rw [List.forall_mem_singleton, List.mem_cons, not_or, (h.tracked.events between).mem_iff]
        exact ⟨hnew.2.2.1, not_not.mpr hnew.2.2.2⟩
      · exact List.forall_mem_nil _
    obtain ⟨served, hserved, hclients, hcalls⟩ := pass_eq (k := k) memory hbit
      (accepted_kernel_ne_zero _ _ _) hnew fun fd _ _ => Network.length_received_kernel fd
    refine ⟨⟨served.calls.foldl (Network.call listener new_fd 1023) later, served.clients⟩, ?_,
      ⟨?_, ?_⟩, fun hproductive => ?_⟩
    · rw [SelectServer.act, ← hk, hserved]
      rfl
    · rw [hcalls, hclients]
      exact (h.tracked.pass between new_fd (by decide)).1
    · dsimp only
      rw [hclients]
      intro fd hfd
      rcases List.mem_append.mp hfd with hold | hnewFd
      · exact h.lt fd (List.mem_of_mem_filter hold)
      · exact (hbit fd (List.mem_append_right _ hnewFd)).2
    · have hwork := h.tracked.work_lt 1023 (by decide) hproductive
      obtain ⟨rfl, -⟩ := hproductive
      rw [hcalls]
      exact hwork

/-- A pass fails if it is given a descriptor without a bit. -/
theorem Kept.act_iff (h : Kept listener s) (hlistener : HasBit listener) (a : Action Buffer) :
    (∃ s', SelectServer.act listener s a = .ok s') ↔ s.network.NewHasBit listener a := by
  refine ⟨?_, fun ha => (h.act hlistener ha).imp fun _ h => h.1⟩
  rintro ⟨s', hact⟩
  cases a with
  | event e => trivial
  | pass new_fd between memory =>
    rw [SelectServer.act, bind_eq_ok] at hact
    obtain ⟨served, hserved, -⟩ := hact
    rw [← h.hasBit_iff hlistener between memory]
    exact hasBit_of_pass (accepted_kernel_ne_zero _ _ _) hserved

/-- A run of the server with clients that read on fails exactly when a connection is given a
descriptor without a bit. As long as it does not, the server does as the poll server. -/
theorem echoes_iff (hlistener : HasBit listener) (actions : List (Action Buffer)) :
    let run := actions.foldl (tryStep (act listener)) (.ok {})
    ((∃ s, run = .ok s) ↔ AllSteps (tryStep (act listener))
      (fun s a => ∀ s', s = .ok s' → s'.network.NewHasBit listener a) (.ok {}) actions) ∧
      ∀ s, run = .ok s → s.network.WellServed listener s.clients ∧
        ∀ passes, AllSteps (tryStep (act listener)) (fun s a => ∃ s', s = .ok s' ∧
            s'.network.NewHasBit listener a ∧ s'.network.Productive listener a) (.ok s) passes →
          passes.length ≤ s.network.work := by
  intro run
  have hI : ∀ s a s', Kept listener s → act listener s a = .ok s' → Kept listener s' := by
    intro s a s' h hact
    obtain ⟨s'', hact', hkept, -⟩ := h.act hlistener ((h.act_iff hlistener a).mp ⟨s', hact⟩)
    obtain rfl := Except.ok.inj (hact.symm.trans hact')
    exact hkept
  refine ⟨exists_foldl_tryStep_iff hI (fun s a h => h.act_iff hlistener a) (kept_start listener),
    fun s hrun => ?_⟩
  have hkept : Kept listener s := foldl_tryStep_invariant hI (kept_start listener) hrun
  refine ⟨hkept.tracked.wellServed, fun passes hpasses => ?_⟩
  refine length_le_of_tryStep (I := Kept listener) (Φ := fun s => s.network.work)
    (fun s a h hP => ?_) hkept hpasses
  exact (h.act hlistener hP.1).imp fun _ h => ⟨h.1, h.2.1, h.2.2 hP.2⟩

/-- Two clients, of which the second is given the last descriptor that has a bit. -/
theorem echoes_last_bit : ∃ s, [.event .connect, .pass 4 [] zeroBuffer, .event (.say 0 [0x61]),
    .event .connect, .pass 1023 [.leave 0] zeroBuffer].foldl (tryStep (act 3)) (.ok {}) =
      .ok s := by
  refine (echoes_iff (by decide) _).1.mpr ⟨fun _ _ => trivial, fun _ _ _ _ => by decide,
    fun _ _ => trivial, fun _ _ => trivial, fun _ _ _ _ => by decide, trivial⟩

end SelectServer

end BuildYourOwnStuff.SocketProg
