import BuildYourOwnStuff.SocketProg.Connections
import BuildYourOwnStuff.SocketProg.Epoll

/-!
# Runs of the epoll server

The server within its loop among clients that do what they like, but read on. As long as
`send` accepts what it is given, every byte is sent back, every connection that ends is
closed, and the server never stops before.
-/

namespace BuildYourOwnStuff.SocketProg.EpollServer

open Foundations

structure Running where
  network : Network := {}
  server : EpollServer := {}

/-- The clients do something, or the server makes its next call: `epoll_wait` can return `ready`,
`accept` can return `new_fd`, and `send` does as it likes. -/
inductive Action
  | event (e : Event)
  | call (ready : List Fd) (new_fd : Fd) (sent : Sent)

def MAX_EVENTS : ℕ := 1024

/-- `epoll_wait` returns some of the descriptors that are readable. -/
def Returned (n : Network) (listener : Fd) (ready : List Fd) : Prop :=
  ready ≠ [] ∧ ready.Nodup ∧ ready.length ≤ MAX_EVENTS ∧ ∀ fd ∈ ready, n.ReadableAt listener fd

instance (n : Network) (listener : Fd) (ready : List Fd) : Decidable (Returned n listener ready) :=
  inferInstanceAs (Decidable (_ ∧ _ ∧ _ ∧ _))

/-- What there is to receive at a descriptor. -/
def arriving (n : Network) (fd : Fd) : Received :=
  match n.client fd with
  | none => .error
  | some i => .bytes (n.conn i).pending

/-- What the call of `recv`, and that of `close` after it, do to the connections. -/
def serve (n : Network) (listener fd : Fd) : Network :=
  let n' := n.call listener fd 1024 (.recv fd)
  if ((arriving n fd).upTo 1024).count ≤ 0 then n'.call listener fd 1024 (.close fd) else n'

/-- If `epoll_wait` has nothing to return, it waits. -/
def act (listener : Fd) (s : Running) : Action → Running
  | .event e => { s with network := s.network.event e }
  | .call ready new_fd sent =>
    match s.server.buffer, s.server.events with
    | some (fd, data), _ =>
      ⟨s.network.call listener fd 1024 (.send fd (data.take sent.count)),
        s.server.step listener (.send sent)⟩
    | none, [] =>
      if Returned s.network listener ready then ⟨s.network, s.server.step listener (.wait ready)⟩
      else s
    | none, fd :: _ =>
      if fd = listener then
        ⟨s.network.accept listener new_fd, s.server.step listener (.accept
          (if s.network.Free listener new_fd then new_fd else -1))⟩
      else ⟨serve s.network listener fd, s.server.step listener (.recv (arriving s.network fd))⟩

/-- If the call is that of `send`, it accepts all the bytes. -/
def SendsAll (s : Running) : Action → Prop
  | .event _ => True
  | .call _ _ sent => s.server.AcceptsAll (.send sent)

/-- A call of the server that need not wait, and for which there is a descriptor. -/
def Productive (listener : Fd) (s : Running) : Action → Prop
  | .event _ => False
  | .call ready new_fd sent => s.server.AcceptsAll (.send sent) ∧
    (s.server.buffer = none → s.server.events = [] → Returned s.network listener ready) ∧
    (s.server.buffer = none → s.server.events.head? = some listener →
      s.network.Free listener new_fd)

/-- The server knows what was received and sent back on each open connection, and has all of it
but what it still holds. The descriptors at which it has still to look are readable. -/
structure Kept (listener : Fd) (s : Running) : Prop where
  sound : s.network.Sound listener
  clients : ∀ fd, s.server.clients fd = (s.network.client fd).map fun i =>
    ⟨(s.network.conn i).taken, (s.network.conn i).echoed⟩
  nodup : s.server.events.Nodup
  readable : ∀ fd ∈ s.server.events, s.network.ReadableAt listener fd
  echoed : ∀ fd i, s.network.client fd = some i →
    (s.network.conn i).echoed ++ s.server.held fd = (s.network.conn i).taken
  answered : ∀ i, (∀ fd, s.network.client fd ≠ some i) → (s.network.conn i).Answered
  opened : ∀ i, (s.network.accepted ≤ i ∨ ∃ fd, s.network.client fd = some i) →
    (s.network.conn i).atEnd = false
  fresh : ∀ i, s.network.accepted ≤ i → (s.network.conn i).taken = []
  buffered : ∀ fd data, s.server.buffer = some (fd, data) →
    s.network.client fd ≠ none ∧ data ≠ []

variable {listener fd : Fd} {s : Running} {i : ℕ}

theorem readableAt_mono {n n' : Network} (h : n.ReadableAt listener fd)
    (hlistener : fd = listener → n.accepted < n.count → n'.accepted < n'.count)
    (hclient : fd ≠ listener → n'.client fd = n.client fd)
    (hconn : ∀ i, n.client fd = some i → (n.conn i).Readable → (n'.conn i).Readable) :
    n'.ReadableAt listener fd := by
  rw [Network.ReadableAt] at h ⊢
  split_ifs at h ⊢ with hfd
  · exact hlistener hfd h
  · obtain ⟨i, hi, hread⟩ := h
    rw [hclient hfd]
    exact ⟨i, hi, hconn i hi hread⟩

theorem kept_start (listener : Fd) : Kept listener {} where
  sound := Network.sound_init listener
  clients _ := rfl
  nodup := List.nodup_nil
  readable := List.forall_mem_nil _
  echoed _ _ hi := by cases hi
  answered _ _ := rfl
  opened _ _ := rfl
  fresh _ _ := rfl
  buffered _ _ h := by cases h

theorem Kept.event (h : Kept listener s) (e : Event) :
    Kept listener { s with network := s.network.event e } := by
  have hlater := Network.later_event s.network e
  refine ⟨h.sound.event e, fun fd => ?_, h.nodup, fun fd hfd => ?_, fun fd i hi => ?_,
    fun i hi => ?_, fun i hi => ?_, fun i hi => ?_, fun fd data hbuffer => ?_⟩
  · rw [h.clients fd]
    dsimp only
    rw [hlater.client]
    cases s.network.client fd with
    | none => rfl
    | some i => simp [(hlater.unseen i).taken, (hlater.unseen i).echoed]
  · refine readableAt_mono (h.readable fd hfd) (fun _ hlt => ?_) (fun _ => by rw [hlater.client])
      fun i _ => (hlater.unseen i).readable
    rw [hlater.accepted]
    exact hlt.trans_le hlater.count
  · dsimp only at hi ⊢
    rw [hlater.client] at hi
    rw [(hlater.unseen i).echoed, (hlater.unseen i).taken]
    exact h.echoed fd i hi
  · dsimp only at hi ⊢
    rw [hlater.client] at hi
    exact (hlater.unseen i).answered (h.answered i hi)
  · dsimp only at hi ⊢
    rw [hlater.client, hlater.accepted] at hi
    rw [(hlater.unseen i).atEnd]
    exact h.opened i hi
  · dsimp only at hi ⊢
    rw [hlater.accepted] at hi
    rw [(hlater.unseen i).taken]
    exact h.fresh i hi
  · dsimp only
    rw [hlater.client]
    exact h.buffered fd data hbuffer

/-- A call for one client, but for the closing of its connection. -/
theorem Kept.modify (h : Kept listener s) (hi : s.network.client fd = some i)
    {f : Connection → Connection} (hproper : (f (s.network.conn i)).Proper)
    (hclosed : (f (s.network.conn i)).closed = (s.network.conn i).closed)
    (hend : (f (s.network.conn i)).atEnd = false) {server : EpollServer}
    (hclients : server.clients = Function.update s.server.clients fd
      (some ⟨(f (s.network.conn i)).taken, (f (s.network.conn i)).echoed⟩))
    (hnodup : server.events.Nodup) (hevents : ∀ fd' ∈ server.events, fd' ∈ s.server.events)
    (hreadable : fd ∈ server.events → (f (s.network.conn i)).Readable)
    (hheld : ∀ fd' ≠ fd, server.held fd' = s.server.held fd')
    (hself : (f (s.network.conn i)).echoed ++ server.held fd = (f (s.network.conn i)).taken)
    (hbuffer : ∀ fd' data, server.buffer = some (fd', data) → fd' = fd ∧ data ≠ []) :
    Kept listener ⟨s.network.modify i f, server⟩ := by
  refine ⟨h.sound.modify hproper hclosed, fun fd' => ?_, hnodup, fun fd' hfd' => ?_,
    fun fd' j hj => ?_, fun j hj => ?_, fun j hj => ?_, fun j hj => ?_, fun fd' data hdata => ?_⟩
  · change server.clients fd' = (s.network.client fd').map _
    rw [hclients]
    by_cases hfd : fd' = fd
    · rw [hfd, Function.update_self, hi, Option.map_some, Network.conn_modify_self]
    · rw [Function.update_of_ne hfd, h.clients]
      cases hj : s.network.client fd' with
      | none => rfl
      | some j =>
        rw [Option.map_some, Option.map_some,
          Network.conn_modify_of_ne (h.sound.ne_of_fd_ne hi hj hfd)]
  · refine readableAt_mono (h.readable fd' (hevents fd' hfd')) (fun _ => id) (fun _ => rfl)
      fun j hj hread => ?_
    by_cases hfd : fd' = fd
    · rw [hfd] at hj hfd'
      obtain rfl := Option.some.inj (hi.symm.trans hj)
      rw [Network.conn_modify_self]
      exact hreadable hfd'
    · rwa [Network.conn_modify_of_ne (h.sound.ne_of_fd_ne hi hj hfd)]
  · change s.network.client fd' = some j at hj
    dsimp only
    by_cases hfd : fd' = fd
    · rw [hfd] at hj ⊢
      obtain rfl := Option.some.inj (hi.symm.trans hj)
      rw [Network.conn_modify_self]
      exact hself
    · rw [Network.conn_modify_of_ne (h.sound.ne_of_fd_ne hi hj hfd), hheld fd' hfd]
      exact h.echoed fd' j hj
  · have hne : j ≠ i := by
      rintro rfl
      exact hj fd hi
    dsimp only
    rw [Network.conn_modify_of_ne hne]
    exact h.answered j hj
  · dsimp only
    by_cases hne : j = i
    · rw [hne, Network.conn_modify_self]
      exact hend
    · rw [Network.conn_modify_of_ne hne]
      exact h.opened j hj
  · dsimp only
    rw [Network.conn_modify_of_ne (h.sound.ne_of_accepted_le hi hj)]
    exact h.fresh j hj
  · obtain ⟨rfl, hne⟩ := hbuffer fd' data hdata
    refine ⟨?_, hne⟩
    change s.network.client fd' ≠ none
    rw [hi]
    exact Option.some_ne_none i

theorem Kept.send (h : Kept listener s) {data : Bytes} (hbuffer : s.server.buffer = some (fd, data))
    {sent : Sent} (hall : data.length ≤ sent.count) :
    let s' : Running := ⟨s.network.call listener fd 1024 (.send fd (data.take sent.count)),
      s.server.step listener (.send sent)⟩
    Kept listener s' ∧ s'.network.work < s.network.work := by
  obtain ⟨hopen, hne⟩ := h.buffered fd data hbuffer
  obtain ⟨i, hi⟩ := Option.ne_none_iff_exists'.mp hopen
  have hclient := h.sound.client fd i hi
  have hechoed := h.echoed fd i hi
  rw [held_of_some hbuffer, if_pos rfl] at hechoed
  have htraffic := h.clients fd
  rw [hi, Option.map_some] at htraffic
  intro s'
  have hs' : s' = ⟨s.network.modify i (.send data),
      { s.server with
        clients := Function.update s.server.clients fd
          (some ⟨(s.network.conn i).taken, (s.network.conn i).echoed ++ data⟩)
        buffer := none }⟩ := by
    simp only [s', Network.call, Network.onClient_of_some hi, EpollServer.step, EpollServer.send,
      hbuffer, htraffic, Option.map_some, List.take_of_length_le hall]
  rw [hs']
  constructor
  · refine h.modify hi ((h.sound.proper i).send data) rfl (h.opened i (.inr ⟨fd, hi⟩)) rfl h.nodup
      (fun _ hmem => hmem) (fun hmem => ?_) (fun fd' hfd' => ?_) ?_ ?_
    · exact (Network.readableAt_iff hi hclient.2.1).mp (h.readable fd hmem)
    · rw [held_of_none rfl, held_of_some hbuffer, if_neg hfd'.symm]
    · rw [held_of_none rfl, List.append_nil]
      exact hechoed
    · rintro fd' data' ⟨⟩
  · refine Network.work_lt_of_conn rfl rfl (hclient.2.2.1.trans_le h.sound.accepted_le) ?_
      fun j hj => Network.conn_modify_of_ne hj _
    rw [Network.conn_modify_self]
    exact Connection.work_send_lt hechoed hne

/-- The end of a stream is received, and the connection closed. -/
theorem Kept.close (h : Kept listener s) (hbuffer : s.server.buffer = none) {es : List Fd}
    (hevents : s.server.events = fd :: es) (hi : s.network.client fd = some i)
    (hreadable : (s.network.conn i).Readable) (hnil : (s.network.conn i).pending = [])
    {server : EpollServer} (hclients : server.clients = Function.update s.server.clients fd none)
    (hes : server.events = es) (hnone : server.buffer = none) :
    Kept listener ⟨(s.network.modify i (.receive 1024)).call listener fd 1024 (.close fd),
      server⟩ := by
  have hclient := h.sound.client fd i hi
  have hnodup := h.nodup
  rw [hevents, List.nodup_cons] at hnodup
  have hsound : ((s.network.modify i (.receive 1024)).call listener fd 1024 (.close fd)).Sound
      listener := by
    refine (h.sound.modify (Connection.proper_receive hreadable hclient.2.2.2 1024) rfl).close
      (i := i) hi ?_ fd 1024
    rw [Network.conn_modify_self]
    exact decide_eq_true hnil
  have hanswered : (s.network.conn i).Answered := by
    have hechoed := h.echoed fd i hi
    rwa [held_of_none hbuffer, List.append_nil] at hechoed
  have hi' : (s.network.modify i (.receive 1024)).client fd = some i := hi
  rw [Network.call, Network.onClient_of_some hi', Network.modify_modify] at hsound ⊢
  refine ⟨hsound, fun fd' => ?_, hes ▸ hnodup.2, fun fd' hfd' => ?_, fun fd' j hj => ?_,
    fun j hj => ?_, fun j hj => ?_, fun j hj => ?_, fun fd' data hdata => ?_⟩
  · change server.clients fd' = (Function.update s.network.client fd none fd').map _
    rw [hclients]
    by_cases hfd : fd' = fd
    · rw [hfd, Function.update_self, Function.update_self]
      rfl
    · rw [Function.update_of_ne hfd, Function.update_of_ne hfd, h.clients]
      cases hj : s.network.client fd' with
      | none => rfl
      | some j => simp [Network.conn_modify_of_ne (h.sound.ne_of_fd_ne hi hj hfd)]
  · change fd' ∈ server.events at hfd'
    rw [hes] at hfd'
    have hne : fd' ≠ fd := ne_of_mem_of_not_mem hfd' hnodup.1
    have hmem : fd' ∈ s.server.events := by
      rw [hevents]
      exact List.mem_cons_of_mem _ hfd'
    refine readableAt_mono (h.readable fd' hmem) (fun _ => id)
      (fun _ => Function.update_of_ne hne _ _) fun j hj hread => ?_
    dsimp only
    rwa [Network.conn_modify_of_ne (h.sound.ne_of_fd_ne hi hj hne)]
  · obtain ⟨hj, hne⟩ := (h.sound.client_close_iff hi).mp hj
    have hechoed := h.echoed fd' j hj
    rw [held_of_none hbuffer] at hechoed
    dsimp only
    rw [held_of_none hnone]
    rwa [Network.conn_modify_of_ne hne]
  · dsimp only
    by_cases hne : j = i
    · rw [hne, Network.conn_modify_self]
      exact hanswered.close_receive hnil 1024
    · rw [Network.conn_modify_of_ne hne]
      exact h.answered j fun fd' hfd' => hj fd' ((h.sound.client_close_iff hi).mpr ⟨hfd', hne⟩)
  · dsimp only at hj ⊢
    rcases hj with hj | ⟨fd', hj⟩
    · rw [Network.conn_modify_of_ne (h.sound.ne_of_accepted_le hi hj)]
      exact h.opened j (.inl hj)
    · obtain ⟨hj, hne⟩ := (h.sound.client_close_iff hi).mp hj
      rw [Network.conn_modify_of_ne hne]
      exact h.opened j (.inr ⟨fd', hj⟩)
  · dsimp only at hj ⊢
    rw [Network.conn_modify_of_ne (h.sound.ne_of_accepted_le hi hj)]
    exact h.fresh j hj
  · exact absurd (hnone.symm.trans hdata) (Option.some_ne_none _).symm

theorem Kept.recv (h : Kept listener s) (hbuffer : s.server.buffer = none) {es : List Fd}
    (hevents : s.server.events = fd :: es) (hfd : fd ≠ listener) :
    let s' : Running :=
      ⟨serve s.network listener fd, s.server.step listener (.recv (arriving s.network fd))⟩
    Kept listener s' ∧ s'.network.work < s.network.work := by
  have hread := h.readable fd (by simp [hevents])
  rw [Network.ReadableAt, if_neg hfd] at hread
  obtain ⟨i, hi : s.network.client fd = some i, hreadable⟩ := hread
  have hclient := h.sound.client fd i hi
  have hlt := hclient.2.2.1.trans_le h.sound.accepted_le
  have hechoed := h.echoed fd i hi
  rw [held_of_none hbuffer, List.append_nil] at hechoed
  have htraffic := h.clients fd
  rw [hi, Option.map_some] at htraffic
  have hnodup := h.nodup
  rw [hevents, List.nodup_cons] at hnodup
  have hreceived : (arriving s.network fd).upTo 1024 = (s.network.conn i).receivable 1024 := by
    rw [arriving, hi]
    rfl
  have hcount : ((s.network.conn i).receivable 1024).count ≤ 0 ↔
      (s.network.conn i).pending = [] := by
    rw [Received.count_le_zero_iff, Connection.receivable_eq_nil_iff (by decide)]
  have hi' : (s.network.modify i (.receive 1024)).client fd = some i := hi
  intro s'
  by_cases hnil : (s.network.conn i).pending = []
  · have hs' : s' = ⟨(s.network.modify i (.receive 1024)).call listener fd 1024 (.close fd),
        { s.server with
          events := es
          clients := Function.update s.server.clients fd none
          closed :=
            ⟨(s.network.conn i).taken, (s.network.conn i).echoed⟩ :: s.server.closed }⟩ := by
      simp only [s', serve, EpollServer.step, EpollServer.recv, hbuffer, hevents, if_neg hfd,
        htraffic, hreceived, if_pos (hcount.mpr hnil)]
      rw [Network.call, Network.onClient_of_some hi]
    rw [hs']
    refine ⟨h.close hbuffer hevents hi hreadable hnil rfl rfl hbuffer, ?_⟩
    rw [Network.call, Network.onClient_of_some hi', Network.modify_modify]
    refine Network.work_lt_of_conn rfl rfl hlt ?_ fun j hj => ?_
    · dsimp only
      rw [Network.conn_modify_self]
      exact Connection.work_close_receive_lt hclient.2.2.2 hnil
    · dsimp only
      rw [Network.conn_modify_of_ne hj]
  · have htake : (s.network.conn i).pending.take 1024 ≠ [] := by
      rw [← Connection.data_receivable, Ne, Connection.receivable_eq_nil_iff (by decide)]
      exact hnil
    have hs' : s' = ⟨s.network.modify i (.receive 1024),
        { s.server with
          events := es
          clients := Function.update s.server.clients fd (some ⟨(s.network.conn i).taken ++
            (s.network.conn i).pending.take 1024, (s.network.conn i).echoed⟩)
          buffer := some (fd, (s.network.conn i).pending.take 1024) }⟩ := by
      simp only [s', serve, EpollServer.step, EpollServer.recv, hbuffer, hevents, if_neg hfd,
        htraffic, hreceived, if_neg (mt hcount.mp hnil), Connection.data_receivable]
      rw [Network.call, Network.onClient_of_some hi]
    rw [hs']
    constructor
    · refine h.modify hi (Connection.proper_receive hreadable hclient.2.2.2 1024) rfl
        (decide_eq_false hnil) rfl hnodup.2 (fun fd' hmem => ?_) (fun hmem => absurd hmem hnodup.1)
        (fun fd' hne => ?_) ?_ ?_
      · rw [hevents]
        exact List.mem_cons_of_mem _ hmem
      · rw [held_of_some rfl, if_neg hne.symm, held_of_none hbuffer]
      · rw [held_of_some rfl, if_pos rfl]
        exact congrArg (· ++ _) hechoed
      · rintro fd' data ⟨⟩
        exact ⟨rfl, htake⟩
    · refine Network.work_lt_of_conn rfl rfl hlt ?_ fun j hj => Network.conn_modify_of_ne hj _
      rw [Network.conn_modify_self]
      exact Connection.work_receive_lt (h.opened i (.inr ⟨fd, hi⟩))
        (congrArg List.length hechoed).le (by decide)

theorem Kept.accept (h : Kept listener s) (hlistener : listener ≠ -1)
    (hbuffer : s.server.buffer = none) {es : List Fd} (hevents : s.server.events = listener :: es)
    (new_fd : Fd) :
    let s' : Running := ⟨s.network.accept listener new_fd, s.server.step listener (.accept
      (if s.network.Free listener new_fd then new_fd else -1))⟩
    Kept listener s' ∧ (s.network.Free listener new_fd → s'.network.work < s.network.work) := by
  have hlt : s.network.accepted < s.network.count := by
    have hread := h.readable listener (by simp [hevents])
    rwa [Network.ReadableAt, if_pos rfl] at hread
  have hnodup := h.nodup
  rw [hevents, List.nodup_cons] at hnodup
  have hmem : ∀ fd ∈ es, fd ∈ s.server.events := fun fd hfd => by
    rw [hevents]
    exact List.mem_cons_of_mem _ hfd
  have hnone : ∀ fd, s.network.client fd = none → s.server.clients fd = none := fun fd hfd => by
    rw [h.clients, hfd]
    rfl
  intro s'
  by_cases hfree : s.network.Free listener new_fd
  · have hwork := Network.work_accept hlt hfree
    have hpos : new_fd ≠ -1 := by
      rintro rfl
      exact absurd hfree.1 (by decide)
    have hs' : s' = ⟨{ s.network with
          accepted := s.network.accepted + 1
          client := Function.update s.network.client new_fd (some s.network.accepted) },
        { s.server with
          events := es
          clients := Function.update s.server.clients new_fd (some ⟨[], []⟩) }⟩ := by
      simp only [s', EpollServer.step, EpollServer.accept, hbuffer, hevents, if_pos hfree]
      rw [Network.accept, if_pos ⟨hlt, hfree⟩, if_pos ⟨trivial, hfree.2.1, hnone _ hfree.2.2⟩,
        if_pos hpos]
    have hsound := h.sound.accept new_fd
    rw [Network.accept, if_pos ⟨hlt, hfree⟩] at hsound hwork
    rw [hs']
    -- the new connection has sent nothing yet that was received
    have hnew : ∀ fd, s.network.client fd ≠ some s.network.accepted := fun fd hfd =>
      absurd (h.sound.client fd _ hfd).2.2.1 (lt_irrefl _)
    have htaken := h.fresh _ le_rfl
    have hechoed : (s.network.conn s.network.accepted).echoed = [] :=
      (h.answered _ hnew).trans htaken
    refine ⟨⟨hsound, fun fd => ?_, hnodup.2, fun fd hfd => ?_, fun fd i hi => ?_, fun i hi => ?_,
      fun i hi => ?_, fun i hi => h.fresh i (Nat.le_of_succ_le hi), fun fd data hdata => ?_⟩,
      fun _ => hwork⟩
    · dsimp only
      by_cases hfd : fd = new_fd
      · rw [hfd, Function.update_self, Function.update_self, Option.map_some, htaken, hechoed]
      · rw [Function.update_of_ne hfd, Function.update_of_ne hfd]
        exact h.clients fd
    · refine readableAt_mono (h.readable fd (hmem fd hfd)) (fun heq => ?_) (fun hne => ?_)
        fun _ _ => id
      · exact absurd (heq ▸ hfd) hnodup.1
      · refine Function.update_of_ne ?_ _ _
        rintro rfl
        have hread := h.readable fd (hmem fd hfd)
        rw [Network.ReadableAt, if_neg hne, hfree.2.2] at hread
        obtain ⟨i, hi, -⟩ := hread
        cases hi
    · dsimp only at hi ⊢
      simp only [held_of_none, hbuffer, List.append_nil]
      by_cases hfd : fd = new_fd
      · rw [hfd, Function.update_self] at hi
        obtain rfl := Option.some.inj hi
        exact hechoed.trans htaken.symm
      · rw [Function.update_of_ne hfd] at hi
        have hold := h.echoed fd i hi
        rwa [held_of_none hbuffer, List.append_nil] at hold
    · refine h.answered i fun fd hfd => hi fd ?_
      have hne : fd ≠ new_fd := by
        rintro rfl
        exact Option.some_ne_none i (hfd.symm.trans hfree.2.2)
      dsimp only
      rw [Function.update_of_ne hne, hfd]
    · refine h.opened i ?_
      rcases hi with hi | ⟨fd, hi⟩
      · exact .inl (Nat.le_of_succ_le hi)
      · dsimp only at hi
        by_cases hfd : fd = new_fd
        · rw [hfd, Function.update_self] at hi
          exact .inl (Option.some.inj hi).le
        · rw [Function.update_of_ne hfd] at hi
          exact .inr ⟨fd, hi⟩
    · exact absurd (hbuffer.symm.trans hdata) (Option.some_ne_none _).symm
  · have hclosed : s.network.client (-1) = none := by
      by_contra hopen
      obtain ⟨i, hi⟩ := Option.ne_none_iff_exists'.mp hopen
      exact absurd (h.sound.client _ i hi).1 (by decide)
    have hs' : s' = ⟨s.network, { s.server with events := es }⟩ := by
      simp only [s', EpollServer.step, EpollServer.accept, hbuffer, hevents, if_neg hfree]
      rw [Network.accept, if_neg fun hall => hfree hall.2,
        if_pos ⟨trivial, hlistener.symm, hnone _ hclosed⟩, if_neg (not_not.mpr rfl)]
    rw [hs']
    exact ⟨⟨h.sound, h.clients, hnodup.2, fun fd hfd => h.readable fd (hmem fd hfd), h.echoed,
      h.answered, h.opened, h.fresh, h.buffered⟩, fun hfree' => absurd hfree' hfree⟩

/-- What is left to do for the connections, with the call of `epoll_wait` that comes first. -/
def work (s : Running) : ℕ :=
  2 * s.network.work + if s.server.events = [] ∧ s.server.buffer = none then 1 else 0

theorem work_lt_of_network {s' : Running} (h : s'.network.work < s.network.work)
    (hbusy : ¬ (s.server.events = [] ∧ s.server.buffer = none)) : work s' < work s := by
  rw [work, work, if_neg hbusy]
  split_ifs <;> omega

/-- One step, as long as `send` accepts what it is given. -/
theorem Kept.act (h : Kept listener s) (hlistener : listener ≠ -1) {a : Action}
    (hall : SendsAll s a) : Kept listener (act listener s a) ∧
      (Productive listener s a → work (EpollServer.act listener s a) < work s) := by
  cases a with
  | event e => exact ⟨h.event e, False.elim⟩
  | call ready new_fd sent =>
    cases hbuffer : s.server.buffer with
    | some p =>
      obtain ⟨fd, data⟩ := p
      obtain ⟨hkept, hlt⟩ := h.send hbuffer (hall fd data hbuffer)
      simp only [EpollServer.act, hbuffer]
      refine ⟨hkept, fun _ => work_lt_of_network hlt ?_⟩
      simp [hbuffer]
    | none =>
      cases hevents : s.server.events with
      | nil =>
        simp only [EpollServer.act, hbuffer, hevents]
        split_ifs with hready
        · have hserver : s.server.step listener (.wait ready) = { s.server with events := ready } :=
            if_pos ⟨hevents, hbuffer⟩
          rw [hserver]
          refine ⟨⟨h.sound, h.clients, hready.2.1, hready.2.2.2, h.echoed, h.answered, h.opened,
            h.fresh, h.buffered⟩, fun _ => ?_⟩
          change 2 * s.network.work + (if ready = [] ∧ s.server.buffer = none then 1 else 0) <
            2 * s.network.work + if s.server.events = [] ∧ s.server.buffer = none then 1 else 0
          rw [if_neg fun hidle => hready.1 hidle.1, if_pos ⟨hevents, hbuffer⟩]
          exact Nat.lt_succ_self _
        · exact ⟨h, fun hproductive => absurd (hproductive.2.1 hbuffer hevents) hready⟩
      | cons fd es =>
        have hbusy : ¬ (s.server.events = [] ∧ s.server.buffer = none) := by simp [hevents]
        simp only [EpollServer.act, hbuffer, hevents]
        by_cases hfd : fd = listener
        · rw [if_pos hfd]
          rw [hfd] at hevents
          obtain ⟨hkept, hlt⟩ := h.accept hlistener hbuffer hevents new_fd
          refine ⟨hkept, fun hproductive => work_lt_of_network (hlt ?_) hbusy⟩
          exact hproductive.2.2 hbuffer (by rw [hevents, List.head?_cons])
        · rw [if_neg hfd]
          obtain ⟨hkept, hlt⟩ := h.recv hbuffer hevents hfd
          exact ⟨hkept, fun _ => work_lt_of_network hlt hbusy⟩

theorem acceptsAll_of_buffer {server : EpollServer} (h : server.buffer = none) (sent : Sent) :
    server.AcceptsAll (.send sent) := fun _ _ hbuffer =>
  absurd (h.symm.trans hbuffer) (Option.some_ne_none _).symm

/-- If the server has nothing to do, all is done. -/
theorem Kept.complete_or_productive (h : Kept listener s) :
    s.network.Complete ∨ ∃ a, Productive listener s a := by
  obtain ⟨new_fd, hfree⟩ := h.sound.exists_free
  by_cases hidle : s.server.events = [] ∧ s.server.buffer = none
  · by_cases hquiet : s.network.Quiet listener
    · refine .inl (h.sound.complete (fun i => ?_) hquiet)
      by_cases hopen : ∃ fd, s.network.client fd = some i
      · obtain ⟨fd, hi⟩ := hopen
        have hechoed := h.echoed fd i hi
        rwa [held_of_none hidle.2, List.append_nil] at hechoed
      · exact h.answered i fun fd hfd => hopen ⟨fd, hfd⟩
    · obtain ⟨fd, hread⟩ := not_forall_not.mp hquiet
      refine .inr ⟨.call [fd] new_fd .again, acceptsAll_of_buffer hidle.2 _, fun _ _ => ?_,
        fun _ _ => hfree⟩
      exact ⟨List.cons_ne_nil _ _, List.nodup_singleton fd, Nat.one_le_iff_ne_zero.mpr (by decide),
        by simpa using hread⟩
  · refine .inr ?_
    cases hbuffer : s.server.buffer with
    | none =>
      refine ⟨.call [] new_fd .again, acceptsAll_of_buffer hbuffer _, fun _ hevents => ?_,
        fun _ _ => hfree⟩
      exact absurd ⟨hevents, hbuffer⟩ hidle
    | some p =>
      refine ⟨.call [] new_fd (.accepted p.2.length), fun fd data hdata => ?_, ?_, ?_⟩
      · obtain rfl := Option.some.inj (hbuffer.symm.trans hdata)
        exact le_rfl
      · exact fun hnone => absurd (hbuffer.symm.trans hnone) (Option.some_ne_none p)
      · exact fun hnone => absurd (hbuffer.symm.trans hnone) (Option.some_ne_none p)

/-- In every run in which `send` accepts what it is given, what was sent back to a client is what
it has sent, but for what the server holds and what was not yet received, and connections are
closed when they have ended. If the server can do nothing, all is done, and if the clients do
nothing more, that is after so many calls. -/
theorem echoes_of_sendsAll (hlistener : listener ≠ -1) (actions : List Action)
    (hall : AllSteps (act listener) SendsAll {} actions) :
    let s := actions.foldl (act listener) {}
    (∀ fd i, s.network.client fd = some i → (s.network.conn i).echoed ++ s.server.held fd ++
      (s.network.conn i).pending = (s.network.conn i).arrived) ∧
    (∀ i, (s.network.conn i).closed = true → (s.network.conn i).ended = true ∧
      (s.network.conn i).echoed = (s.network.conn i).arrived) ∧
    (s.network.Complete ∨ ∃ a, Productive listener s a) ∧
    ∀ more, AllSteps (act listener) (Productive listener) s more → more.length ≤ work s := by
  intro s
  have h : Kept listener s := (allStates_of_allSteps (I := Kept listener)
    (fun _ _ hs ha => (hs.act hlistener ha).1) (fun _ hs => hs) (kept_start listener) hall).last
  have hsends : ∀ s a, Productive listener s a → SendsAll s a := by
    rintro s (e | ⟨ready, new_fd, sent⟩) ha
    · exact ha.elim
    · exact ha.1
  refine ⟨fun fd i hi => congrArg (· ++ _) (h.echoed fd i hi), fun i hclosed => ?_,
    h.complete_or_productive, fun more hmore => ?_⟩
  · obtain ⟨hnil, hended⟩ := (h.sound.proper i).atEnd ((h.sound.proper i).closed hclosed)
    have hanswered := h.answered i fun fd hfd =>
      Bool.false_ne_true ((h.sound.client fd i hfd).2.2.2.symm.trans hclosed)
    refine ⟨hended, ?_⟩
    rw [Connection.arrived, hnil, List.append_nil]
    exact hanswered
  · exact length_le_of_allSteps (fun s a hs ha => (hs.act hlistener (hsends s a ha)).1)
      (fun s a hs ha => (hs.act hlistener (hsends s a ha)).2 ha) h hmore

/-- A client sends one byte, and it is sent back. -/
def oneByte : List Action := [.event .connect, .call [3] 0 .again, .call [] 4 .again,
  .event (.say 0 [0x61]), .call [4] 0 .again, .call [] 0 .again, .call [] 0 (.accepted 1)]

theorem echoes_oneByte :
    let s := oneByte.foldl (act 3) {}
    (∀ fd i, s.network.client fd = some i → (s.network.conn i).echoed ++ s.server.held fd ++
      (s.network.conn i).pending = (s.network.conn i).arrived) ∧
    (∀ i, (s.network.conn i).closed = true → (s.network.conn i).ended = true ∧
      (s.network.conn i).echoed = (s.network.conn i).arrived) ∧
    (s.network.Complete ∨ ∃ a, Productive 3 s a) ∧
    ∀ more, AllSteps (act 3) (Productive 3) s more → more.length ≤ work s := by
  refine echoes_of_sendsAll (by decide) oneByte ⟨trivial, acceptsAll_of_buffer rfl _,
    acceptsAll_of_buffer rfl _, trivial, acceptsAll_of_buffer rfl _, acceptsAll_of_buffer rfl _,
    ?_, trivial⟩
  intro fd data hdata
  obtain ⟨-, rfl⟩ := Prod.mk.inj (Option.some.inj hdata)
  exact le_rfl

example : ((oneByte.foldl (act 3) {}).network.conn 0).echoed = [0x61] := by decide

end BuildYourOwnStuff.SocketProg.EpollServer
