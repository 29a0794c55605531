import BuildYourOwnStuff.SocketProg.Connections

/-!
# What a pass does to the connections

A server that makes the calls of a pass for the clients that it tracks sends back what it
receives, closes the connections that have ended, and tracks those that are open.
-/

namespace BuildYourOwnStuff.SocketProg

open Foundations

namespace Network

variable {n later : Network} {k : Kernel} {listener new_fd fd : Fd} {size i : ℕ}
  {clients : List Fd}

/-- The clients of a server are those with a descriptor, and all that was received from them was
sent back. -/
structure Tracked (n : Network) (listener : Fd) (clients : List Fd) : Prop where
  sound : n.Sound listener
  answered : ∀ i, (n.conn i).Answered
  nodup : clients.Nodup
  mem_iff : ∀ fd, fd ∈ clients ↔ n.client fd ≠ none

/-- The kernel answers for a client as its connection is. -/
def Ready (n : Network) (k : Kernel) (size : ℕ) (fd : Fd) : Prop :=
  ∃ i, n.client fd = some i ∧ k.received fd = (n.conn i).receivable size ∧
    (k.Readable fd → (n.conn i).Readable)

/-- What holds after some clients were served. -/
structure Passed (n : Network) (k : Kernel) (listener : Fd) (clients : List Fd) (n' : Network) :
    Prop where
  sound : n'.Sound listener
  answered : ∀ j, (n'.conn j).Answered
  client : ∀ fd, n'.client fd = if fd ∈ clients ∧ k.Ended fd then none else n.client fd
  others : ∀ j, (∀ fd ∈ clients, n.client fd ≠ some j) → n'.conn j = n.conn j
  work_le : n'.work ≤ n.work
  work_lt : (∃ fd ∈ clients, k.Readable fd) → n'.work < n.work

theorem passed_of_modify (h : n.Sound listener) (hi : n.client fd = some i)
    (hanswered : ∀ j, (n.conn j).Answered) {n' : Network} (hsound : n'.Sound listener)
    {f : Connection → Connection} (hconn : n'.conn = (n.modify i f).conn)
    (hcount : n'.count = n.count) (haccepted : n'.accepted = n.accepted)
    (hclient : n'.client = if k.Ended fd then Function.update n.client fd none else n.client)
    (hself : (f (n.conn i)).Answered) (hwork : (f (n.conn i)).work < (n.conn i).work) :
    n.Passed k listener [fd] n' := by
  have hothers : ∀ j ≠ i, n'.conn j = n.conn j := fun j hj => by
    rw [hconn, conn_modify_of_ne hj]
  have hlt : n'.work < n.work := by
    refine work_lt_of_conn hcount haccepted ((h.client fd i hi).2.2.1.trans_le h.accepted_le) ?_
      hothers
    rw [hconn, conn_modify_self]
    exact hwork
  refine ⟨hsound, ?_, fun fd' => ?_, fun j hj => hothers j ?_, hlt.le, fun _ => hlt⟩
  · rw [hconn]
    exact forall_conn_modify hanswered hself
  · rw [hclient]
    simp only [List.mem_singleton]
    by_cases hfd : fd' = fd
    · rw [hfd]
      by_cases hended : k.Ended fd <;> simp [hended]
    · by_cases hended : k.Ended fd <;> simp [hended, hfd]
  · rintro rfl
    exact hj fd (List.mem_singleton_self fd) hi

/-- The calls for one client. -/
theorem passed_echo (h : n.Sound listener) (hanswered : ∀ j, (n.conn j).Answered)
    (hready : n.Ready k size fd) (hsize : 0 < size) (new_fd : Fd) :
    n.Passed k listener [fd] ((k.echo fd).foldl (call listener new_fd size) n) := by
  obtain ⟨i, hi, hreceived, hreadable⟩ := hready
  have hopen : (n.conn i).closed = false := (h.client fd i hi).2.2.2
  have hdata : (k.received fd).data = (n.conn i).pending.take size := by
    rw [hreceived, Connection.data_receivable]
  have hnil : (k.received fd).data = [] ↔ (n.conn i).pending = [] := by
    rw [hreceived, Connection.receivable_eq_nil_iff hsize]
  by_cases hread : k.Readable fd
  · have hsound := h.modify (Connection.proper_receive (hreadable hread) hopen size) rfl
    have hi' : (n.modify i (.receive size)).client fd = some i := hi
    have hrecv : n.call listener new_fd size (.recv fd) = n.modify i (.receive size) :=
      onClient_of_some hi _
    rw [Kernel.echo, if_pos hread, List.foldl_cons, hrecv, List.foldl_cons, List.foldl_nil]
    by_cases hended : k.Ended fd
    · have hpending := hnil.mp hended.2
      have hend : ((n.modify i (.receive size)).conn i).atEnd = true := by
        rw [conn_modify_self]
        exact decide_eq_true hpending
      rw [if_pos hended]
      refine passed_of_modify (f := fun c => (c.receive size).close) h hi hanswered
        (hsound.close hi' hend new_fd size) ?_ ?_ ?_ ?_ ((hanswered i).close_receive hpending size)
        (Connection.work_close_receive_lt hopen hpending)
      · rw [call, onClient_of_some hi', modify_modify]
      · rw [call, onClient_of_some hi']
        rfl
      · rw [call, onClient_of_some hi']
        rfl
      · rw [call, if_pos hended]
        rfl
    · have hpending : (n.conn i).pending ≠ [] := fun heq => hended ⟨hread, hnil.mpr heq⟩
      have hsend : (n.modify i (.receive size)).call listener new_fd size
          (.send fd (k.received fd).data) =
            n.modify i fun c => (c.receive size).send ((n.conn i).pending.take size) := by
        rw [call, onClient_of_some hi', modify_modify, hdata]
      rw [if_neg hended, hsend]
      refine passed_of_modify h hi hanswered ?_ rfl rfl rfl (if_neg hended).symm
        ((hanswered i).send_receive size)
        (Connection.work_send_receive_lt (h.proper i) (hanswered i) hpending hsize)
      exact h.modify ((Connection.proper_receive (hreadable hread) hopen size).send _) rfl
  · have hended : ¬ k.Ended fd := fun hended => hread hended.1
    rw [Kernel.echo, if_neg hread]
    refine ⟨h, hanswered, fun fd' => (if_neg ?_).symm, fun _ _ => rfl, le_rfl, ?_⟩
    · rintro ⟨hmem, hended'⟩
      exact hended (List.mem_singleton.mp hmem ▸ hended')
    · rintro ⟨fd', hmem, hread'⟩
      rw [List.mem_singleton] at hmem
      exact absurd (hmem ▸ hread') hread

/-- What is done for one client leaves the others as they are. -/
theorem Ready.of_passed {n' : Network} {fd' : Fd} (h : n.Sound listener)
    (hready : n.Ready k size fd') (hne : fd' ≠ fd) (hpassed : n.Passed k listener [fd] n') :
    n'.Ready k size fd' := by
  obtain ⟨i, hi, hreceived, hreadable⟩ := hready
  have hconn : n'.conn i = n.conn i := hpassed.others i fun fd'' hmem hi' =>
    hne (by rw [h.inj fd' fd'' i hi hi', List.mem_singleton.mp hmem])
  have hclient : n'.client fd' = n.client fd' := by
    rw [hpassed.client, if_neg]
    exact fun hmem => hne (List.mem_singleton.mp hmem.1)
  refine ⟨i, hclient.trans hi, ?_, ?_⟩
  · rw [hconn]
    exact hreceived
  · rw [hconn]
    exact hreadable

theorem Passed.trans {n' n'' : Network} {clients' : List Fd}
    (h : n.Passed k listener clients n') (h' : n'.Passed k listener clients' n'') :
    n.Passed k listener (clients ++ clients') n'' := by
  refine ⟨h'.sound, h'.answered, fun fd => ?_, fun j hj => ?_, h'.work_le.trans h.work_le, ?_⟩
  · rw [h'.client, h.client]
    simp only [List.mem_append, or_and_right]
    by_cases hmem : fd ∈ clients ∧ k.Ended fd <;> simp [hmem]
  · rw [h'.others j, h.others j]
    · exact fun fd hfd => hj fd (List.mem_append_left _ hfd)
    · intro fd hfd
      rw [h.client]
      split_ifs
      · exact nofun
      · exact hj fd (List.mem_append_right _ hfd)
  · rintro ⟨fd, hmem, hread⟩
    rcases List.mem_append.mp hmem with hmem | hmem
    · exact h'.work_le.trans_lt (h.work_lt ⟨fd, hmem, hread⟩)
    · exact (h'.work_lt ⟨fd, hmem, hread⟩).trans_le h.work_le

/-- The calls for all clients. -/
theorem passed_echoes (h : n.Sound listener) (hanswered : ∀ j, (n.conn j).Answered)
    (hnodup : clients.Nodup) (hready : ∀ fd ∈ clients, n.Ready k size fd) (hsize : 0 < size)
    (new_fd : Fd) : n.Passed k listener clients
      ((clients.flatMap k.echo).foldl (call listener new_fd size) n) := by
  induction clients generalizing n with
  | nil => exact ⟨h, hanswered, fun _ => by simp, fun _ _ => rfl, le_rfl, by simp⟩
  | cons fd clients ih =>
    rw [List.forall_mem_cons] at hready
    rw [List.nodup_cons] at hnodup
    have hfirst := passed_echo h hanswered hready.1 hsize new_fd
    rw [List.flatMap_cons, List.foldl_append]
    refine hfirst.trans (ih hfirst.sound hfirst.answered hnodup.2 fun fd' hfd' => ?_)
    exact (hready.2 fd' hfd').of_passed h (ne_of_mem_of_not_mem hfd' hnodup.1) hfirst

theorem Tracked.events (h : n.Tracked listener clients) (between : List Event) :
    (between.foldl event n).Tracked listener clients := by
  have hlater := later_events n between
  have hsound : (between.foldl event n).Sound listener :=
    foldl_invariant (I := fun n : Network => n.Sound listener) (fun _ e hn => hn.event e) h.sound
      between
  refine ⟨hsound, fun i => (hlater.unseen i).answered (h.answered i), h.nodup, fun fd => ?_⟩
  rw [hlater.client]
  exact h.mem_iff fd

theorem kernel_readable_iff (fd : Fd) :
    (kernel n later listener new_fd size).Readable fd ↔ n.ReadableAt listener fd := by
  change (if n.ReadableAt listener fd then POLLIN else 0) &&& POLLIN ≠ 0 ↔ _
  split_ifs with h
  · exact iff_of_true (by decide) h
  · exact iff_of_false (by decide) h

theorem kernel_accepted_pos_iff :
    0 < (kernel n later listener new_fd size).accepted ↔ later.Free listener new_fd := by
  change 0 < (if later.Free listener new_fd then new_fd else -1) ↔ _
  split_ifs with h
  · exact iff_of_true h.1 h
  · exact iff_of_false (by decide) h

theorem newClients_kernel : (kernel n later listener new_fd size).newClients listener =
    if n.accepted < n.count ∧ later.Free listener new_fd then [new_fd] else [] := by
  have hlistener : n.ReadableAt listener listener ↔ n.accepted < n.count := by
    rw [ReadableAt, if_pos rfl]
  rw [Kernel.newClients]
  simp only [kernel_readable_iff, kernel_accepted_pos_iff, hlistener]
  by_cases h : n.accepted < n.count ∧ later.Free listener new_fd
  · rw [if_pos h, if_pos h]
    exact congrArg ([·]) (if_pos h.2)
  · rw [if_neg h, if_neg h]

/-- What holds after the listener was looked at. -/
structure Admitted (n later : Network) (listener new_fd : Fd) (new : List Fd) (n' : Network) :
    Prop where
  sound : n'.Sound listener
  conn : n'.conn = later.conn
  client : ∀ fd, fd ∉ new → n'.client fd = later.client fd
  new : ∀ fd, fd ∈ new → later.client fd = none ∧ n'.client fd ≠ none
  work_le : n'.work ≤ later.work
  work_lt : n.accepted < n.count → later.Free listener new_fd → n'.work < later.work

theorem admitted_accept (h : later.Sound listener) (hlater : n.Later later) (new_fd : Fd)
    (size : ℕ) :
    let k := kernel n later listener new_fd size
    n.Admitted later listener new_fd (k.newClients listener)
      ((if k.Readable listener then [Call.accept] else []).foldl
        (call listener new_fd size) later) := by
  intro k
  have hreadable : k.Readable listener ↔ n.accepted < n.count := by
    rw [kernel_readable_iff, ReadableAt, if_pos rfl]
  rw [newClients_kernel]
  by_cases hwaiting : n.accepted < n.count
  · have hlt : later.accepted < later.count := by
      rw [hlater.accepted]
      exact hwaiting.trans_le hlater.count
    rw [if_pos (hreadable.mpr hwaiting), List.foldl_cons, List.foldl_nil]
    change n.Admitted later listener new_fd _ (later.accept listener new_fd)
    by_cases hfree : later.Free listener new_fd
    · have hwork := work_accept hlt hfree
      have hclient : (later.accept listener new_fd).client =
          Function.update later.client new_fd (some later.accepted) := by
        rw [accept, if_pos ⟨hlt, hfree⟩]
      rw [if_pos ⟨hwaiting, hfree⟩]
      refine ⟨h.accept new_fd, ?_, fun fd hfd => ?_, fun fd hfd => ?_, hwork.le, fun _ _ => hwork⟩
      · rw [accept, if_pos ⟨hlt, hfree⟩]
      · rw [hclient, Function.update_of_ne]
        exact fun heq => hfd (List.mem_singleton.mpr heq)
      · obtain rfl := List.mem_singleton.mp hfd
        rw [hclient, Function.update_self]
        exact ⟨hfree.2.2, Option.some_ne_none _⟩
    · have hsame : later.accept listener new_fd = later := if_neg fun hall => hfree hall.2
      rw [if_neg fun hall => hfree hall.2, hsame]
      exact ⟨h, rfl, fun _ _ => rfl, List.forall_mem_nil _, le_rfl, fun _ hall => absurd hall hfree⟩
  · rw [if_neg fun hread => hwaiting (hreadable.mp hread), if_neg fun hall => hwaiting hall.1]
    exact ⟨h, rfl, fun _ _ => rfl, List.forall_mem_nil _, le_rfl, fun hall => absurd hall hwaiting⟩

/-- The calls for the clients that were there before. -/
theorem Tracked.served (h : later.Tracked listener clients) (hlater : n.Later later)
    (hsize : 0 < size) {first : Network} (hfirst : n.Admitted later listener new_fd
      ((kernel n later listener new_fd size).newClients listener) first) :
    let k := kernel n later listener new_fd size
    let n' := (clients.flatMap k.echo).foldl (call listener new_fd size) first
    n'.Tracked listener (k.tracked listener clients) ∧
      ((∃ fd ∈ clients, n.ReadableAt listener fd) → n'.work < later.work) ∧
        (n.accepted < n.count → later.Free listener new_fd → n'.work < later.work) := by
  intro k n'
  have hclients : ∀ fd ∈ clients, fd ∉ k.newClients listener := fun fd hfd hnew =>
    (h.mem_iff fd).mp hfd (hfirst.new fd hnew).1
  have hready : ∀ fd ∈ clients, first.Ready k size fd := by
    intro fd hfd
    obtain ⟨i, hi⟩ := Option.ne_none_iff_exists'.mp ((h.mem_iff fd).mp hfd)
    have hreceived : k.received fd = (later.conn i).receivable size := by
      simp only [k, kernel, hi]
    refine ⟨i, (hfirst.client fd (hclients fd hfd)).trans hi, ?_, fun hread => ?_⟩
    · rw [hfirst.conn]
      exact hreceived
    · rw [kernel_readable_iff, readableAt_iff (hlater.client ▸ hi) (h.sound.client fd i hi).2.1]
        at hread
      rw [hfirst.conn]
      exact (hlater.unseen i).readable hread
  have hpassed : first.Passed k listener clients n' :=
    passed_echoes hfirst.sound (hfirst.conn ▸ h.answered) h.nodup hready hsize new_fd
  refine ⟨⟨hpassed.sound, hpassed.answered, ?_, fun fd => ?_⟩, ?_, ?_⟩
  · refine List.nodup_append'.mpr ⟨h.nodup.filter _, ?_, fun fd hfd hnew =>
      hclients fd (List.mem_of_mem_filter hfd) hnew⟩
    rw [newClients_kernel]
    split_ifs
    · exact List.nodup_singleton _
    · exact List.nodup_nil
  · rw [hpassed.client, Kernel.tracked, List.mem_append, List.mem_filter]
    by_cases hnew : fd ∈ k.newClients listener
    · have hout : fd ∉ clients := fun hfd => hclients fd hfd hnew
      rw [if_neg fun hall => hout hall.1]
      exact iff_of_true (.inr hnew) (hfirst.new fd hnew).2
    · rw [hfirst.client fd hnew]
      have hmem := h.mem_iff fd
      by_cases hended : k.Ended fd <;> by_cases hfd : fd ∈ clients <;> simp_all
  · rintro ⟨fd, hfd, hread⟩
    exact (hpassed.work_lt ⟨fd, hfd, (kernel_readable_iff fd).mpr hread⟩).trans_le hfirst.work_le
  · exact fun hwaiting hfree => hpassed.work_le.trans_lt (hfirst.work_lt hwaiting hfree)

/-- A pass serves those that were readable when it began. -/
theorem Tracked.pass (h : n.Tracked listener clients) (between : List Event) (new_fd : Fd)
    (hsize : 0 < size) :
    let later := between.foldl event n
    let k := kernel n later listener new_fd size
    let n' := (k.calls listener clients).foldl (call listener new_fd size) later
    n'.Tracked listener (k.tracked listener clients) ∧
      ((∃ fd ∈ clients, n.ReadableAt listener fd) → n'.work < later.work) ∧
        (n.accepted < n.count → later.Free listener new_fd → n'.work < later.work) := by
  have hlater := later_events n between
  have hsound := (h.events between).sound
  dsimp only
  rw [Kernel.calls, List.foldl_append]
  exact (h.events between).served hlater hsize (admitted_accept hsound hlater new_fd size)

end Network

end BuildYourOwnStuff.SocketProg
