import BuildYourOwnStuff.SocketProg.PollLoop
import BuildYourOwnStuff.SocketProg.SelectLoop

/-!
# The poll and the select server

From the same clients and the same answers of the kernel, one pass of either server
serves each readable client once and leaves the same clients. The select server needs
a bit for each descriptor.
-/

namespace BuildYourOwnStuff.SocketProg

variable {k : Kernel} {listener : Fd} {clients : List Fd}

/-- What a pass can meet: clients with distinct descriptors, a new client with one that
is not in use, and no more bytes than both servers can receive. -/
structure Admissible (k : Kernel) (listener : Fd) (clients : List Fd) : Prop where
  listener_nonneg : 0 ≤ listener
  pos : ∀ fd ∈ clients, 0 < fd
  nodup : (listener :: clients).Nodup
  accepted : k.accepted < 0 ∨ 0 < k.accepted ∧ k.accepted ∉ listener :: clients
  received : ∀ fd ∈ clients, k.Readable fd → (k.received fd).data.length ≤ 1023

/-- Each client is served once, and no other descriptor is touched. -/
structure Served (k : Kernel) (listener : Fd) (clients : List Fd) (calls : List Call) :
    Prop where
  accept : calls.count .accept = if k.Readable listener then 1 else 0
  client : ∀ fd ∈ clients, calls.filter (fun c => c.client? = some fd) = k.echo fd
  others : ∀ fd ∉ clients, calls.filter (fun c => c.client? = some fd) = []

/-- A pass of the poll server with the entries `fds` and one of the select server with
the clients `clients'` both serve the clients and track the same ones afterwards. -/
def SamePass (k : Kernel) (listener : Fd) (clients : List Fd) (memory : Fd → Buffer)
    (memory' : Buffer) (fds : List Pollfd) (clients' : List Fd) : Prop :=
  ∃ polled selected, PollServer.pass k listener memory fds = .ok polled ∧
    SelectServer.pass k listener memory' clients' = .ok selected ∧
    Served k listener clients polled.calls ∧ Served k listener clients selected.calls ∧
    Watches polled.fds listener (k.tracked listener clients) ∧
    selected.clients.Perm (k.tracked listener clients)

theorem filter_echo (fd fd' : Fd) :
    (k.echo fd').filter (fun c => c.client? = some fd) = if fd' = fd then k.echo fd' else [] := by
  split_ifs with h
  · subst h
    exact List.filter_eq_self.mpr fun c hc => decide_eq_true (client?_of_mem_echo hc)
  · refine List.filter_eq_nil_iff.mpr fun c hc hclient => h ?_
    rw [client?_of_mem_echo hc, decide_eq_true_eq] at hclient
    exact Option.some.inj hclient

theorem filter_flatMap_echo (fd : Fd) (clients : List Fd) :
    (clients.flatMap k.echo).filter (fun c => c.client? = some fd) =
      (clients.filter (· == fd)).flatMap k.echo := by
  induction clients with
  | nil => rfl
  | cons fd' clients ih =>
    rw [List.flatMap_cons, List.filter_append, ih, filter_echo]
    by_cases h : fd' = fd <;> simp [h]

theorem served_calls (hnodup : clients.Nodup) :
    Served k listener clients (k.calls listener clients) := by
  have hnone : ∀ fd, (if k.Readable listener then [Call.accept] else []).filter
      (fun c => c.client? = some fd) = [] := by
    intro fd
    split_ifs <;> rfl
  have hfilter : ∀ fd, (k.calls listener clients).filter (fun c => c.client? = some fd) =
      (List.replicate (clients.count fd) fd).flatMap k.echo := by
    intro fd
    rw [Kernel.calls, List.filter_append, hnone, List.nil_append, filter_flatMap_echo,
      List.filter_beq]
  refine ⟨?_, fun fd hfd => ?_, fun fd hfd => ?_⟩
  · have hclients : (clients.flatMap k.echo).count .accept = 0 := by
      refine List.count_eq_zero.mpr fun hmem => ?_
      obtain ⟨fd, -, hmem⟩ := List.mem_flatMap.mp hmem
      cases client?_of_mem_echo hmem
    rw [Kernel.calls, List.count_append, hclients]
    split_ifs <;> rfl
  · rw [hfilter, List.count_eq_one_of_mem hnodup hfd]
    exact List.append_nil _
  · rw [hfilter, List.count_eq_zero_of_not_mem hfd]
    rfl

theorem Served.perm {clients' : List Fd} {calls : List Call} (h : Served k listener clients calls)
    (hperm : clients.Perm clients') : Served k listener clients' calls :=
  ⟨h.accept, fun fd hfd => h.client fd (hperm.mem_iff.mpr hfd),
    fun fd hfd => h.others fd fun hmem => hfd (hperm.mem_iff.mp hmem)⟩

theorem tracked_perm {clients' : List Fd} (hperm : clients.Perm clients') :
    (k.tracked listener clients).Perm (k.tracked listener clients') :=
  (hperm.filter _).append_right _

namespace Admissible

theorem accepted_ne_zero (h : Admissible k listener clients) : k.accepted ≠ 0 := by
  rcases h.accepted with hneg | ⟨hpos, -⟩
  · exact hneg.ne
  · exact hpos.ne'

/-- A new client is none that the servers have already. -/
theorem of_mem_newClients (h : Admissible k listener clients) {fd : Fd}
    (hfd : fd ∈ k.newClients listener) : 0 < fd ∧ fd ∉ listener :: clients := by
  rw [Kernel.newClients] at hfd
  split_ifs at hfd with hpos
  · rw [List.mem_singleton] at hfd
    rcases h.accepted with hneg | hnew
    · exact absurd hpos.2 (lt_asymm hneg)
    · rwa [hfd]
  · cases hfd

theorem perm {clients' : List Fd} (h : Admissible k listener clients)
    (hperm : clients.Perm clients') : Admissible k listener clients' where
  listener_nonneg := h.listener_nonneg
  pos fd hfd := h.pos fd (hperm.mem_iff.mpr hfd)
  nodup := (hperm.cons listener).nodup_iff.mp h.nodup
  accepted := by
    rw [← (hperm.cons listener).mem_iff]
    exact h.accepted
  received fd hfd := h.received fd (hperm.mem_iff.mpr hfd)

theorem hasBit_iff (h : Admissible k listener clients) {fd : Fd}
    (hfd : fd ∈ listener :: clients ++ k.newClients listener) : HasBit fd ↔ fd < FD_SETSIZE := by
  refine and_iff_right ?_
  rcases List.mem_append.mp hfd with hold | hnew
  · rcases List.mem_cons.mp hold with rfl | hclient
    · exact h.listener_nonneg
    · exact (h.pos fd hclient).le
  · exact (h.of_mem_newClients hnew).1.le

end Admissible

/-- The two servers agree exactly when there is a bit for each descriptor. -/
theorem samePass_iff {clients' : List Fd} {fds : List Pollfd} (h : Admissible k listener clients)
    (hfds : Watches fds listener clients) (hperm : clients.Perm clients') (memory : Fd → Buffer)
    (memory' : Buffer) :
    SamePass k listener clients memory memory' fds clients' ↔
      ∀ fd ∈ listener :: clients ++ k.newClients listener, fd < FD_SETSIZE := by
  have h' := h.perm hperm
  have hbits : (∀ fd ∈ listener :: clients' ++ k.newClients listener, HasBit fd) ↔
      ∀ fd ∈ listener :: clients ++ k.newClients listener, fd < FD_SETSIZE := by
    have hmem := fun fd => ((hperm.cons listener).append_right (k.newClients listener)).mem_iff
      (a := fd)
    refine forall_congr' fun fd => ?_
    rw [hmem fd]
    exact forall_congr' fun hfd => h'.hasBit_iff hfd
  rw [← hbits]
  constructor
  · rintro ⟨polled, selected, -, hselected, -⟩
    exact SelectServer.hasBit_of_pass h'.accepted_ne_zero hselected
  · intro hbit
    obtain ⟨hlistener, hdistinct⟩ := List.nodup_cons.mp h.nodup
    obtain ⟨polled, hpolled, hwatches, hpolledCalls⟩ := PollServer.pass_eq memory hfds
      hlistener fun fd hfd hreadable => (h.received fd hfd hreadable).trans (by decide)
    obtain ⟨selected, hselected, hclients, hselectedCalls⟩ := SelectServer.pass_eq memory' hbit
      h'.accepted_ne_zero (fun fd hfd => (h'.of_mem_newClients hfd).2) h'.received
    refine ⟨polled, selected, hpolled, hselected, ?_, ?_, hwatches, ?_⟩
    · rw [hpolledCalls]
      exact served_calls hdistinct
    · rw [hselectedCalls]
      exact (served_calls (hperm.nodup_iff.mp hdistinct)).perm hperm.symm
    · rw [hclients]
      exact tracked_perm hperm.symm

def zeroBuffer : Buffer := ⟨List.replicate 1024 0, List.length_replicate⟩

/-- The listener is 3. A new client is 6, the connection of 4 has ended, and 5 says "a". -/
def smallKernel : Kernel where
  revents _ := POLLIN
  accepted := 6
  received fd := if fd = 5 then .bytes [0x61] else .bytes []

theorem samePass_small : SamePass smallKernel 3 [4, 5] (fun _ => zeroBuffer) zeroBuffer
    [⟨3, POLLIN, 0⟩, ⟨4, POLLIN, 0⟩, ⟨5, POLLIN, 0⟩] [5, 4] :=
  (samePass_iff ⟨by decide, by decide, by decide, by decide, by decide⟩ ⟨rfl, by decide⟩
    (by decide) (fun _ => zeroBuffer) zeroBuffer).mpr (by decide)

/-- The listener is 3 and a new client is 1024. -/
def fullKernel : Kernel where
  revents fd := if fd = 3 then POLLIN else 0
  accepted := 1024
  received _ := .error

/-- So many clients, from the first descriptor after that of the listener on. -/
def firstClients (count : ℕ) : List Fd := (List.range count).map fun n : ℕ => (n : ℤ) + 4

theorem bounds_of_mem_firstClients {count : ℕ} {fd : ℤ} (h : fd ∈ firstClients count) :
    3 < fd ∧ fd < count + 4 := by
  obtain ⟨n, hn, rfl⟩ := List.mem_map.mp h
  rw [List.mem_range] at hn
  omega

theorem nodup_firstClients (count : ℕ) : (3 :: firstClients count).Nodup := by
  refine List.nodup_cons.mpr ⟨fun h => lt_irrefl _ (bounds_of_mem_firstClients h).1, ?_⟩
  exact List.nodup_range.map fun m n h => by simpa using h

/-- A client that is accepted when all descriptors with a bit are in use. -/
theorem samePass_fails : Admissible fullKernel 3 (firstClients 1020) ∧
    Watches ((3 :: firstClients 1020).map fun fd => ⟨fd, POLLIN, 0⟩) 3 (firstClients 1020) ∧
      ¬ SamePass fullKernel 3 (firstClients 1020) (fun _ => zeroBuffer) zeroBuffer
        ((3 :: firstClients 1020).map fun fd => ⟨fd, POLLIN, 0⟩) (firstClients 1020) := by
  have hbounds : ∀ fd ∈ firstClients 1020, 3 < fd ∧ fd < 1024 := fun fd hfd =>
    bounds_of_mem_firstClients hfd
  have hfree : (1024 : Fd) ∉ 3 :: firstClients 1020 := by
    rw [List.mem_cons, not_or]
    exact ⟨by decide, fun h => lt_irrefl _ (hbounds 1024 h).2⟩
  have hpos : ∀ fd ∈ firstClients 1020, 0 < fd := fun fd hfd =>
    lt_trans (by decide) (hbounds fd hfd).1
  have hquiet : ∀ fd ∈ firstClients 1020, ¬ fullKernel.Readable fd := by
    intro fd hfd
    simp [Kernel.Readable, fullKernel, (hbounds fd hfd).1.ne']
  refine ⟨⟨by decide, hpos, nodup_firstClients 1020, Or.inr ⟨by decide, hfree⟩, fun fd hfd h =>
    absurd h (hquiet fd hfd)⟩, ⟨?_, ?_⟩, ?_⟩
  · rw [List.map_map]
    exact List.map_id _
  · intro p hp
    obtain ⟨fd, -, rfl⟩ := List.mem_map.mp hp
    rfl
  · rintro ⟨polled, selected, -, hselected, -⟩
    have hbit := SelectServer.hasBit_of_pass (by decide) hselected 1024
      (List.mem_append_right _ (by decide))
    exact absurd hbit (by decide)

end BuildYourOwnStuff.SocketProg
