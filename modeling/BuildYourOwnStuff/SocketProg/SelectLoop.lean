import Mathlib.Data.Finset.Filter
import BuildYourOwnStuff.Foundations.Loops
import BuildYourOwnStuff.SocketProg.Sockets

/-!
# The pass of the select server

The server goes through its clients and removes those whose connection has ended
afterwards. A descriptor set has a bit for each descriptor below `FD_SETSIZE`, and a
macro that is given another descriptor is undefined.
-/

namespace BuildYourOwnStuff.SocketProg

open Foundations

def FD_SETSIZE : Fd := 1024

/-- The descriptors that have a bit in a set. -/
def HasBit (fd : Fd) : Prop := 0 ≤ fd ∧ fd < FD_SETSIZE

instance (fd : Fd) : Decidable (HasBit fd) := inferInstanceAs (Decidable (_ ∧ _))

def fdSet (fd : Fd) (set : Finset Fd) : Except Fault (Finset Fd) :=
  if HasBit fd then .ok (insert fd set) else .error .undefined

def fdIsSet (fd : Fd) (set : Finset Fd) : Except Fault Bool :=
  if HasBit fd then .ok (fd ∈ set) else .error .undefined

/-- What `select` leaves of the set. -/
def Kernel.select (k : Kernel) (nfds : Fd) (read_fds : Finset Fd) : Finset Fd :=
  read_fds.filter fun fd => fd < nfds ∧ k.Readable fd

/-- The set that is built for `select`. -/
structure Watched where
  read_fds : Finset Fd
  max_fd : Fd

def watchClient (w : Watched) (fd : Fd) : Except Fault Watched := do
  let read_fds ← fdSet fd w.read_fds
  return ⟨read_fds, if fd > w.max_fd then fd else w.max_fd⟩

def watch (listener : Fd) (clients : List Fd) : Except Fault Watched := do
  let read_fds ← fdSet listener ∅
  clients.foldlM watchClient ⟨read_fds, listener⟩

theorem hasBit_of_fdSet {fd : Fd} {set set' : Finset Fd} (h : fdSet fd set = .ok set') :
    HasBit fd := by
  by_contra hbit
  rw [fdSet, if_neg hbit] at h
  cases h

/-- The set has a bit for each client, and no client is above `max_fd`. -/
theorem foldlM_watchClient {clients : List Fd} (hbit : ∀ fd ∈ clients, HasBit fd) (w : Watched) :
    ∃ w', clients.foldlM watchClient w = .ok w' ∧
      (∀ fd, fd ∈ w'.read_fds ↔ fd ∈ w.read_fds ∨ fd ∈ clients) ∧
        w.max_fd ≤ w'.max_fd ∧ ∀ fd ∈ clients, fd ≤ w'.max_fd := by
  induction clients generalizing w with
  | nil => exact ⟨w, rfl, by simp, le_rfl, by simp⟩
  | cons fd clients ih =>
    rw [List.forall_mem_cons] at hbit
    obtain ⟨w', hfold, hmem, hmax, hle⟩ :=
      ih hbit.2 ⟨insert fd w.read_fds, if fd > w.max_fd then fd else w.max_fd⟩
    have hfirst : watchClient w fd =
        .ok ⟨insert fd w.read_fds, if fd > w.max_fd then fd else w.max_fd⟩ := by
      rw [watchClient, fdSet, if_pos hbit.1]
      rfl
    have hboth : w.max_fd ≤ (if fd > w.max_fd then fd else w.max_fd) ∧
        fd ≤ if fd > w.max_fd then fd else w.max_fd := by
      split_ifs with hlt
      · exact ⟨le_of_lt hlt, le_rfl⟩
      · exact ⟨le_rfl, le_of_not_gt hlt⟩
    refine ⟨w', ?_, fun fd' => ?_, hboth.1.trans hmax,
      List.forall_mem_cons.mpr ⟨hboth.2.trans hmax, hle⟩⟩
    · rw [List.foldlM_cons, hfirst]
      exact hfold
    · rw [hmem, Finset.mem_insert, List.mem_cons]
      tauto

theorem hasBit_of_foldlM_watchClient {clients : List Fd} {w w' : Watched}
    (h : clients.foldlM watchClient w = .ok w') : ∀ fd ∈ clients, HasBit fd := by
  induction clients generalizing w with
  | nil => exact List.forall_mem_nil _
  | cons fd clients ih =>
    rw [List.foldlM_cons, bind_eq_ok] at h
    obtain ⟨w₁, hfirst, hrest⟩ := h
    rw [watchClient, bind_eq_ok] at hfirst
    obtain ⟨read_fds, hset, -⟩ := hfirst
    exact List.forall_mem_cons.mpr ⟨hasBit_of_fdSet hset, ih hrest⟩

/-- What is readable among the descriptors of the server. -/
theorem watch_eq {listener : Fd} {clients : List Fd}
    (hbit : ∀ fd ∈ listener :: clients, HasBit fd) (k : Kernel) :
    ∃ w, watch listener clients = .ok w ∧ ∀ fd,
      fd ∈ k.select (w.max_fd + 1) w.read_fds ↔ fd ∈ listener :: clients ∧ k.Readable fd := by
  rw [List.forall_mem_cons] at hbit
  obtain ⟨w, hfold, hmem, hmax, hle⟩ :=
    foldlM_watchClient hbit.2 ⟨insert listener ∅, listener⟩
  refine ⟨w, ?_, fun fd => ?_⟩
  · rw [watch, fdSet, if_pos hbit.1]
    exact hfold
  · have hmem' : fd ∈ w.read_fds ↔ fd ∈ listener :: clients := by
      rw [hmem, List.mem_cons, LawfulSingleton.insert_empty_eq, Finset.mem_singleton]
    have hbelow : ∀ fd ∈ listener :: clients, fd < w.max_fd + 1 :=
      List.forall_mem_cons.mpr
        ⟨Int.lt_add_one_of_le hmax, fun fd hfd => Int.lt_add_one_of_le (hle fd hfd)⟩
    rw [Kernel.select, Finset.mem_filter, hmem']
    exact ⟨fun h => ⟨h.1, h.2.2⟩, fun h => ⟨h.1, hbelow fd h.1, h.2⟩⟩

theorem hasBit_of_watch {listener : Fd} {clients : List Fd} {w : Watched}
    (h : watch listener clients = .ok w) : ∀ fd ∈ listener :: clients, HasBit fd := by
  rw [watch, bind_eq_ok] at h
  obtain ⟨read_fds, hset, hfold⟩ := h
  exact List.forall_mem_cons.mpr ⟨hasBit_of_fdSet hset, hasBit_of_foldlM_watchClient hfold⟩

structure SelectServer where
  clients : List Fd
  disconnected : List Fd := []
  buffer : Bytes
  calls : List Call := []
  deriving DecidableEq, Repr

namespace SelectServer

variable (k : Kernel)

def acceptClient (s : SelectServer) : SelectServer :=
  let new_fd := k.accepted
  let s := { s with calls := s.calls ++ [Call.accept] }
  if new_fd < 0 then s else { s with clients := s.clients ++ [new_fd] }

def serveClient (read_fds : Finset Fd) (s : SelectServer) (fd : Fd) :
    Except Fault SelectServer := do
  if ← fdIsSet fd read_fds then
    let bytes := (k.received fd).upTo 1023
    let buffer ← store s.buffer 0 bytes.data
    let s := { s with buffer := buffer, calls := s.calls ++ [Call.recv fd] }
    if bytes.count ≤ 0 then
      return { s with
        disconnected := s.disconnected ++ [fd]
        calls := s.calls ++ [Call.close fd] }
    else
      let buffer ← store s.buffer bytes.count.toNat [0]
      return { s with
        buffer := buffer
        calls := s.calls ++ [Call.send fd (buffer.take bytes.count.toNat)] }
  else return s

def removeClient (clients : List Fd) (fd : Fd) : List Fd := clients.filter (· ≠ fd)

/-- One pass, where `memory` is in the buffer. -/
def pass (listener : Fd) (memory : Buffer) (clients : List Fd) : Except Fault SelectServer := do
  let w ← watch listener clients
  let read_fds := k.select (w.max_fd + 1) w.read_fds
  let s : SelectServer := { clients := clients, buffer := memory.1 }
  let s := if ← fdIsSet listener read_fds then s.acceptClient k else s
  -- the loop also comes to a client that was just accepted
  let s ← s.clients.foldlM (serveClient k read_fds) s
  return { s with clients := s.disconnected.foldl removeClient s.clients }

variable {k} {listener : Fd} {clients : List Fd} {read_fds : Finset Fd}

/-- The terminating zero is after what was received. -/
theorem take_terminated {buffer : Bytes} {data : Bytes} (h : data.length < buffer.length) :
    (overwrite (overwrite buffer 0 data) data.length [0]).take data.length = data := by
  have hlength : ((overwrite buffer 0 data).take data.length).length = data.length := by
    rw [List.length_take, length_overwrite, min_eq_left h.le]
  rw [overwrite, List.append_assoc, List.take_left' hlength, take_overwrite_zero h.le]

/-- What the server does for a client. -/
theorem serveClient_eq {s : SelectServer} {fd : Fd} (hbit : HasBit fd)
    (hset : fd ∈ read_fds ↔ k.Readable fd)
    (hlength : k.Readable fd → (k.received fd).data.length ≤ 1023)
    (hbuffer : s.buffer.length = 1024) :
    ∃ buffer : Bytes, buffer.length = 1024 ∧ s.serveClient k read_fds fd =
      .ok { s with
        disconnected := s.disconnected ++ [fd].filter fun fd => k.Ended fd
        buffer := buffer
        calls := s.calls ++ k.echo fd } := by
  have hisSet : fdIsSet fd read_fds = .ok (fd ∈ read_fds) := if_pos hbit
  by_cases hreadable : k.Readable fd
  · have hfits := hlength hreadable
    have hdata := Received.data_upTo_of_le hfits
    have hcount := Received.toNat_count_upTo hfits
    have hstore : store s.buffer 0 (k.received fd).data =
        .ok (overwrite s.buffer 0 (k.received fd).data) :=
      store_eq (by omega)
    have hended := Kernel.count_upTo_le_zero_iff hreadable hfits
    have hzero : store (overwrite s.buffer 0 (k.received fd).data)
        (k.received fd).data.length [0] =
        .ok (overwrite (overwrite s.buffer 0 (k.received fd).data)
          (k.received fd).data.length [0]) :=
      store_eq (by rw [length_overwrite, List.length_singleton]; omega)
    rw [serveClient, hisSet]
    simp only [hset, hreadable, hdata, hstore, hcount, hended, hzero, bind, Except.bind,
      decide_true, if_true, Kernel.echo]
    by_cases hend : k.Ended fd
    · refine ⟨overwrite s.buffer 0 (k.received fd).data, ?_, ?_⟩
      · rw [length_overwrite, hbuffer]
      · simp [hend, pure, Except.pure]
    · refine ⟨overwrite (overwrite s.buffer 0 (k.received fd).data)
        (k.received fd).data.length [0], ?_, ?_⟩
      · rw [length_overwrite, length_overwrite, hbuffer]
      · rw [take_terminated (by omega)]
        simp [hend, pure, Except.pure]
  · have hended : ¬ k.Ended fd := fun h => hreadable h.1
    refine ⟨s.buffer, hbuffer, ?_⟩
    rw [serveClient, hisSet]
    simp [hset, hreadable, hended, Kernel.echo, bind, Except.bind, pure, Except.pure]

/-- The loop over the clients that were there before. -/
theorem foldlM_serveClient {s : SelectServer} (hbit : ∀ fd ∈ clients, HasBit fd)
    (hset : ∀ fd ∈ clients, (fd ∈ read_fds ↔ k.Readable fd))
    (hlength : ∀ fd ∈ clients, k.Readable fd → (k.received fd).data.length ≤ 1023)
    (hbuffer : s.buffer.length = 1024) :
    ∃ buffer : Bytes, buffer.length = 1024 ∧ clients.foldlM (serveClient k read_fds) s =
      .ok { s with
        disconnected := s.disconnected ++ clients.filter fun fd => k.Ended fd
        buffer := buffer
        calls := s.calls ++ clients.flatMap k.echo } := by
  induction clients generalizing s with
  | nil => exact ⟨s.buffer, hbuffer, by simp [pure, Except.pure]⟩
  | cons fd clients ih =>
    rw [List.forall_mem_cons] at hbit hset hlength
    obtain ⟨buffer, hbuffer', hfirst⟩ := serveClient_eq hbit.1 hset.1 hlength.1 hbuffer
    obtain ⟨buffer', hbuffer'', hrest⟩ := ih hbit.2 hset.2 hlength.2 (s := { s with
      disconnected := s.disconnected ++ [fd].filter fun fd => k.Ended fd
      buffer := buffer
      calls := s.calls ++ k.echo fd }) hbuffer'
    refine ⟨buffer', hbuffer'', ?_⟩
    rw [List.foldlM_cons, hfirst]
    refine hrest.trans ?_
    rw [List.append_assoc, List.append_assoc, ← List.filter_append, List.singleton_append,
      List.flatMap_cons]

/-- A descriptor that is not in the set is passed over. -/
theorem foldlM_not_set {s : SelectServer} (hbit : ∀ fd ∈ clients, HasBit fd)
    (hout : ∀ fd ∈ clients, fd ∉ read_fds) : clients.foldlM (serveClient k read_fds) s = .ok s := by
  induction clients with
  | nil => rfl
  | cons fd clients ih =>
    rw [List.forall_mem_cons] at hbit hout
    have hfirst : s.serveClient k read_fds fd = .ok s := by
      rw [serveClient, fdIsSet, if_pos hbit.1]
      simp [hout.1, bind, Except.bind, pure, Except.pure]
    rw [List.foldlM_cons, hfirst]
    exact ih hbit.2 hout.2

theorem hasBit_of_foldlM_serveClient {s s' : SelectServer}
    (h : clients.foldlM (serveClient k read_fds) s = .ok s') : ∀ fd ∈ clients, HasBit fd := by
  induction clients generalizing s with
  | nil => exact List.forall_mem_nil _
  | cons fd clients ih =>
    rw [List.foldlM_cons, bind_eq_ok] at h
    obtain ⟨s₁, hfirst, hrest⟩ := h
    rw [serveClient, bind_eq_ok] at hfirst
    obtain ⟨isSet, hisSet, -⟩ := hfirst
    refine List.forall_mem_cons.mpr ⟨?_, ih hrest⟩
    by_contra hbit
    rw [fdIsSet, if_neg hbit] at hisSet
    cases hisSet

theorem foldl_removeClient (disconnected clients : List Fd) :
    disconnected.foldl removeClient clients = clients.filter (· ∉ disconnected) := by
  induction disconnected generalizing clients with
  | nil => simp
  | cons fd disconnected ih =>
    rw [List.foldl_cons, ih, removeClient, List.filter_filter]
    congr 1
    funext fd'
    simp [Bool.and_comm]

/-- The state after the listener was looked at. -/
theorem accept_eq (listener : Fd) (clients : List Fd) (hzero : k.accepted ≠ 0) (buffer : Bytes) :
    (if k.Readable listener then acceptClient k { clients := clients, buffer := buffer }
      else { clients := clients, buffer := buffer }) =
      ({ clients := clients ++ k.newClients listener
         buffer := buffer
         calls := k.calls listener [] } : SelectServer) := by
  by_cases hreadable : k.Readable listener
  · rcases lt_or_gt_of_ne hzero with hneg | hpos
    · simp [acceptClient, Kernel.newClients, Kernel.calls, hreadable, hneg, hneg.le]
    · simp [acceptClient, Kernel.newClients, Kernel.calls, hreadable, hpos, hpos.le]
  · simp [Kernel.newClients, Kernel.calls, hreadable]

/-- The pass from the loop over the clients on. -/
theorem pass_of_watch (memory : Buffer) (hbit : ∀ fd ∈ listener :: clients, HasBit fd)
    (hzero : k.accepted ≠ 0) :
    ∃ read_fds, (∀ fd, fd ∈ read_fds ↔ fd ∈ listener :: clients ∧ k.Readable fd) ∧
      pass k listener memory clients = do
        let s ← (clients ++ k.newClients listener).foldlM (serveClient k read_fds)
          { clients := clients ++ k.newClients listener
            buffer := memory.1
            calls := k.calls listener [] }
        return { s with clients := s.disconnected.foldl removeClient s.clients } := by
  obtain ⟨w, hwatch, hmem⟩ := watch_eq hbit k
  refine ⟨k.select (w.max_fd + 1) w.read_fds, hmem, ?_⟩
  have hlistener : fdIsSet listener (k.select (w.max_fd + 1) w.read_fds) =
      .ok (decide (k.Readable listener)) := by
    rw [fdIsSet, if_pos (hbit listener List.mem_cons_self)]
    simp [hmem]
  have haccept := accept_eq listener clients hzero memory.1
  rw [pass, hwatch]
  simp only [bind, Except.bind, hlistener, decide_eq_true_eq, haccept]

theorem hasBit_of_pass {memory : Buffer} {s : SelectServer} (hzero : k.accepted ≠ 0)
    (h : pass k listener memory clients = .ok s) :
    ∀ fd ∈ listener :: clients ++ k.newClients listener, HasBit fd := by
  have hbit : ∀ fd ∈ listener :: clients, HasBit fd := by
    rw [pass, bind_eq_ok] at h
    obtain ⟨w, hwatch, -⟩ := h
    exact hasBit_of_watch hwatch
  obtain ⟨read_fds, -, hpass⟩ := pass_of_watch memory hbit hzero
  rw [hpass, bind_eq_ok] at h
  obtain ⟨s', hfold, -⟩ := h
  have hclients := hasBit_of_foldlM_serveClient hfold
  rw [List.cons_append]
  exact List.forall_mem_cons.mpr ⟨hbit listener List.mem_cons_self, hclients⟩

/-- One pass, when there is a bit for each descriptor and the new client is none that
the server has already. -/
theorem pass_eq (memory : Buffer)
    (hbit : ∀ fd ∈ listener :: clients ++ k.newClients listener, HasBit fd)
    (hzero : k.accepted ≠ 0) (hnew : ∀ fd ∈ k.newClients listener, fd ∉ listener :: clients)
    (hlength : ∀ fd ∈ clients, k.Readable fd → (k.received fd).data.length ≤ 1023) :
    ∃ s, pass k listener memory clients = .ok s ∧
      s.clients = k.tracked listener clients ∧ s.calls = k.calls listener clients := by
  obtain ⟨hold, hnewBit⟩ := List.forall_mem_append.mp hbit
  obtain ⟨read_fds, hmem, hpass⟩ := pass_of_watch memory hold hzero
  have hset : ∀ fd ∈ clients, (fd ∈ read_fds ↔ k.Readable fd) := fun fd hfd => by
    rw [hmem]
    exact and_iff_right (List.mem_cons_of_mem listener hfd)
  obtain ⟨buffer, -, hserve⟩ := foldlM_serveClient (s := {
      clients := clients ++ k.newClients listener
      buffer := memory.1
      calls := k.calls listener [] }) (fun fd hfd => hold fd (List.mem_cons_of_mem _ hfd)) hset
    hlength memory.2
  have hout : ∀ fd ∈ k.newClients listener, fd ∉ read_fds := fun fd hfd hmem' =>
    hnew fd hfd ((hmem fd).mp hmem').1
  rw [hpass, List.foldlM_append, hserve]
  simp only [bind, Except.bind, foldlM_not_set hnewBit hout]
  refine ⟨_, rfl, ?_, k.calls_append listener clients⟩
  have hkept : clients.filter (· ∉ clients.filter fun fd => k.Ended fd) =
      clients.filter fun fd => ¬ k.Ended fd :=
    List.filter_congr fun fd hfd => by simp [hfd]
  have hkeptNew : (k.newClients listener).filter (· ∉ clients.filter fun fd => k.Ended fd) =
      k.newClients listener := by
    refine List.filter_eq_self.mpr fun fd hfd => decide_eq_true fun hmem' => ?_
    exact hnew fd hfd (List.mem_cons_of_mem _ (List.mem_of_mem_filter hmem'))
  dsimp only
  rw [List.nil_append, foldl_removeClient, List.filter_append, hkept, hkeptNew, Kernel.tracked]

end SelectServer

end BuildYourOwnStuff.SocketProg
