import BuildYourOwnStuff.Foundations.Runs
import BuildYourOwnStuff.SocketProg.Sockets

/-!
# The connections of a server

The clients connect, send and end their stream as they like, and go on reading until their
connection is closed. So a call of `send` neither waits nor fails, as it would do with a client
that does not read or has closed its socket. The server accepts the clients in the order in
which they came. A descriptor is given again after it was closed.
-/

namespace BuildYourOwnStuff.SocketProg

open Foundations

/-- The bytes that were received from a client, those that have arrived after them, and those
that were sent back to it. The client may have ended its stream, and the server may have
received that end. -/
structure Connection where
  taken : Bytes := []
  pending : Bytes := []
  echoed : Bytes := []
  ended : Bool := false
  atEnd : Bool := false
  closed : Bool := false
  deriving DecidableEq, Repr

namespace Connection

def arrived (c : Connection) : Bytes := c.taken ++ c.pending

/-- A call of `recv` returns at once. -/
def Readable (c : Connection) : Prop := c.pending ≠ [] ∨ c.ended = true

instance (c : Connection) : Decidable c.Readable := inferInstanceAs (Decidable (_ ∨ _))

def say (data : Bytes) (c : Connection) : Connection :=
  if c.ended then c else { c with pending := c.pending ++ data }

/-- The client ends its stream, and reads on. -/
def leave (c : Connection) : Connection := { c with ended := true }

def receive (size : ℕ) (c : Connection) : Connection :=
  { c with
    taken := c.taken ++ c.pending.take size
    pending := c.pending.drop size
    atEnd := decide (c.pending = []) }

/-- The client reads, so all the bytes are accepted. -/
def send (data : Bytes) (c : Connection) : Connection := { c with echoed := c.echoed ++ data }

def close (c : Connection) : Connection := { c with closed := true }

/-- A connection is at its end when all was received, and it is closed after that. -/
structure Proper (c : Connection) : Prop where
  atEnd : c.atEnd = true → c.pending = [] ∧ c.ended = true
  closed : c.closed = true → c.atEnd = true

/-- All that was received has been sent back. -/
def Answered (c : Connection) : Prop := c.echoed = c.taken

/-- A byte stands for two steps, to receive and to send it, and there are the end and the closing
of the connection. -/
def work (c : Connection) : ℕ :=
  2 * c.pending.length + (c.taken.length - c.echoed.length) +
    (!c.atEnd).toNat + (!c.closed).toNat

variable {c : Connection} {size : ℕ}

theorem Proper.say (h : c.Proper) (data : Bytes) : (c.say data).Proper := by
  rw [Connection.say]
  split_ifs with hended
  · exact h
  · exact ⟨fun hend => absurd (h.atEnd hend).2 hended, h.closed⟩

theorem Proper.leave (h : c.Proper) : c.leave.Proper :=
  ⟨fun hend => ⟨(h.atEnd hend).1, rfl⟩, h.closed⟩

theorem proper_receive (hreadable : c.Readable) (hopen : c.closed = false) (size : ℕ) :
    (c.receive size).Proper where
  atEnd hend := by
    have hnil : c.pending = [] := of_decide_eq_true hend
    refine ⟨?_, hreadable.resolve_left fun hne => hne hnil⟩
    change c.pending.drop size = []
    rw [hnil, List.drop_nil]
  closed hclosed := absurd (hopen.symm.trans hclosed) Bool.false_ne_true

theorem Proper.send (h : c.Proper) (data : Bytes) : (c.send data).Proper := ⟨h.atEnd, h.closed⟩

theorem Proper.close (h : c.Proper) (hend : c.atEnd = true) : c.close.Proper :=
  ⟨h.atEnd, fun _ => hend⟩

theorem closed_say (data : Bytes) : (c.say data).closed = c.closed := by
  rw [say]
  split_ifs <;> rfl

/-- What the client has done since then is not yet known to the server. -/
structure Unseen (c c' : Connection) : Prop where
  taken : c'.taken = c.taken
  echoed : c'.echoed = c.echoed
  atEnd : c'.atEnd = c.atEnd
  readable : c.Readable → c'.Readable

theorem unseen_rfl : c.Unseen c := ⟨rfl, rfl, rfl, id⟩

theorem Unseen.trans {c' c'' : Connection} (h : c.Unseen c') (h' : c'.Unseen c'') :
    c.Unseen c'' :=
  ⟨h'.taken.trans h.taken, h'.echoed.trans h.echoed, h'.atEnd.trans h.atEnd,
    fun hc => h'.readable (h.readable hc)⟩

theorem unseen_say (data : Bytes) : c.Unseen (c.say data) := by
  rw [say]
  split_ifs
  · exact unseen_rfl
  · exact ⟨rfl, rfl, rfl, Or.imp_left fun hne hnil => hne (List.append_eq_nil_iff.mp hnil).1⟩

theorem unseen_leave : c.Unseen c.leave := ⟨rfl, rfl, rfl, fun _ => .inr rfl⟩

theorem Unseen.answered {c' : Connection} (h : c.Unseen c') (hc : c.Answered) : c'.Answered := by
  rw [Answered, h.echoed, h.taken]
  exact hc

/-- What is received is sent back. -/
theorem Answered.send_receive (h : c.Answered) (size : ℕ) :
    ((c.receive size).send (c.pending.take size)).Answered :=
  congrArg (· ++ c.pending.take size) h

theorem Answered.close_receive (h : c.Answered) (hnil : c.pending = []) (size : ℕ) :
    (c.receive size).close.Answered := by
  change c.echoed = c.taken ++ c.pending.take size
  rw [hnil, List.take_nil, List.append_nil]
  exact h

theorem work_receive_lt (hend : c.atEnd = false) (hle : c.echoed.length ≤ c.taken.length)
    (hsize : 0 < size) : (c.receive size).work < c.work := by
  by_cases hnil : c.pending = []
  · simp [work, receive, hend, hnil]
  · have hlength : 0 < c.pending.length := List.length_pos_iff.mpr hnil
    simp only [work, receive, hend, hnil, decide_false, List.length_append, List.length_take,
      List.length_drop]
    omega

theorem work_send_lt {data : Bytes} (h : c.echoed ++ data = c.taken) (hne : data ≠ []) :
    (c.send data).work < c.work := by
  have hlength : 0 < data.length := List.length_pos_iff.mpr hne
  have htaken : c.echoed.length + data.length = c.taken.length := by
    rw [← List.length_append, h]
  simp only [work, send, List.length_append]
  omega

theorem work_close_lt (hopen : c.closed = false) : c.close.work < c.work := by
  simp [work, close, hopen]

theorem work_send_receive_lt (h : c.Proper) (hanswered : c.Answered) (hne : c.pending ≠ [])
    (hsize : 0 < size) : ((c.receive size).send (c.pending.take size)).work < c.work := by
  have hend : c.atEnd = false := Bool.eq_false_iff.mpr fun hend => hne (h.atEnd hend).1
  have htake : c.pending.take size ≠ [] := by
    rw [Ne, List.take_eq_nil_iff, not_or]
    exact ⟨hsize.ne', hne⟩
  exact (work_send_lt (hanswered.send_receive size) htake).trans
    (work_receive_lt hend (congrArg List.length hanswered).le hsize)

theorem work_close_receive_lt (hopen : c.closed = false) (hnil : c.pending = []) :
    (c.receive size).close.work < c.work := by
  simp only [work, receive, close, hopen, hnil, List.take_nil, List.drop_nil, List.append_nil,
    decide_true, Bool.not_true, Bool.not_false, Bool.toNat_true, Bool.toNat_false]
  omega

/-- What a call of `recv` would receive now. -/
def receivable (c : Connection) (size : ℕ) : Received := (Received.bytes c.pending).upTo size

theorem data_receivable : (c.receivable size).data = c.pending.take size := rfl

theorem receivable_eq_nil_iff (hsize : 0 < size) :
    (c.receivable size).data = [] ↔ c.pending = [] := by
  rw [data_receivable, List.take_eq_nil_iff]
  exact or_iff_right hsize.ne'

end Connection

/-- The connections are numbered in the order in which they came. The first ones were accepted,
and each of these has a descriptor until it is closed. -/
structure Network where
  conn : ℕ → Connection := fun _ => {}
  count : ℕ := 0
  accepted : ℕ := 0
  client : Fd → Option ℕ := fun _ => none

/-- What the clients do. One that leaves ends its stream. -/
inductive Event
  | connect
  | say (i : ℕ) (data : Bytes)
  | leave (i : ℕ)
  deriving DecidableEq, Repr

namespace Network

def modify (n : Network) (i : ℕ) (f : Connection → Connection) : Network :=
  { n with conn := Function.update n.conn i (f (n.conn i)) }

/-- Only the clients that have connected can do something. -/
def event (n : Network) : Event → Network
  | .connect => { n with count := n.count + 1 }
  | .say i data => if i < n.count then n.modify i (.say data) else n
  | .leave i => if i < n.count then n.modify i .leave else n

/-- A descriptor that can be given to a connection. -/
def Free (n : Network) (listener fd : Fd) : Prop :=
  0 < fd ∧ fd ≠ listener ∧ n.client fd = none

instance (n : Network) (listener fd : Fd) : Decidable (n.Free listener fd) :=
  inferInstanceAs (Decidable (_ ∧ _ ∧ _))

def accept (n : Network) (listener new_fd : Fd) : Network :=
  if n.accepted < n.count ∧ n.Free listener new_fd then
    { n with
      accepted := n.accepted + 1
      client := Function.update n.client new_fd (some n.accepted) }
  else n

def onClient (n : Network) (fd : Fd) (f : Connection → Connection) : Network :=
  match n.client fd with
  | none => n
  | some i => n.modify i f

/-- The calls of a server, where `accept` can return `new_fd` and `recv` receives at most so many
bytes. -/
def call (listener new_fd : Fd) (size : ℕ) (n : Network) : Call → Network
  | .accept => n.accept listener new_fd
  | .recv fd => n.onClient fd (.receive size)
  | .send fd data => n.onClient fd (.send data)
  | .close fd => { n.onClient fd .close with client := Function.update n.client fd none }

def ReadableAt (n : Network) (listener fd : Fd) : Prop :=
  if fd = listener then n.accepted < n.count
  else ∃ i ∈ n.client fd, (n.conn i).Readable

instance (n : Network) (listener fd : Fd) : Decidable (n.ReadableAt listener fd) := by
  unfold ReadableAt
  infer_instance

/-- What a server finds that waits in this network for an event, where its calls are made later. -/
def kernel (n later : Network) (listener new_fd : Fd) (size : ℕ) : Kernel where
  revents fd := if n.ReadableAt listener fd then POLLIN else 0
  accepted := if later.Free listener new_fd then new_fd else -1
  received fd :=
    match later.client fd with
    | none => .error
    | some i => (later.conn i).receivable size

/-- Each descriptor that is open stands for one connection, and each connection has one from when
it is accepted until it is closed. -/
structure Sound (n : Network) (listener : Fd) : Prop where
  proper : ∀ i, (n.conn i).Proper
  accepted_le : n.accepted ≤ n.count
  client : ∀ fd i, n.client fd = some i →
    0 < fd ∧ fd ≠ listener ∧ i < n.accepted ∧ (n.conn i).closed = false
  inj : ∀ fd fd' i, n.client fd = some i → n.client fd' = some i → fd = fd'
  exists_client : ∀ i < n.accepted, (n.conn i).closed = false → ∃ fd, n.client fd = some i
  fresh : ∀ i, n.accepted ≤ i → (n.conn i).closed = false

/-- There is nothing to do for a server. -/
def Quiet (n : Network) (listener : Fd) : Prop := ∀ fd, ¬ n.ReadableAt listener fd

/-- Every byte that a client has sent was sent back to it, and the connections of the clients that
have left are closed. -/
structure Complete (n : Network) : Prop where
  echoed : ∀ i < n.count, (n.conn i).echoed = (n.conn i).arrived
  closed : ∀ i < n.count, ((n.conn i).closed = true ↔ (n.conn i).ended = true)

/-- What is left to do for a server, if the clients do nothing more. -/
def work (n : Network) : ℕ :=
  ∑ i ∈ Finset.range n.count, (n.conn i).work + (n.count - n.accepted)

variable {n : Network} {listener new_fd fd : Fd} {i : ℕ}

@[simp] theorem client_modify (f : Connection → Connection) :
    (n.modify i f).client = n.client := rfl

@[simp] theorem count_modify (f : Connection → Connection) : (n.modify i f).count = n.count := rfl

@[simp] theorem accepted_modify (f : Connection → Connection) :
    (n.modify i f).accepted = n.accepted := rfl

theorem conn_modify_self (f : Connection → Connection) :
    (n.modify i f).conn i = f (n.conn i) :=
  Function.update_self i _ _

theorem conn_modify_of_ne {j : ℕ} (h : j ≠ i) (f : Connection → Connection) :
    (n.modify i f).conn j = n.conn j :=
  Function.update_of_ne h _ _

theorem modify_modify (f g : Connection → Connection) :
    (n.modify i f).modify i g = n.modify i fun c => g (f c) := by
  simp [modify]

theorem forall_conn_modify {P : Connection → Prop} (h : ∀ j, P (n.conn j))
    {f : Connection → Connection} (hi : P (f (n.conn i))) (j : ℕ) : P ((n.modify i f).conn j) := by
  by_cases hj : j = i
  · rw [hj, conn_modify_self]
    exact hi
  · rw [conn_modify_of_ne hj]
    exact h j

theorem onClient_of_some (h : n.client fd = some i) (f : Connection → Connection) :
    n.onClient fd f = n.modify i f := by
  rw [onClient, h]

theorem sound_init (listener : Fd) : ({} : Network).Sound listener where
  proper _ := ⟨nofun, nofun⟩
  accepted_le := le_rfl
  client := nofun
  inj := nofun
  exists_client _ hi := absurd hi (Nat.not_lt_zero _)
  fresh _ _ := rfl

theorem Sound.ne_of_fd_ne (h : n.Sound listener) (hi : n.client fd = some i) {fd' : Fd} {j : ℕ}
    (hj : n.client fd' = some j) (hne : fd' ≠ fd) : j ≠ i := by
  rintro rfl
  exact hne (h.inj fd' fd j hj hi)

theorem Sound.ne_of_accepted_le (h : n.Sound listener) (hi : n.client fd = some i) {j : ℕ}
    (hj : n.accepted ≤ j) : j ≠ i := by
  rintro rfl
  exact absurd (h.client fd j hi).2.2.1 (not_lt_of_ge hj)

/-- The connections that stay open when one is closed are the others. -/
theorem Sound.client_close_iff (h : n.Sound listener) (hi : n.client fd = some i) {fd' : Fd}
    {j : ℕ} : Function.update n.client fd none fd' = some j ↔ n.client fd' = some j ∧ j ≠ i := by
  by_cases hfd : fd' = fd
  · rw [hfd, Function.update_self, hi]
    refine iff_of_false (Option.some_ne_none j).symm ?_
    rintro ⟨hj, hne⟩
    exact hne (Option.some.inj hj).symm
  · rw [Function.update_of_ne hfd]
    exact ⟨fun hj => ⟨hj, h.ne_of_fd_ne hi hj hfd⟩, And.left⟩

/-- What is done for one connection, up to its closing. -/
theorem Sound.modify (h : n.Sound listener) {f : Connection → Connection}
    (hproper : (f (n.conn i)).Proper) (hclosed : (f (n.conn i)).closed = (n.conn i).closed) :
    (n.modify i f).Sound listener := by
  have hsame : ∀ j, ((n.modify i f).conn j).closed = (n.conn j).closed := by
    intro j
    by_cases hj : j = i
    · rw [hj, conn_modify_self, hclosed]
    · rw [conn_modify_of_ne hj]
  refine ⟨forall_conn_modify h.proper hproper, h.accepted_le, fun fd j hj => ?_, h.inj,
    fun j hj => ?_, fun j hj => ?_⟩
  · rw [hsame]
    exact h.client fd j hj
  · rw [hsame]
    exact h.exists_client j hj
  · rw [hsame]
    exact h.fresh j hj

theorem Sound.event (h : n.Sound listener) (e : Event) : (n.event e).Sound listener := by
  cases e with
  | connect =>
    exact ⟨h.proper, h.accepted_le.trans (Nat.le_succ _), h.client, h.inj, h.exists_client, h.fresh⟩
  | say i data =>
    rw [Network.event]
    split_ifs
    · exact h.modify ((h.proper i).say data) (Connection.closed_say data)
    · exact h
  | leave i =>
    rw [Network.event]
    split_ifs
    · exact h.modify (h.proper i).leave rfl
    · exact h

theorem Sound.accept (h : n.Sound listener) (new_fd : Fd) :
    (n.accept listener new_fd).Sound listener := by
  rw [Network.accept]
  split_ifs with hfree
  · obtain ⟨hlt, hpos, hlistener, hnone⟩ := hfree
    -- the descriptor is new, and so is the number of the connection
    have hclient : ∀ fd i, Function.update n.client new_fd (some n.accepted) fd = some i →
        fd = new_fd ∧ i = n.accepted ∨ fd ≠ new_fd ∧ n.client fd = some i := by
      intro fd i hi
      by_cases hfd : fd = new_fd
      · rw [hfd, Function.update_self] at hi
        exact .inl ⟨hfd, (Option.some.inj hi).symm⟩
      · rw [Function.update_of_ne hfd] at hi
        exact .inr ⟨hfd, hi⟩
    refine ⟨h.proper, hlt, fun fd i hi => ?_, fun fd fd' i hi hi' => ?_, fun i hi hopen => ?_,
      fun i hi => h.fresh i (Nat.le_of_succ_le hi)⟩
    · rcases hclient fd i hi with ⟨rfl, rfl⟩ | ⟨-, hold⟩
      · exact ⟨hpos, hlistener, Nat.lt_succ_self _, h.fresh _ le_rfl⟩
      · obtain ⟨hfd, hne, hlt', hopen⟩ := h.client fd i hold
        exact ⟨hfd, hne, Nat.lt_succ_of_lt hlt', hopen⟩
    · rcases hclient fd i hi with ⟨rfl, rfl⟩ | ⟨-, hold⟩
      · rcases hclient fd' _ hi' with ⟨rfl, -⟩ | ⟨-, hold'⟩
        · rfl
        · exact absurd (h.client fd' _ hold').2.2.1 (lt_irrefl _)
      · rcases hclient fd' i hi' with ⟨rfl, rfl⟩ | ⟨-, hold'⟩
        · exact absurd (h.client fd _ hold).2.2.1 (lt_irrefl _)
        · exact h.inj fd fd' i hold hold'
    · rcases Nat.lt_succ_iff_lt_or_eq.mp hi with hlt' | rfl
      · obtain ⟨fd, hfd⟩ := h.exists_client i hlt' hopen
        refine ⟨fd, ?_⟩
        have hne : fd ≠ new_fd := by
          rintro rfl
          rw [hnone] at hfd
          cases hfd
        change Function.update n.client new_fd _ fd = _
        rw [Function.update_of_ne hne, hfd]
      · exact ⟨new_fd, Function.update_self _ _ _⟩
  · exact h

/-- A connection is closed when its end was received. -/
theorem Sound.close (h : n.Sound listener) (hi : n.client fd = some i)
    (hend : (n.conn i).atEnd = true) (new_fd : Fd) (size : ℕ) :
    (n.call listener new_fd size (.close fd)).Sound listener := by
  rw [call, onClient_of_some hi]
  refine ⟨forall_conn_modify h.proper ((h.proper i).close hend), h.accepted_le, fun fd' j hj => ?_,
    fun fd' fd'' j hj hj' => h.inj fd' fd'' j ((h.client_close_iff hi).mp hj).1
      ((h.client_close_iff hi).mp hj').1, fun j hj hopen => ?_, fun j hj => ?_⟩
  · obtain ⟨hj, hne⟩ := (h.client_close_iff hi).mp hj
    change _ ∧ _ ∧ _ ∧ ((n.modify i _).conn j).closed = false
    rw [conn_modify_of_ne hne]
    exact h.client fd' j hj
  · change ((n.modify i _).conn j).closed = false at hopen
    have hne : j ≠ i := by
      rintro rfl
      rw [conn_modify_self] at hopen
      cases hopen
    rw [conn_modify_of_ne hne] at hopen
    obtain ⟨fd', hfd'⟩ := h.exists_client j hj hopen
    exact ⟨fd', (h.client_close_iff hi).mpr ⟨hfd', hne⟩⟩
  · change ((n.modify i _).conn j).closed = false
    rw [conn_modify_of_ne (h.ne_of_accepted_le hi hj)]
    exact h.fresh j hj

theorem Sound.client_listener (h : n.Sound listener) : n.client listener = none := by
  by_contra hne
  obtain ⟨i, hi⟩ := Option.ne_none_iff_exists'.mp hne
  exact (h.client listener i hi).2.1 rfl

theorem readableAt_iff (hi : n.client fd = some i) (hne : fd ≠ listener) :
    n.ReadableAt listener fd ↔ (n.conn i).Readable := by
  rw [ReadableAt, if_neg hne, hi]
  simp

/-- In a quiet network there is nothing left to do. -/
theorem Sound.complete (h : n.Sound listener) (hanswered : ∀ i, (n.conn i).Answered)
    (hquiet : n.Quiet listener) : n.Complete := by
  have haccepted : n.count ≤ n.accepted := by
    have hlistener := hquiet listener
    rw [ReadableAt, if_pos rfl] at hlistener
    exact Nat.le_of_not_lt hlistener
  have hclosed : ∀ i < n.count, (n.conn i).closed = false → ¬ (n.conn i).Readable := by
    intro i hi hopen
    obtain ⟨fd, hfd⟩ := h.exists_client i (hi.trans_le haccepted) hopen
    rw [← readableAt_iff hfd (h.client fd i hfd).2.1]
    exact hquiet fd
  constructor
  · intro i hi
    have hpending : (n.conn i).pending = [] := by
      cases hc : (n.conn i).closed with
      | true => exact ((h.proper i).atEnd ((h.proper i).closed hc)).1
      | false => exact not_not.mp fun hne => hclosed i hi hc (.inl hne)
    rw [Connection.arrived, hpending, List.append_nil]
    exact hanswered i
  · intro i hi
    refine ⟨fun hc => ((h.proper i).atEnd ((h.proper i).closed hc)).2, fun hended => ?_⟩
    cases hc : (n.conn i).closed with
    | true => rfl
    | false => exact absurd (.inr hended) (hclosed i hi hc)

/-- There is always a descriptor that is not in use. -/
theorem Sound.exists_free (h : n.Sound listener) : ∃ fd, n.Free listener fd := by
  have hmaps : Set.MapsTo n.client {fd | n.client fd ≠ none} (some '' Set.Iio n.accepted) := by
    intro fd hfd
    obtain ⟨i, hi⟩ := Option.ne_none_iff_exists'.mp hfd
    exact ⟨i, (h.client fd i hi).2.2.1, hi.symm⟩
  have hinj : Set.InjOn n.client {fd | n.client fd ≠ none} := by
    intro fd hfd fd' _ heq
    obtain ⟨i, hi⟩ := Option.ne_none_iff_exists'.mp hfd
    exact h.inj fd fd' i hi (heq ▸ hi)
  have hfinite := Set.Finite.of_injOn hmaps hinj ((Set.finite_Iio _).image _)
  obtain ⟨fd, hpos, hfree⟩ := (Set.Ioi_infinite (0 : ℤ)).exists_notMem_finite
    (hfinite.union (Set.finite_singleton listener))
  rw [Set.mem_union, not_or] at hfree
  exact ⟨fd, hpos, hfree.2, not_not.mp hfree.1⟩

/-- What the clients do does not concern the descriptors. -/
structure Later (n later : Network) : Prop where
  client : later.client = n.client
  accepted : later.accepted = n.accepted
  count : n.count ≤ later.count
  unseen : ∀ i, (n.conn i).Unseen (later.conn i)

theorem later_rfl : n.Later n := ⟨rfl, rfl, le_rfl, fun _ => Connection.unseen_rfl⟩

theorem later_modify {f : Connection → Connection} (h : (n.conn i).Unseen (f (n.conn i))) :
    n.Later (n.modify i f) := by
  refine ⟨rfl, rfl, le_rfl, fun j => ?_⟩
  by_cases hj : j = i
  · rw [hj, conn_modify_self]
    exact h
  · rw [conn_modify_of_ne hj]
    exact Connection.unseen_rfl

theorem later_event (n : Network) (e : Event) : n.Later (n.event e) := by
  cases e with
  | connect => exact ⟨rfl, rfl, Nat.le_succ _, fun _ => Connection.unseen_rfl⟩
  | say i data =>
    rw [event]
    split_ifs
    · exact later_modify (Connection.unseen_say data)
    · exact later_rfl
  | leave i =>
    rw [event]
    split_ifs
    · exact later_modify Connection.unseen_leave
    · exact later_rfl

theorem Later.trans {n' n'' : Network} (h : n.Later n') (h' : n'.Later n'') : n.Later n'' :=
  ⟨h'.client.trans h.client, h'.accepted.trans h.accepted, h.count.trans h'.count,
    fun i => (h.unseen i).trans (h'.unseen i)⟩

theorem later_events (n : Network) (between : List Event) : n.Later (between.foldl event n) := by
  induction between generalizing n with
  | nil => exact later_rfl
  | cons e between ih => exact (later_event n e).trans (ih _)

/-- Work that is done for one connection. -/
theorem work_lt_of_conn {n' : Network} (hcount : n'.count = n.count)
    (haccepted : n'.accepted = n.accepted) (hi : i < n.count)
    (hself : (n'.conn i).work < (n.conn i).work) (hothers : ∀ j ≠ i, n'.conn j = n.conn j) :
    n'.work < n.work := by
  have hsum : ∑ j ∈ Finset.range n.count, (n'.conn j).work <
      ∑ j ∈ Finset.range n.count, (n.conn j).work := by
    refine Finset.sum_lt_sum (fun j _ => ?_) ⟨i, Finset.mem_range.mpr hi, hself⟩
    by_cases hj : j = i
    · rw [hj]
      exact hself.le
    · rw [hothers j hj]
  rw [work, work, hcount, haccepted]
  omega

theorem work_accept (h : n.accepted < n.count) (hfree : n.Free listener new_fd) :
    (n.accept listener new_fd).work < n.work := by
  rw [accept, if_pos ⟨h, hfree⟩]
  exact Nat.add_lt_add_left (Nat.sub_lt_sub_left h (Nat.lt_succ_self _)) _

end Network

end BuildYourOwnStuff.SocketProg
