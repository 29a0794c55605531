import Mathlib.Data.Set.Finite.Basic
import BuildYourOwnStuff.SocketProg.Connections

/-!
# The threaded server

Each client has a thread of its own, and the main loop accepts connections meanwhile. The
threads and the clients go on in any order. A thread can be started for each connection.
-/

namespace BuildYourOwnStuff.SocketProg

open Foundations

/-- Where a thread is in `handle_client`: before `recv`, before `send` with so much in the buffer,
or after the loop. -/
inductive Place
  | receiving
  | sending (data : Bytes)
  | closing
  deriving DecidableEq, Repr

/-- What was received and is not yet sent back. -/
def Place.held : Place → Bytes
  | sending data => data
  | _ => []

/-- The connections, and the threads that were started for the descriptors and have not ended. -/
structure ThreadedServer where
  network : Network := {}
  threads : Fd → Option Place := fun _ => none

/-- A client does something, the main loop accepts a connection under a descriptor, or the thread
of a descriptor goes on. -/
inductive ThreadedStep
  | event (e : Event)
  | accept (client_fd : Fd)
  | go (fd : Fd)

namespace ThreadedServer

/-- If there is no descriptor for the connection, the main loop tries again. -/
def accept (s : ThreadedServer) (listener client_fd : Fd) : ThreadedServer :=
  if s.network.accepted < s.network.count ∧ s.network.Free listener client_fd then
    { network := s.network.accept listener client_fd
      threads := Function.update s.threads client_fd (some .receiving) }
  else s

/-- A thread in `recv` waits until its connection is readable. -/
def receive (s : ThreadedServer) (fd : Fd) : ThreadedServer :=
  match s.network.client fd with
  | none => s
  | some i =>
    if (s.network.conn i).Readable then
      let received := (s.network.conn i).receivable 1024
      { network := s.network.modify i (.receive 1024)
        threads := Function.update s.threads fd
          (some (if received.count > 0 then .sending received.data else .closing)) }
    else s

def go (s : ThreadedServer) (listener fd : Fd) : ThreadedServer :=
  match s.threads fd with
  | none => s
  | some .receiving => s.receive fd
  | some (.sending data) =>
    { network := s.network.call listener fd 1024 (.send fd data)
      threads := Function.update s.threads fd (some .receiving) }
  | some .closing =>
    { network := s.network.call listener fd 1024 (.close fd)
      threads := Function.update s.threads fd none }

def step (listener : Fd) (s : ThreadedServer) : ThreadedStep → ThreadedServer
  | .event e => { s with network := s.network.event e }
  | .accept client_fd => s.accept listener client_fd
  | .go fd => s.go listener fd

/-- The connection of a thread is as the thread has left it. -/
structure Serves (place : Place) (c : Connection) : Prop where
  echoed : c.echoed ++ place.held = c.taken
  atEnd : c.atEnd = true ↔ place = .closing
  ne_nil : ∀ data, place = .sending data → data ≠ []

/-- Each open descriptor has a thread, and no other has one. -/
structure Kept (listener : Fd) (s : ThreadedServer) : Prop where
  sound : s.network.Sound listener
  threads : ∀ fd, s.threads fd = none ↔ s.network.client fd = none
  serves : ∀ fd i place, s.network.client fd = some i → s.threads fd = some place →
    Serves place (s.network.conn i)
  answered : ∀ i, (∀ fd, s.network.client fd ≠ some i) → (s.network.conn i).Answered
  fresh : ∀ i, s.network.accepted ≤ i → (s.network.conn i).atEnd = false

variable {listener fd : Fd} {s : ThreadedServer} {i : ℕ}

theorem kept_start (listener : Fd) : Kept listener {} :=
  ⟨Network.sound_init listener, fun _ => iff_of_true rfl rfl, nofun, fun _ _ => rfl,
    fun _ _ => rfl⟩

theorem Serves.unseen {place : Place} {c c' : Connection} (h : Serves place c)
    (hunseen : c.Unseen c') : Serves place c' := by
  refine ⟨?_, ?_, h.ne_nil⟩
  · rw [hunseen.echoed, hunseen.taken]
    exact h.echoed
  · rw [hunseen.atEnd]
    exact h.atEnd

theorem Kept.event (h : Kept listener s) (e : Event) :
    Kept listener { s with network := s.network.event e } := by
  have hlater := Network.later_event s.network e
  refine ⟨h.sound.event e, fun fd => ?_, fun fd i place hi hplace => ?_, fun i hi => ?_,
    fun i hi => ?_⟩
  · rw [hlater.client]
    exact h.threads fd
  · rw [hlater.client] at hi
    exact (h.serves fd i place hi hplace).unseen (hlater.unseen i)
  · rw [hlater.client] at hi
    exact (hlater.unseen i).answered (h.answered i hi)
  · rw [hlater.accepted] at hi
    rw [(hlater.unseen i).atEnd]
    exact h.fresh i hi

/-- The thread of a new connection. -/
theorem Kept.accept (h : Kept listener s) (client_fd : Fd) :
    Kept listener (s.accept listener client_fd) := by
  rw [ThreadedServer.accept]
  split_ifs with hfree
  · have hsound := h.sound.accept client_fd
    rw [Network.accept, if_pos hfree] at hsound ⊢
    refine ⟨hsound, fun fd => ?_, fun fd i place hi hplace => ?_, fun i hi => h.answered i
      fun fd hfd => ?_, fun i hi => h.fresh i (Nat.le_of_succ_le hi)⟩
    · by_cases hfd : fd = client_fd
      · simp [hfd]
      · simp [hfd, h.threads fd]
    · by_cases hfd : fd = client_fd
      · subst hfd
        simp only [Function.update_self, Option.some.injEq] at hi hplace
        subst hi hplace
        refine ⟨?_, iff_of_false ?_ (by rintro ⟨⟩), by rintro _ ⟨⟩⟩
        · refine (List.append_nil _).trans (h.answered _ fun fd' hfd' => ?_)
          exact absurd (h.sound.client fd' _ hfd').2.2.1 (lt_irrefl _)
        · exact Bool.eq_false_iff.mp (h.fresh _ le_rfl)
      · simp only [Function.update_of_ne hfd] at hi hplace
        exact h.serves fd i place hi hplace
    · refine hi fd ?_
      have hne : fd ≠ client_fd := by
        rintro rfl
        exact Option.some_ne_none i (hfd.symm.trans hfree.2.2.2)
      change Function.update s.network.client client_fd _ fd = some i
      rw [Function.update_of_ne hne, hfd]
  · exact h

/-- A thread that goes on, but for the closing of the connection. -/
theorem Kept.modify (h : Kept listener s) (hi : s.network.client fd = some i)
    {f : Connection → Connection} {place : Place} (hproper : (f (s.network.conn i)).Proper)
    (hclosed : (f (s.network.conn i)).closed = (s.network.conn i).closed)
    (hserves : Serves place (f (s.network.conn i))) :
    Kept listener ⟨s.network.modify i f, Function.update s.threads fd (some place)⟩ := by
  refine ⟨h.sound.modify hproper hclosed, fun fd' => ?_, fun fd' j place' hj hplace => ?_,
    fun j hj => ?_, fun j hj => ?_⟩
  · by_cases hfd : fd' = fd
    · simp [hfd, hi]
    · simp [hfd, h.threads fd']
  · by_cases hfd : fd' = fd
    · subst hfd
      obtain rfl := Option.some.inj (hi.symm.trans hj)
      dsimp only at hplace ⊢
      rw [Function.update_self] at hplace
      obtain rfl := Option.some.inj hplace
      rw [Network.conn_modify_self]
      exact hserves
    · dsimp only at hplace ⊢
      rw [Function.update_of_ne hfd] at hplace
      rw [Network.conn_modify_of_ne (h.sound.ne_of_fd_ne hi hj hfd)]
      exact h.serves fd' j place' hj hplace
  · have hne : j ≠ i := by
      rintro rfl
      exact hj fd hi
    dsimp only
    rw [Network.conn_modify_of_ne hne]
    exact h.answered j hj
  · dsimp only
    rw [Network.conn_modify_of_ne (h.sound.ne_of_accepted_le hi hj)]
    exact h.fresh j hj

/-- A thread that closes its connection. -/
theorem Kept.close (h : Kept listener s) (hi : s.network.client fd = some i)
    (hplace : s.threads fd = some .closing) :
    Kept listener ⟨s.network.call listener fd 1024 (.close fd),
      Function.update s.threads fd none⟩ := by
  have hserves := h.serves fd i .closing hi hplace
  have hanswered : (s.network.conn i).Answered := (List.append_nil _).symm.trans hserves.echoed
  have hsound := h.sound.close hi (hserves.atEnd.mpr rfl) fd 1024
  rw [Network.call, Network.onClient_of_some hi] at hsound ⊢
  refine ⟨hsound, fun fd' => ?_, fun fd' j place hj hplace' => ?_, fun j hj => ?_, fun j hj => ?_⟩
  · by_cases hfd : fd' = fd
    · simp [hfd]
    · simp [hfd, h.threads fd']
  · by_cases hfd : fd' = fd
    · simp [hfd] at hplace'
    · dsimp only at hj hplace' ⊢
      rw [Function.update_of_ne hfd] at hj hplace'
      rw [Network.conn_modify_of_ne (h.sound.ne_of_fd_ne hi hj hfd)]
      exact h.serves fd' j place hj hplace'
  · change ((s.network.modify i .close).conn j).Answered
    by_cases hne : j = i
    · rw [hne, Network.conn_modify_self]
      exact hanswered
    · rw [Network.conn_modify_of_ne hne]
      exact h.answered j fun fd' hfd' => hj fd' ((h.sound.client_close_iff hi).mpr ⟨hfd', hne⟩)
  · change ((s.network.modify i .close).conn j).atEnd = false
    rw [Network.conn_modify_of_ne (h.sound.ne_of_accepted_le hi hj)]
    exact h.fresh j hj

/-- What `recv` receives is sent next, or the connection is closed. -/
theorem Serves.receive {c : Connection} (h : Serves .receiving c) :
    Serves (if (c.receivable 1024).count > 0 then .sending (c.receivable 1024).data else .closing)
      (c.receive 1024) := by
  have hechoed : c.echoed = c.taken := (List.append_nil _).symm.trans h.echoed
  have hcount : (c.receivable 1024).count > 0 ↔ c.pending ≠ [] := by
    rw [gt_iff_lt, ← not_le, Received.count_le_zero_iff,
      Connection.receivable_eq_nil_iff (by decide)]
  simp only [hcount]
  by_cases hnil : c.pending = []
  · rw [if_neg (not_not.mpr hnil)]
    refine ⟨?_, iff_of_true (decide_eq_true hnil) rfl, nofun⟩
    change c.echoed ++ [] = c.taken ++ c.pending.take 1024
    rw [hechoed, hnil, List.take_nil]
  · rw [if_pos hnil]
    refine ⟨?_, iff_of_false ?_ nofun, ?_⟩
    · change c.echoed ++ c.pending.take 1024 = c.taken ++ c.pending.take 1024
      rw [hechoed]
    · exact fun hend => hnil (of_decide_eq_true hend)
    · rintro data ⟨⟩ hdata
      exact hnil ((Connection.receivable_eq_nil_iff (by decide)).mp hdata)

theorem Serves.send {c : Connection} {data : Bytes} (h : Serves (.sending data) c) :
    Serves .receiving (c.send data) := by
  refine ⟨(List.append_nil _).trans h.echoed, ?_, nofun⟩
  exact iff_of_false (fun hend => nomatch h.atEnd.mp hend) nofun

/-- The thread of a descriptor can go on. -/
def CanGo (s : ThreadedServer) (fd : Fd) : Prop :=
  ∃ i place, s.network.client fd = some i ∧ s.threads fd = some place ∧
    (place = .receiving → (s.network.conn i).Readable)

theorem Kept.go (h : Kept listener s) (fd : Fd) :
    s.go listener fd = s ∧ ¬ s.CanGo fd ∨
      Kept listener (s.go listener fd) ∧ (s.go listener fd).network.work < s.network.work := by
  cases hplace : s.threads fd with
  | none =>
    refine .inl ⟨by rw [ThreadedServer.go, hplace], ?_⟩
    rintro ⟨i, place, -, hplace', -⟩
    exact Option.some_ne_none place (hplace'.symm.trans hplace)
  | some place =>
    have hopen : s.network.client fd ≠ none := fun hnone =>
      Option.some_ne_none place (hplace.symm.trans ((h.threads fd).mpr hnone))
    obtain ⟨i, hi⟩ := Option.ne_none_iff_exists'.mp hopen
    have hserves := h.serves fd i place hi hplace
    have hclient := h.sound.client fd i hi
    have hlt := hclient.2.2.1.trans_le h.sound.accepted_le
    cases place with
    | receiving =>
      by_cases hreadable : (s.network.conn i).Readable
      · right
        have hend : (s.network.conn i).atEnd = false :=
          Bool.eq_false_iff.mpr fun hend => nomatch hserves.atEnd.mp hend
        have hle : (s.network.conn i).echoed.length ≤ (s.network.conn i).taken.length :=
          (congrArg List.length ((List.append_nil _).symm.trans hserves.echoed)).le
        simp only [ThreadedServer.go, hplace, ThreadedServer.receive, hi, if_pos hreadable]
        refine ⟨h.modify hi (Connection.proper_receive hreadable hclient.2.2.2 1024) rfl
          hserves.receive, ?_⟩
        refine Network.work_lt_of_conn rfl rfl hlt ?_ fun j hj => Network.conn_modify_of_ne hj _
        rw [Network.conn_modify_self]
        exact Connection.work_receive_lt hend hle (by decide)
      · left
        refine ⟨by simp only [ThreadedServer.go, hplace, ThreadedServer.receive, hi,
          if_neg hreadable], ?_⟩
        rintro ⟨j, place, hj, hplace', hcan⟩
        obtain rfl := Option.some.inj (hi.symm.trans hj)
        obtain rfl := Option.some.inj (hplace.symm.trans hplace')
        exact hreadable (hcan rfl)
    | sending data =>
      right
      simp only [ThreadedServer.go, hplace, Network.call, Network.onClient_of_some hi]
      refine ⟨h.modify hi ((h.sound.proper i).send data) rfl hserves.send, ?_⟩
      refine Network.work_lt_of_conn rfl rfl hlt ?_ fun j hj => Network.conn_modify_of_ne hj _
      rw [Network.conn_modify_self]
      exact Connection.work_send_lt hserves.echoed (hserves.ne_nil data rfl)
    | closing =>
      right
      have hkept := h.close hi hplace
      simp only [ThreadedServer.go, hplace]
      refine ⟨hkept, ?_⟩
      rw [Network.call, Network.onClient_of_some hi]
      refine Network.work_lt_of_conn rfl rfl hlt ?_ fun j hj => Network.conn_modify_of_ne hj _
      change ((s.network.modify i .close).conn i).work < _
      rw [Network.conn_modify_self]
      exact Connection.work_close_lt hclient.2.2.2

theorem Kept.step (h : Kept listener s) (a : ThreadedStep) : Kept listener (s.step listener a) := by
  cases a with
  | event e => exact h.event e
  | accept client_fd => exact h.accept client_fd
  | go fd =>
    rcases h.go fd with ⟨hsame, -⟩ | ⟨hkept, -⟩
    · rw [ThreadedServer.step, hsame]
      exact h
    · exact hkept

/-- The step is one of the server. -/
def OfServer (a : ThreadedStep) : Prop := ∀ e, a ≠ .event e

theorem Kept.work_step (h : Kept listener s) {a : ThreadedStep} (ha : OfServer a)
    (hne : s.step listener a ≠ s) : (s.step listener a).network.work < s.network.work := by
  cases a with
  | event e => exact absurd rfl (ha e)
  | accept client_fd =>
    rw [ThreadedServer.step, ThreadedServer.accept] at hne ⊢
    split_ifs at hne ⊢ with hfree
    · exact Network.work_accept hfree.1 hfree.2
    · exact absurd rfl hne
  | go fd =>
    rcases h.go fd with ⟨hsame, -⟩ | ⟨-, hlt⟩
    · exact absurd hsame hne
    · exact hlt

/-- No thread of the server can go on. -/
def Halted (listener : Fd) (s : ThreadedServer) : Prop :=
  ∀ a, OfServer a → s.step listener a = s

theorem Kept.complete_of_halted (h : Kept listener s) (hhalted : s.Halted listener) :
    s.network.Complete := by
  have hcannot : ∀ fd, ¬ s.CanGo fd := by
    intro fd
    rcases h.go fd with ⟨-, hcannot⟩ | ⟨-, hlt⟩
    · exact hcannot
    · have hsame : s.go listener fd = s := hhalted (.go fd) (by rintro _ ⟨⟩)
      exact absurd (hsame ▸ hlt) (lt_irrefl _)
  have hthread : ∀ fd i, s.network.client fd = some i → ∃ place, s.threads fd = some place :=
    fun fd i hi => Option.ne_none_iff_exists'.mp fun hnone =>
      Option.some_ne_none i (hi.symm.trans ((h.threads fd).mp hnone))
  refine h.sound.complete (fun i => ?_) fun fd hreadable => ?_
  · by_cases hopen : ∃ fd, s.network.client fd = some i
    · obtain ⟨fd, hi⟩ := hopen
      obtain ⟨place, hplace⟩ := hthread fd i hi
      have hreceiving : place = .receiving := by
        by_contra hne
        exact hcannot fd ⟨i, place, hi, hplace, fun heq => absurd heq hne⟩
      subst hreceiving
      exact (List.append_nil _).symm.trans (h.serves fd i _ hi hplace).echoed
    · exact h.answered i fun fd hfd => hopen ⟨fd, hfd⟩
  · by_cases hfd : fd = listener
    · rw [Network.ReadableAt, if_pos hfd] at hreadable
      obtain ⟨client_fd, hfree⟩ := h.sound.exists_free
      have hsame : s.accept listener client_fd = s := hhalted (.accept client_fd) (by rintro _ ⟨⟩)
      have hlt := Network.work_accept hreadable hfree
      rw [ThreadedServer.accept, if_pos ⟨hreadable, hfree⟩] at hsame
      have hnetwork : s.network.accept listener client_fd = s.network :=
        congrArg ThreadedServer.network hsame
      rw [hnetwork] at hlt
      exact lt_irrefl _ hlt
    · rw [Network.ReadableAt, if_neg hfd] at hreadable
      obtain ⟨i, hi, hread⟩ := hreadable
      obtain ⟨place, hplace⟩ := hthread fd i hi
      exact hcannot fd ⟨i, place, hi, hplace, fun _ => hread⟩

/-- In every run with clients that read on, what was sent back to a client is what it has sent, up
to the bytes that its thread has in the buffer and those that were not yet received. The server can
always go on until all is done, and if the clients do nothing more, that is after so many steps. -/
theorem threads_echo (listener : Fd) (steps : List ThreadedStep) :
    let s := steps.foldl (step listener) {}
    (∀ fd i, s.network.client fd = some i → ∃ place, s.threads fd = some place ∧
      (s.network.conn i).echoed ++ place.held ++ (s.network.conn i).pending =
        (s.network.conn i).arrived) ∧
    (∀ i, (s.network.conn i).closed = true → (s.network.conn i).ended = true ∧
      (s.network.conn i).echoed = (s.network.conn i).arrived) ∧
    (s.Halted listener → s.network.Complete) ∧
    (∀ more, AllSteps (step listener) (fun s a => OfServer a ∧ s.step listener a ≠ s) s more →
      more.length ≤ s.network.work) ∧
    ∃ more, AllSteps (step listener) (fun s a => OfServer a ∧ s.step listener a ≠ s) s more ∧
      Halted listener (more.foldl (step listener) s) := by
  intro s
  have h : Kept listener s :=
    foldl_invariant (fun _ a h => h.step a) (kept_start listener) steps
  refine ⟨fun fd i hi => ?_, fun i hclosed => ?_, h.complete_of_halted, fun more hmore => ?_, ?_⟩
  · obtain ⟨place, hplace⟩ := Option.ne_none_iff_exists'.mp fun hnone =>
      Option.some_ne_none i (hi.symm.trans ((h.threads fd).mp hnone))
    exact ⟨place, hplace, congrArg (· ++ _) (h.serves fd i place hi hplace).echoed⟩
  · obtain ⟨hpending, hended⟩ := (h.sound.proper i).atEnd ((h.sound.proper i).closed hclosed)
    have hanswered : (s.network.conn i).Answered := h.answered i fun fd hfd =>
      Bool.false_ne_true ((h.sound.client fd i hfd).2.2.2.symm.trans hclosed)
    rw [Connection.arrived, hpending, List.append_nil]
    exact ⟨hended, hanswered⟩
  · exact length_le_of_allSteps (I := Kept listener) (Φ := fun s => s.network.work)
      (fun s a h _ => h.step a) (fun s a h ha => h.work_step ha.1 ha.2) h hmore
  · exact exists_stuck (I := Kept listener) (Φ := fun s => s.network.work)
      (fun s a h _ => h.step a) (fun s a h ha hne => h.work_step ha hne) h

end ThreadedServer

end BuildYourOwnStuff.SocketProg
