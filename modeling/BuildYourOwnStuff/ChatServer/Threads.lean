import BuildYourOwnStuff.ChatServer.Server

/-!
# Handler threads

Each connection has a thread that runs the handlers of its messages, and the
threads take their steps in any order. A message is sent by two calls of `send`,
first its length and then its body, and the mutex only delays the threads that
lock it. A program that is not interrupted does what `exec` does.

The clients read on until their connection is closed, so each call of `send` is one
step that returns.
-/

namespace BuildYourOwnStuff.ChatServer

open Foundations

/-- A thread in `handleClient`. -/
structure Thread where
  socket : Socket
  /-- A message whose length was sent and whose body was not. -/
  sending : Option (Socket × Bytes)
  program : Program
  /-- `handleClient` returns after the program. -/
  leaving : Bool

/-- The state of the server with threads `ι`. The last five fields record what has
happened and are not read: the bytes and the whole messages appended to the stream
of each connection, the logins made since their sockets were accepted, the last one
first, the name that each thread has last indexed the map with, and the direct
messages appended to the stream of each connection, each with that name. -/
structure State (ι : Type) where
  directory : Directory
  client_mutex : Option ι
  /-- A socket that `main` has accepted and not yet put into `clients`. -/
  accepted : Option Socket
  threads : ι → Option Thread
  stream : Socket → Bytes
  messages : Socket → List Bytes
  logins : List (Bytes × Socket)
  receiver : ι → Option Bytes
  texts : Socket → List (Option Bytes × Bytes)

inductive Action (ι : Type)
  | accept (socket : Socket)
  | start (i : ι)
  | receive (i : ι) (message : Bytes)
  | disconnect (i : ι)
  | step (i : ι)

def Program.isDone : Program → Bool
  | done => true
  | _ => false

/-- The thread waits for a message. -/
def Thread.isIdle (t : Thread) : Bool := t.sending.isNone && t.program.isDone && !t.leaving

/-- The thread gets the program that its next message, or the end of its connection, calls for. -/
inductive Thread.Begins (t : Thread) : Thread → Prop
  | message (message : Bytes) : Thread.Begins t
    { t with program := handleMessage t.socket message, leaving := IsLogout message }
  | ends : Thread.Begins t { t with program := handleLogoutClient t.socket, leaving := true }

theorem Thread.isIdle_iff {t : Thread} :
    t.isIdle = true ↔ t.sending = none ∧ t.program = .done ∧ t.leaving = false := by
  have hdone : t.program.isDone = true ↔ t.program = .done := by
    cases t.program <;> simp [Program.isDone]
  simp only [isIdle, Bool.and_eq_true, Option.isNone_iff_eq_none, hdone, Bool.not_eq_true',
    and_assoc]

theorem Thread.Begins.sending {t t' : Thread} (h : t.Begins t') : t'.sending = t.sending := by
  cases h <;> rfl

theorem Thread.Begins.socket {t t' : Thread} (h : t.Begins t') : t'.socket = t.socket := by
  cases h <;> rfl

namespace State

variable {ι : Type} [DecidableEq ι]

def init : State ι :=
  ⟨⟨[], ∅, ∅⟩, none, none, fun _ => none, fun _ => [], fun _ => [], [], fun _ => none, fun _ => []⟩

def setThread (s : State ι) (i : ι) (t : Thread) : State ι :=
  { s with threads := Function.update s.threads i (some t) }

/-- `send`; on a socket that is closed it does nothing. -/
def send (s : State ι) (client : Socket) (bytes : Bytes) : State ι :=
  if client ∈ s.directory.opened then
    { s with stream := Function.update s.stream client (s.stream client ++ bytes) }
  else s

/-- The second `send` of a message. -/
def sendBody (s : State ι) (i : ι) (t : Thread) (client : Socket) (message : Bytes) : State ι :=
  let s' := s.send client message
  { s' with
    messages :=
      if client ∈ s.directory.opened then
        Function.update s.messages client (s.messages client ++ [message])
      else s.messages
    texts :=
      if client ∈ s.directory.opened ∧ directLabel <+: message then
        Function.update s.texts client (s.texts client ++ [(s.receiver i, message)])
      else s.texts }.setThread i { t with sending := none }

/-- The next operation of a thread that is not sending; a mutex that is held delays it. -/
def perform (s : State ι) (i : ι) (t : Thread) : State ι :=
  match t.program with
  | .done => s
  | .lock next =>
    if s.client_mutex.isNone then
      { s with client_mutex := some i }.setThread i { t with program := next }
    else s
  | .unlock next => { s with client_mutex := none }.setThread i { t with program := next }
  | .sendMessage client message next =>
    (s.send client (frameHeader message)).setThread i
      { t with sending := some (client, message), program := next }
  | .clients next => s.setThread i { t with program := next s.directory.clients }
  | .usernames next => s.setThread i { t with program := next s.directory.usernames }
  | .find username next =>
    s.setThread i { t with program := next (username ∈ s.directory.client_mapp) }
  | .index username next =>
    let (directory, socket) := s.directory.index username
    { s with
      directory := directory
      receiver := Function.update s.receiver i (some username) }.setThread i
      { t with program := next socket }
  | .assign username socket next =>
    { s with
      directory := s.directory.assign username socket
      logins := (username, socket) :: s.logins }.setThread i { t with program := next }
  | .remove socket next =>
    { s with directory := s.directory.remove socket }.setThread i { t with program := next }
  | .close socket next =>
    { s with directory := s.directory.close socket }.setThread i { t with program := next }

def stepThread (s : State ι) (i : ι) (t : Thread) : State ι :=
  match t.sending with
  | some (client, message) => s.sendBody i t client message
  | none => s.perform i t

/-- `accept` has returned a socket; what was recorded of an earlier connection under its number
is forgotten. -/
def accept (s : State ι) (socket : Socket) : State ι :=
  { s with
    directory := s.directory.accept socket
    accepted := some socket
    stream := Function.update s.stream socket []
    messages := Function.update s.messages socket []
    logins := s.logins.filter fun login => login.2 ≠ socket
    texts := Function.update s.texts socket [] }

/-- `accept` returns a socket that is not open, and `main` then puts it into `clients`
under the mutex and starts a thread. What is not enabled does nothing. -/
def step (s : State ι) : Action ι → State ι
  | .accept socket =>
    if s.accepted.isNone ∧ socket ∉ s.directory.opened then s.accept socket else s
  | .start i =>
    match s.accepted, s.threads i, s.client_mutex with
    | some socket, none, none =>
      { s with directory := s.directory.register socket, accepted := none }.setThread i
        ⟨socket, none, .done, false⟩
    | _, _, _ => s
  | .receive i message =>
    match s.threads i with
    | some t =>
      if t.isIdle then
        s.setThread i
          { t with program := handleMessage t.socket message, leaving := IsLogout message }
      else s
    | none => s
  | .disconnect i =>
    match s.threads i with
    | some t =>
      if t.isIdle then
        s.setThread i { t with program := handleLogoutClient t.socket, leaving := true }
      else s
    | none => s
  | .step i =>
    match s.threads i with
    | some t => s.stepThread i t
    | none => s

/-- The message that a thread is in the middle of sending. -/
def sending (s : State ι) (i : ι) : Option (Socket × Bytes) := (s.threads i).bind Thread.sending

/-- Some thread has sent a length to the socket and not yet the body. -/
def MidFrame (s : State ι) (client : Socket) : Prop := ∃ i m, s.sending i = some (client, m)

theorem sending_setThread (s : State ι) (i j : ι) (t : Thread) :
    (s.setThread i t).sending j = if j = i then t.sending else s.sending j := by
  by_cases h : j = i
  · subst h
    simp [setThread, sending]
  · simp [setThread, sending, h]

@[simp] theorem setThread_self (s : State ι) (i : ι) (t : Thread) :
    (s.setThread i t).threads i = some t := by
  simp [setThread]

omit [DecidableEq ι] in
theorem sending_of_thread {s : State ι} {i : ι} {t : Thread} (hi : s.threads i = some t) :
    s.sending i = t.sending := by
  rw [sending, hi]
  rfl

omit [DecidableEq ι] in
@[simp] theorem directory_send (s : State ι) (client : Socket) (bytes : Bytes) :
    (s.send client bytes).directory = s.directory := by
  unfold send
  split_ifs <;> rfl

omit [DecidableEq ι] in
@[simp] theorem client_mutex_send (s : State ι) (client : Socket) (bytes : Bytes) :
    (s.send client bytes).client_mutex = s.client_mutex := by
  unfold send
  split_ifs <;> rfl

omit [DecidableEq ι] in
@[simp] theorem accepted_send (s : State ι) (client : Socket) (bytes : Bytes) :
    (s.send client bytes).accepted = s.accepted := by
  unfold send
  split_ifs <;> rfl

omit [DecidableEq ι] in
@[simp] theorem threads_send (s : State ι) (client : Socket) (bytes : Bytes) :
    (s.send client bytes).threads = s.threads := by
  unfold send
  split_ifs <;> rfl

omit [DecidableEq ι] in
@[simp] theorem messages_send (s : State ι) (client : Socket) (bytes : Bytes) :
    (s.send client bytes).messages = s.messages := by
  unfold send
  split_ifs <;> rfl

omit [DecidableEq ι] in
@[simp] theorem logins_send (s : State ι) (client : Socket) (bytes : Bytes) :
    (s.send client bytes).logins = s.logins := by
  unfold send
  split_ifs <;> rfl

omit [DecidableEq ι] in
@[simp] theorem receiver_send (s : State ι) (client : Socket) (bytes : Bytes) :
    (s.send client bytes).receiver = s.receiver := by
  unfold send
  split_ifs <;> rfl

omit [DecidableEq ι] in
@[simp] theorem texts_send (s : State ι) (client : Socket) (bytes : Bytes) :
    (s.send client bytes).texts = s.texts := by
  unfold send
  split_ifs <;> rfl

/-- The messages that are whole after the body of one is sent. -/
theorem messages_sendBody (s : State ι) (i : ι) (t : Thread) (client c : Socket)
    (message : Bytes) : (s.sendBody i t client message).messages c =
      s.messages c ++ if client ∈ s.directory.opened ∧ client = c then [message] else [] := by
  change (if _ then _ else s.messages : Socket → List Bytes) c = _
  by_cases hopen : client ∈ s.directory.opened
  · by_cases hc : client = c
    · subst hc
      simp [hopen]
    · simp [hopen, hc, Ne.symm hc]
  · simp [hopen]

theorem sending_sendBody (s : State ι) (i j : ι) (t : Thread) (client : Socket) (message : Bytes) :
    (s.sendBody i t client message).sending j = if j = i then none else s.sending j := by
  rw [sendBody, sending_setThread]
  by_cases hj : j = i
  · rw [if_pos hj, if_pos hj]
  · rw [if_neg hj, if_neg hj]
    exact congrArg (fun threads => (threads j).bind Thread.sending) (threads_send s client message)

omit [DecidableEq ι] in
theorem stream_send (s : State ι) (client c : Socket) (bytes : Bytes) :
    (s.send client bytes).stream c =
      s.stream c ++ if client ∈ s.directory.opened ∧ client = c then bytes else [] := by
  unfold send
  by_cases hopen : client ∈ s.directory.opened
  · by_cases hc : client = c
    · subst hc
      simp [hopen]
    · simp [hopen, hc, Ne.symm hc]
  · simp [hopen]

omit [DecidableEq ι] in
/-- What is sent to one client is not in the streams to the others. -/
theorem stream_send_of_ne {client c : Socket} (h : client ≠ c) (s : State ι) (bytes : Bytes) :
    (s.send client bytes).stream c = s.stream c := by
  rw [stream_send, if_neg fun heq => h heq.2, List.append_nil]

omit [DecidableEq ι] in
theorem stream_send_self {client : Socket} {s : State ι} (h : client ∈ s.directory.opened)
    (bytes : Bytes) : (s.send client bytes).stream client = s.stream client ++ bytes := by
  rw [stream_send, if_pos ⟨h, rfl⟩]

theorem messages_sendBody_of_ne {client c : Socket} (h : client ≠ c) (s : State ι) (i : ι)
    (t : Thread) (message : Bytes) : (s.sendBody i t client message).messages c = s.messages c := by
  rw [messages_sendBody, if_neg fun heq => h heq.2, List.append_nil]

end State

namespace Program

/-- The mutex is locked only when the thread does not hold it, unlocked only when it
does, and not held at the end. -/
def Balanced (held : Bool) : Program → Prop
  | done => held = false
  | lock next => held = false ∧ next.Balanced true
  | unlock next => held = true ∧ next.Balanced false
  | sendMessage _ _ next => next.Balanced held
  | clients next => ∀ cs, (next cs).Balanced held
  | usernames next => ∀ names, (next names).Balanced held
  | find _ next => ∀ found, (next found).Balanced held
  | index _ next => ∀ socket, (next socket).Balanced held
  | assign _ _ next => next.Balanced held
  | remove _ next => next.Balanced held
  | close _ next => next.Balanced held

theorem balanced_sendToOthers {held : Bool} {next : Program} (h : next.Balanced held) (text : Bytes)
    (sender : Socket) (cs : List Socket) : (sendToOthers text sender cs next).Balanced held := by
  induction cs with
  | nil => exact h
  | cons client cs ih =>
    rw [sendToOthers]
    split_ifs
    · exact ih
    · exact ih

theorem balanced_handleLogoutClient (s : Socket) : (handleLogoutClient s).Balanced false :=
  ⟨rfl, rfl, rfl⟩

theorem balanced_handleMessage (s : Socket) (message : Bytes) :
    (handleMessage s message).Balanced false := by
  unfold handleMessage
  rcases parseMessage message with ⟨event, data⟩
  cases event with
  | login => rfl
  | logout => exact balanced_handleLogoutClient s
  | onlineUsers => exact ⟨rfl, fun names => ⟨rfl, rfl⟩⟩
  | invalid => rfl
  | broadcast =>
    refine ⟨rfl, fun cs => ?_⟩
    apply balanced_sendToOthers
    exact ⟨rfl, rfl⟩
  | direct =>
    simp only [handleEvent, handleDirectMessage]
    rcases cut colon data with _ | ⟨username, text⟩
    · rfl
    · intro found
      cases found with
      | false => rfl
      | true => exact fun receiver => rfl

end Program

/-- The bytes that calls of `sendMessageToClient` append to a stream. -/
def bytesTo (c : Socket) (sent : List Sent) : Bytes :=
  (sent.filter fun x => x.isOpen && x.client == c).flatMap fun x => frame x.message

theorem bytesTo_cons (c client : Socket) (message : Bytes) (isOpen : Bool) (sent : List Sent) :
    bytesTo c (⟨client, message, isOpen⟩ :: sent) =
      (if isOpen = true ∧ client = c then frame message else []) ++ bytesTo c sent := by
  by_cases h : isOpen = true ∧ client = c
  · simp [bytesTo, h]
  · rw [bytesTo, List.filter_cons_of_neg (by simpa using h), if_neg h]
    rfl

namespace State

variable {ι : Type} [DecidableEq ι]

/-- The thread has finished its program with the results of `exec`. -/
structure Finished (s s' : State ι) (i : ι) (t : Thread) : Prop where
  thread : s'.threads i = some { t with program := .done }
  client_mutex : s'.client_mutex = none
  directory : s'.directory = (t.program.exec s.directory).1
  stream : ∀ c, s'.stream c = s.stream c ++ bytesTo c (t.program.exec s.directory).2

theorem step_of_thread {s : State ι} {i : ι} {t : Thread} (hi : s.threads i = some t)
    (hsending : t.sending = none) : s.step (.step i) = s.perform i t := by
  simp only [step, hi, stepThread, hsending]

theorem step_of_sending {s : State ι} {i : ι} {t : Thread} {client : Socket} {message : Bytes}
    (hi : s.threads i = some t) (hsending : t.sending = some (client, message)) :
    s.step (.step i) = s.sendBody i t client message := by
  simp only [step, hi, stepThread, hsending]

/-- What an action can do. -/
inductive Effect (s : State ι) : Action ι → State ι → Prop
  | none (a : Action ι) : Effect s a s
  | accept (socket : Socket) (hclosed : socket ∉ s.directory.opened) :
    Effect s (.accept socket) (s.accept socket)
  | start {i : ι} {socket : Socket} (hi : s.threads i = .none)
    (haccepted : s.accepted = some socket) :
    Effect s (.start i)
      ({ s with directory := s.directory.register socket, accepted := .none }.setThread i
        ⟨socket, .none, .done, false⟩)
  | begins (a : Action ι) {i : ι} {t t' : Thread} (hi : s.threads i = some t)
    (hidle : t.isIdle = true) (h : t.Begins t') : Effect s a (s.setThread i t')
  | perform {i : ι} {t : Thread} (hi : s.threads i = some t) (ht : t.sending = .none) :
    Effect s (.step i) (s.perform i t)
  | sendBody {i : ι} {t : Thread} {client : Socket} {message : Bytes} (hi : s.threads i = some t)
    (ht : t.sending = some (client, message)) :
    Effect s (.step i) (s.sendBody i t client message)

theorem effect_step (s : State ι) (a : Action ι) : s.Effect a (s.step a) := by
  cases a with
  | accept socket =>
    simp only [step]
    split_ifs with henabled
    · exact .accept socket henabled.2
    · exact .none _
  | start i =>
    simp only [step]
    split
    · rename_i haccepted hi _
      exact .start hi haccepted
    · exact .none _
  | receive i message =>
    cases hi : s.threads i with
    | none => simpa only [step, hi] using .none _
    | some t =>
      simp only [step, hi]
      split_ifs with hidle
      · exact .begins _ hi hidle (.message message)
      · exact .none _
  | disconnect i =>
    cases hi : s.threads i with
    | none => simpa only [step, hi] using .none _
    | some t =>
      simp only [step, hi]
      split_ifs with hidle
      · exact .begins _ hi hidle .ends
      · exact .none _
  | step i =>
    cases hi : s.threads i with
    | none => simpa only [step, hi] using .none _
    | some t =>
      cases ht : t.sending with
      | none =>
        rw [step_of_thread hi ht]
        exact .perform hi ht
      | some message =>
        rw [step_of_sending hi ht]
        exact .sendBody hi ht

/-- One step that sends nothing, with the rest of the program from there. -/
theorem finished_of_step {s r : State ι} {i : ι} {t : Thread} {next : Program}
    (hstep : s.step (.step i) = r.setThread i { t with program := next })
    (hstream : r.stream = s.stream)
    (hexec : next.exec r.directory = t.program.exec s.directory)
    (h : ∃ n, Finished (r.setThread i { t with program := next })
      ((List.replicate n (.step i)).foldl step (r.setThread i { t with program := next })) i
      { t with program := next }) :
    ∃ n, Finished s ((List.replicate n (.step i)).foldl step s) i t := by
  obtain ⟨n, h⟩ := h
  refine ⟨n + 1, ?_⟩
  rw [List.replicate_succ, List.foldl_cons, hstep]
  refine ⟨h.thread, h.client_mutex, ?_, fun c => ?_⟩
  · rw [h.directory, ← hexec]
    rfl
  · rw [h.stream, ← hexec, ← hstream]
    rfl

/-- The thread has sent a message to a socket and goes on with the program `next`. -/
structure SentTo (s s' : State ι) (i : ι) (t : Thread) (client : Socket) (message : Bytes)
    (next : Program) : Prop where
  thread : s'.threads i = some { t with sending := none, program := next }
  client_mutex : s'.client_mutex = s.client_mutex
  directory : s'.directory = s.directory
  stream : ∀ c, s'.stream c =
    s.stream c ++ if client ∈ s.directory.opened ∧ client = c then frame message else []

/-- Two steps without interruption send a message. -/
theorem sent_of_two_steps {s : State ι} {i : ι} {t : Thread} {client : Socket} {message : Bytes}
    {next : Program} (hi : s.threads i = some t) (hsending : t.sending = none)
    (hprogram : t.program = .sendMessage client message next) :
    SentTo s ((s.step (.step i)).step (.step i)) i t client message next := by
  have hlength : s.step (.step i) = (s.send client (frameHeader message)).setThread i
      { t with sending := some (client, message), program := next } := by
    simp [step_of_thread hi hsending, perform, hprogram]
  have hbody : (s.step (.step i)).step (.step i) = (s.step (.step i)).sendBody i
      { t with sending := some (client, message), program := next } client message := by
    refine step_of_sending ?_ rfl
    rw [hlength]
    exact setThread_self _ i _
  rw [hbody, hlength]
  refine ⟨setThread_self _ i _, ?_, ?_, fun c => ?_⟩
  · simp [sendBody, setThread]
  · simp [sendBody, setThread]
  · simp only [sendBody, setThread, stream_send, directory_send, List.append_assoc, frame]
    split_ifs <;> rfl

/-- If only one thread takes steps, it runs its program as `exec` does. -/
theorem finished_of_uninterrupted {p : Program} {held : Bool} (hp : p.Balanced held)
    {s : State ι} {i : ι} {t : Thread} (hi : s.threads i = some t) (hsending : t.sending = none)
    (hprogram : t.program = p) (hmutex : s.client_mutex = if held then some i else none) :
    ∃ n, Finished s ((List.replicate n (.step i)).foldl step s) i t := by
  induction p generalizing held s t with
  | done =>
    rw [Program.Balanced] at hp
    subst hp
    refine ⟨0, ?_, hmutex, ?_, fun c => ?_⟩
    · rw [← hprogram]
      exact hi
    · rw [hprogram]
      rfl
    · rw [hprogram]
      exact (List.append_nil _).symm
  | lock next ih =>
    obtain ⟨rfl, hp⟩ := hp
    have hstep : s.step (.step i) =
        { s with client_mutex := some i }.setThread i { t with program := next } := by
      simp [step_of_thread hi hsending, perform, hprogram, hmutex]
    refine finished_of_step hstep rfl (by rw [hprogram]; rfl) ?_
    exact ih hp (setThread_self _ i _) hsending rfl rfl
  | unlock next ih =>
    obtain ⟨rfl, hp⟩ := hp
    have hstep : s.step (.step i) =
        { s with client_mutex := none }.setThread i { t with program := next } := by
      simp [step_of_thread hi hsending, perform, hprogram]
    refine finished_of_step hstep rfl (by rw [hprogram]; rfl) ?_
    exact ih hp (setThread_self _ i _) hsending rfl rfl
  | sendMessage client message next ih =>
    have hsent := sent_of_two_steps hi hsending hprogram
    obtain ⟨n, h⟩ := ih hp hsent.thread rfl rfl (hsent.client_mutex.trans hmutex)
    refine ⟨n + 2, ?_⟩
    rw [List.replicate_succ, List.replicate_succ, List.foldl_cons, List.foldl_cons]
    refine ⟨?_, h.client_mutex, ?_, fun c => ?_⟩
    · rw [h.thread, hsending]
    · rw [h.directory, hsent.directory, hprogram]
      rfl
    · rw [h.stream, hsent.stream, hsent.directory, hprogram]
      change _ = _ ++ bytesTo c (⟨client, message, _⟩ :: _)
      rw [bytesTo_cons, List.append_assoc]
      simp
  | clients next ih =>
    have hstep : s.step (.step i) =
        s.setThread i { t with program := next s.directory.clients } := by
      simp [step_of_thread hi hsending, perform, hprogram]
    refine finished_of_step hstep rfl (by rw [hprogram]; rfl) ?_
    exact ih _ (hp _) (setThread_self _ i _) hsending rfl hmutex
  | usernames next ih =>
    have hstep : s.step (.step i) =
        s.setThread i { t with program := next s.directory.usernames } := by
      simp [step_of_thread hi hsending, perform, hprogram]
    refine finished_of_step hstep rfl (by rw [hprogram]; rfl) ?_
    exact ih _ (hp _) (setThread_self _ i _) hsending rfl hmutex
  | find username next ih =>
    have hstep : s.step (.step i) =
        s.setThread i { t with program := next (username ∈ s.directory.client_mapp) } := by
      simp [step_of_thread hi hsending, perform, hprogram]
    refine finished_of_step hstep rfl (by rw [hprogram]; rfl) ?_
    exact ih _ (hp _) (setThread_self _ i _) hsending rfl hmutex
  | index username next ih =>
    have hstep : s.step (.step i) =
        { s with
          directory := (s.directory.index username).1
          receiver := Function.update s.receiver i (some username) }.setThread i
          { t with program := next (s.directory.index username).2 } := by
      simp [step_of_thread hi hsending, perform, hprogram]
    refine finished_of_step hstep rfl (by rw [hprogram]; rfl) ?_
    exact ih _ (hp _) (setThread_self _ i _) hsending rfl hmutex
  | assign username socket next ih =>
    have hstep : s.step (.step i) =
        { s with
          directory := s.directory.assign username socket
          logins := (username, socket) :: s.logins }.setThread i { t with program := next } := by
      simp [step_of_thread hi hsending, perform, hprogram]
    refine finished_of_step hstep rfl (by rw [hprogram]; rfl) ?_
    exact ih hp (setThread_self _ i _) hsending rfl hmutex
  | remove socket next ih =>
    have hstep : s.step (.step i) =
        { s with directory := s.directory.remove socket }.setThread i
          { t with program := next } := by
      simp [step_of_thread hi hsending, perform, hprogram]
    refine finished_of_step hstep rfl (by rw [hprogram]; rfl) ?_
    exact ih hp (setThread_self _ i _) hsending rfl hmutex
  | close socket next ih =>
    have hstep : s.step (.step i) =
        { s with directory := s.directory.close socket }.setThread i
          { t with program := next } := by
      simp [step_of_thread hi hsending, perform, hprogram]
    refine finished_of_step hstep rfl (by rw [hprogram]; rfl) ?_
    exact ih hp (setThread_self _ i _) hsending rfl hmutex

/-- A message that is handled without interruption changes the directory and sends
messages as the handler does. -/
theorem receive_uninterrupted {s : State ι} {i : ι} {t : Thread} (hi : s.threads i = some t)
    (hidle : t.isIdle = true) (hmutex : s.client_mutex = none) (message : Bytes) :
    ∃ n, let s' := (.receive i message :: List.replicate n (.step i)).foldl step s
      s'.client_mutex = none ∧
        s'.directory = ((handleMessage t.socket message).exec s.directory).1 ∧
        ∀ c, s'.stream c =
          s.stream c ++ bytesTo c ((handleMessage t.socket message).exec s.directory).2 := by
  have hsending : t.sending = none := by
    simp only [Thread.isIdle, Bool.and_eq_true, Option.isNone_iff_eq_none] at hidle
    exact hidle.1.1
  have hreceive : s.step (.receive i message) = s.setThread i
      { t with program := handleMessage t.socket message, leaving := IsLogout message } := by
    simp only [step, hi, hidle, if_true]
  obtain ⟨n, h⟩ := finished_of_uninterrupted (Program.balanced_handleMessage t.socket message)
    (setThread_self s i
      { t with program := handleMessage t.socket message, leaving := IsLogout message })
    hsending rfl hmutex
  refine ⟨n, ?_⟩
  rw [List.foldl_cons, hreceive]
  exact ⟨h.client_mutex, h.directory, h.stream⟩

end State

end BuildYourOwnStuff.ChatServer
