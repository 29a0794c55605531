import BuildYourOwnStuff.ChatServer.Directory
import BuildYourOwnStuff.ChatServer.Threads
import BuildYourOwnStuff.Foundations.Runs

/-!
# Receivers of direct messages

A direct message looks its receiver up and then indexes the map, without the
mutex, and sends its text to the socket that it found. Every entry of the map stems
from a login, and every text goes to a connection that its receiver logged in on, as
long as the receiver does not leave between the two lookups and its socket is not
accepted again before the text is sent.
-/

namespace BuildYourOwnStuff.ChatServer

open Foundations GoStd

namespace Program

/-- A handler of the connection on `c` that does not leave. It logs in on no other socket, and
sends the text of a direct message to the socket that it has just found in the map. -/
def Serving (c : Socket) : Option Socket → Program → Prop
  | _, done => True
  | _, lock next => next.Serving c none
  | _, unlock next => next.Serving c none
  | found, sendMessage client message next =>
    (directLabel <+: message → found = some client) ∧ next.Serving c none
  | _, clients next => ∀ cs, (next cs).Serving c none
  | _, usernames next => ∀ names, (next names).Serving c none
  | _, find _ next => ∀ isThere, (next isThere).Serving c none
  | _, index _ next => ∀ socket, (next socket).Serving c (some socket)
  | _, assign _ socket next => socket = c ∧ next.Serving c none
  | _, remove _ _ => False
  | _, close _ _ => False

/-- What a handler that leaves does after it has removed the entries for its socket. -/
def Closing (c : Socket) : Program → Prop
  | unlock next => next.Closing c
  | sendMessage _ message next => ¬ directLabel <+: message ∧ next.Closing c
  | close socket next => socket = c ∧ next = done
  | _ => False

/-- What it does before. -/
def Leaves (c : Socket) : Program → Prop
  | lock next => next.Leaves c
  | remove socket next => socket = c ∧ next.Closing c
  | _ => False

theorem not_labelled_cons {b : UInt8} (hb : b ≠ 0x44) (text : Bytes) :
    ¬ directLabel <+: b :: text := by
  intro h
  exact hb (List.cons_prefix_cons.mp h).1.symm

theorem serving_sendMessage {c client : Socket} {message : Bytes} {next : Program}
    (hmessage : ¬ directLabel <+: message) (hnext : next.Serving c none) :
    (sendMessage client message next).Serving c none :=
  ⟨fun hlabel => absurd hlabel hmessage, hnext⟩

theorem serving_sendToOthers {c : Socket} {text : Bytes} {next : Program}
    (htext : ¬ directLabel <+: text) (hnext : next.Serving c none) (sender : Socket)
    (cs : List Socket) : (sendToOthers text sender cs next).Serving c none := by
  induction cs with
  | nil => exact hnext
  | cons client cs ih =>
    rw [sendToOthers]
    split_ifs
    · exact serving_sendMessage htext ih
    · exact ih

theorem serving_handleMessage {c : Socket} {message : Bytes} (h : ¬ IsLogout message) :
    (handleMessage c message).Serving c none := by
  have hanswer : ∀ (b : UInt8) (text : Bytes) (client : Socket) (next : Program), b ≠ 0x44 →
      next.Serving c none → (sendMessage client (b :: text) next).Serving c none :=
    fun _ _ _ _ hb hnext => serving_sendMessage (not_labelled_cons hb _) hnext
  unfold handleMessage
  unfold IsLogout at h
  rcases hparsed : parseMessage message with ⟨event, data⟩
  rw [hparsed] at h
  cases event with
  | login => exact ⟨rfl, hanswer _ _ _ _ (by decide) trivial⟩
  | logout => exact absurd rfl h
  | onlineUsers => exact fun names => hanswer _ _ _ _ (by decide) trivial
  | invalid => exact hanswer _ _ _ _ (by decide) trivial
  | broadcast =>
    intro cs
    apply serving_sendToOthers (not_labelled_cons (by decide) _)
    exact hanswer _ _ _ _ (by decide) trivial
  | direct =>
    simp only [handleEvent, handleDirectMessage]
    rcases cut colon data with _ | ⟨username, text⟩
    · exact hanswer _ _ _ _ (by decide) trivial
    · intro isThere
      cases isThere with
      | false => exact hanswer _ _ _ _ (by decide) trivial
      | true => exact fun receiver => ⟨fun _ => rfl, serving_sendMessage (by decide) trivial⟩

/-- The program does not begin with the text of a direct message. -/
def Unlabelled (p : Program) : Prop :=
  ∀ client message next, p = sendMessage client message next → ¬ directLabel <+: message

theorem unlabelled_done : Unlabelled done := nofun

theorem Serving.unlabelled {c : Socket} {p : Program} (h : p.Serving c none) : p.Unlabelled := by
  rintro client message next rfl hlabel
  cases h.1 hlabel

theorem Leaves.unlabelled {c : Socket} {p : Program} (h : p.Leaves c) : p.Unlabelled := by
  rintro client message next rfl
  exact h.elim

theorem Closing.unlabelled {c : Socket} {p : Program} (h : p.Closing c) : p.Unlabelled := by
  rintro client message next rfl
  exact h.1

theorem handleMessage_of_isLogout {c : Socket} {message : Bytes} (h : IsLogout message) :
    handleMessage c message = handleLogoutClient c := by
  unfold IsLogout at h
  rcases hparsed : parseMessage message with ⟨event, data⟩
  rw [hparsed] at h
  obtain rfl : event = .logout := h
  rw [handleMessage, hparsed, handleEvent]

theorem leaves_handleLogoutClient (c : Socket) : (handleLogoutClient c).Leaves c :=
  ⟨rfl, not_labelled_cons (by decide) _, rfl, rfl⟩

end Program

namespace Thread

/-- The entries for the socket of the thread may be in the map. -/
def InMap (t : Thread) : Prop := t.leaving = false ∨ t.program.Leaves t.socket

/-- The thread has closed its socket. -/
def Gone (t : Thread) : Prop := t.leaving = true ∧ t.program = .done

/-- The stages of a connection. -/
def InStage (t : Thread) : Prop :=
  t.leaving = false ∧ (∃ found, t.program.Serving t.socket found) ∨
    t.leaving = true ∧ (t.program.Leaves t.socket ∨ t.program.Closing t.socket ∨ t.program = .done)

/-- The thread is to send the message to a socket, or its body. -/
def Due (t : Thread) (client : Socket) (message : Bytes) : Prop :=
  t.sending = some (client, message) ∨ ∃ next, t.program = .sendMessage client message next

theorem InMap.not_gone {t : Thread} (h : t.InMap) : ¬ t.Gone := by
  rintro ⟨hleaving, hdone⟩
  rcases h with h | h
  · rw [hleaving] at h
    cases h
  · rw [hdone] at h
    exact h

/-- A thread that is sending nothing is to send what its program begins with. -/
theorem Due.not_labelled {t : Thread} {client : Socket} {message : Bytes}
    (h : t.Due client message) (ht : t.sending = none) (hp : t.program.Unlabelled) :
    ¬ directLabel <+: message := by
  rcases h with hsome | ⟨next, hnext⟩
  · rw [ht] at hsome
    cases hsome
  · exact hp client message next hnext

theorem Begins.inStage {t t' : Thread} (h : t.Begins t') : t'.InStage ∧ t'.InMap := by
  cases h with
  | message message =>
    by_cases hlogout : IsLogout message
    · have hleaves : (handleMessage t.socket message).Leaves t.socket := by
        rw [Program.handleMessage_of_isLogout hlogout]
        exact Program.leaves_handleLogoutClient t.socket
      exact ⟨.inr ⟨decide_eq_true hlogout, .inl hleaves⟩, .inr hleaves⟩
    · have hserving := decide_eq_false hlogout
      exact ⟨.inl ⟨hserving, none, Program.serving_handleMessage hlogout⟩, .inl hserving⟩
  | ends =>
    have hleaves := Program.leaves_handleLogoutClient t.socket
    exact ⟨.inr ⟨rfl, .inl hleaves⟩, .inr hleaves⟩

theorem Begins.unlabelled {t t' : Thread} (h : t.Begins t') : t'.program.Unlabelled := by
  cases h with
  | message message =>
    by_cases hlogout : IsLogout message
    · change (handleMessage t.socket message).Unlabelled
      rw [Program.handleMessage_of_isLogout hlogout]
      exact (Program.leaves_handleLogoutClient t.socket).unlabelled
    · exact (Program.serving_handleMessage hlogout).unlabelled
  | ends => exact (Program.leaves_handleLogoutClient t.socket).unlabelled

/-- A thread goes on with another program. -/
theorem InStage.next {t t' : Thread} {p p' : Program} (h : t.InStage) (hp : t.program = p)
    (hp' : t'.program = p') (hsocket : t'.socket = t.socket) (hleaving : t'.leaving = t.leaving)
    (hdone : p ≠ .done)
    (hserving : ∀ c found, p.Serving c found → ∃ found', p'.Serving c found')
    (hleaves : ∀ c, p.Leaves c → p'.Leaves c)
    (hclosing : ∀ c, p.Closing c → p'.Closing c ∨ p' = .done) :
    t'.InStage ∧ (t.InMap → t'.InMap) := by
  subst hp hp'
  rw [InStage, InMap, InMap, hsocket, hleaving]
  constructor
  · rcases h with ⟨hfalse, found, hprogram⟩ | ⟨htrue, hprogram | hprogram | hprogram⟩
    · exact .inl ⟨hfalse, hserving _ found hprogram⟩
    · exact .inr ⟨htrue, .inl (hleaves _ hprogram)⟩
    · exact .inr ⟨htrue, .inr (hclosing _ hprogram)⟩
    · exact absurd hprogram hdone
  · exact Or.imp_right (hleaves _)

/-- What a thread goes on with does not begin with the text of a direct message, unless it has
just indexed the map. -/
theorem InStage.unlabelled_next {t : Thread} {p p' : Program} (h : t.InStage)
    (hp : t.program = p) (hdone : p ≠ .done)
    (hserving : ∀ c found, p.Serving c found → p'.Serving c none)
    (hleaves : ∀ c, p.Leaves c → p'.Unlabelled)
    (hclosing : ∀ c, p.Closing c → p'.Unlabelled) : p'.Unlabelled := by
  subst hp
  rcases h with ⟨-, found, hprogram⟩ | ⟨-, hprogram | hprogram | hprogram⟩
  · exact (hserving _ found hprogram).unlabelled
  · exact hleaves _ hprogram
  · exact hclosing _ hprogram
  · exact absurd hprogram hdone

end Thread

namespace State

variable {ι : Type} [DecidableEq ι]

/-- The last login under a name. -/
def lastLogin (s : State ι) (u : Bytes) : Option (Bytes × Socket) :=
  s.logins.find? fun login => login.1 = u

/-- A username is mapped to the socket of its last login, and the text of a direct message has
gone only to connections on which its receiver had logged in. -/
def NoGhosts (s : State ι) : Prop :=
  (∀ u socket, s.directory.client_mapp.lookup u = some socket →
    s.lastLogin u = some (u, socket)) ∧
  ∀ client, ∀ text ∈ s.texts client, ∃ u, text.1 = some u ∧ (u, client) ∈ s.logins

/-- The receiver that a thread indexes the map with is still in it, and no socket is accepted
that a thread is to send the text of a direct message to. -/
def ReceiverStays (s : State ι) : Action ι → Prop
  | .step i => ∀ t u next, s.threads i = some t → t.sending = none → t.program = .index u next →
      u ∈ s.directory.client_mapp
  | .accept client => ∀ i t message, s.threads i = some t → t.Due client message →
      ¬ directLabel <+: message
  | _ => True

/-- Each connection that is open has one thread, or is about to get it, and so has each socket
in the map. -/
structure Attached (s : State ι) : Prop where
  stage : ∀ i t, s.threads i = some t → t.InStage
  opened : ∀ i t, s.threads i = some t → ¬ t.Gone → t.socket ∈ s.directory.opened
  unique : ∀ i j t u, s.threads i = some t → s.threads j = some u → ¬ t.Gone → ¬ u.Gone →
    t.socket = u.socket → i = j
  accepted : ∀ c, s.accepted = some c → c ∈ s.directory.opened ∧
    ∀ i t, s.threads i = some t → ¬ t.Gone → t.socket ≠ c
  mapped : ∀ u c, s.directory.client_mapp.lookup u = some c →
    ∃ i t, s.threads i = some t ∧ t.socket = c ∧ t.InMap

/-- The entries of the map, the texts that are to be sent and those that were sent all stem from
logins on connections that are still there. -/
structure FromLogins (s : State ι) : Prop where
  mapped : ∀ u socket, s.directory.client_mapp.lookup u = some socket →
    s.lastLogin u = some (u, socket)
  due : ∀ i t client message, s.threads i = some t → t.Due client message →
    directLabel <+: message → ∃ u, s.receiver i = some u ∧ (u, client) ∈ s.logins
  texts : ∀ client, ∀ text ∈ s.texts client, ∃ u, text.1 = some u ∧ (u, client) ∈ s.logins

theorem threads_setThread (s : State ι) (i j : ι) (t : Thread) :
    (s.setThread i t).threads j = if j = i then some t else s.threads j := by
  by_cases h : j = i
  · rw [if_pos h, h, setThread_self]
  · simp [setThread, h]

/-- A thread goes on on the same socket. It may open no entry but its own, and close its socket
only if it is gone then. -/
theorem Attached.setThread {s r : State ι} (h : s.Attached) {i : ι} {t t' : Thread}
    (hi : s.threads i = some t) (hthreads : r.threads = s.threads)
    (haccepted : r.accepted = s.accepted) (hsocket : t'.socket = t.socket) (hstage : t'.InStage)
    (hgone : t.Gone → t'.Gone)
    (hopened : ∀ c ∈ s.directory.opened, c ∈ r.directory.opened ∨
      c = t.socket ∧ ¬ t.Gone ∧ t'.Gone)
    (hmap : ∀ u c, r.directory.client_mapp.lookup u = some c → c = t.socket ∧ t'.InMap ∨
      s.directory.client_mapp.lookup u = some c ∧ (c = t.socket → t.InMap → t'.InMap)) :
    (r.setThread i t').Attached := by
  have hthread : ∀ j, (r.setThread i t').threads j = if j = i then some t' else s.threads j := by
    intro j
    rw [threads_setThread, hthreads]
  -- each thread that is not gone was there before, on the same socket
  have hbefore : ∀ j u, (r.setThread i t').threads j = some u → ¬ u.Gone →
      ∃ v, s.threads j = some v ∧ ¬ v.Gone ∧ v.socket = u.socket := by
    intro j u hj hu
    rw [hthread] at hj
    split_ifs at hj with hji
    · cases hj
      exact ⟨t, hji ▸ hi, fun ht => hu (hgone ht), hsocket.symm⟩
    · exact ⟨u, hj, hu, rfl⟩
  refine ⟨?stage, ?opened, ?unique, ?accepted, ?mapped⟩
  case stage =>
    intro j u hj
    rw [hthread] at hj
    split_ifs at hj
    · cases hj
      exact hstage
    · exact h.stage j u hj
  case opened =>
    intro j u hj hu
    obtain ⟨v, hv, hvgone, hvsocket⟩ := hbefore j u hj hu
    rw [← hvsocket]
    refine (hopened _ (h.opened j v hv hvgone)).resolve_right ?_
    rintro ⟨heq, hnot, hgone'⟩
    obtain rfl := h.unique j i v t hv hi hvgone hnot heq
    rw [hthread, if_pos rfl] at hj
    cases hj
    exact hu hgone'
  case unique =>
    intro j k u v hj hk hu hv heq
    obtain ⟨u', hu', hugone, husocket⟩ := hbefore j u hj hu
    obtain ⟨v', hv', hvgone, hvsocket⟩ := hbefore k v hk hv
    exact h.unique j k u' v' hu' hv' hugone hvgone (by rw [husocket, hvsocket, heq])
  case accepted =>
    intro c hc
    obtain ⟨hopen, hfree⟩ := h.accepted c (haccepted ▸ hc)
    refine ⟨(hopened c hopen).resolve_right ?_, fun j u hj hu => ?_⟩
    · rintro ⟨heq, hnot, -⟩
      exact hfree i t hi hnot heq.symm
    · obtain ⟨v, hv, hvgone, hvsocket⟩ := hbefore j u hj hu
      rw [← hvsocket]
      exact hfree j v hv hvgone
  case mapped =>
    intro u c hu
    rcases hmap u c hu with ⟨rfl, hin⟩ | ⟨hold, hkeep⟩
    · exact ⟨i, t', setThread_self _ i _, hsocket, hin⟩
    · obtain ⟨j, v, hv, hvsocket, hvin⟩ := h.mapped u c hold
      by_cases hji : j = i
      · subst hji
        rw [hi] at hv
        cases hv
        exact ⟨j, t', setThread_self _ j _, hsocket.trans hvsocket, hkeep hvsocket.symm hvin⟩
      · exact ⟨j, v, by rw [hthread, if_neg hji, hv], hvsocket, hvin⟩

/-- A thread goes on, and the connections and the map stay as they are. -/
theorem Attached.goOn {s r : State ι} (h : s.Attached) {i : ι} {t t' : Thread}
    (hi : s.threads i = some t) (hthreads : r.threads = s.threads)
    (haccepted : r.accepted = s.accepted) (hdirectory : r.directory = s.directory)
    (hsocket : t'.socket = t.socket) (hdone : t.program ≠ .done)
    (hnext : t'.InStage ∧ (t.InMap → t'.InMap)) : (r.setThread i t').Attached :=
  h.setThread hi hthreads haccepted hsocket hnext.1 (fun hgone => absurd hgone.2 hdone)
    (fun c hc => .inl (hdirectory ▸ hc))
    fun u c hu => .inr ⟨by rwa [hdirectory] at hu, fun _ => hnext.2⟩

theorem Attached.perform {s : State ι} (h : s.Attached) {i : ι} {t : Thread}
    (hi : s.threads i = some t)
    (hindex : ∀ u next, t.program = .index u next → u ∈ s.directory.client_mapp) :
    (s.perform i t).Attached := by
  have hstage := h.stage i t hi
  unfold State.perform
  cases hprogram : t.program with
  | done => exact h
  | lock next =>
    simp only
    split_ifs
    · exact h.goOn hi rfl rfl rfl rfl (by simp [hprogram]) (hstage.next hprogram rfl rfl rfl nofun
        (fun _ _ hp => ⟨none, hp⟩) (fun _ hp => hp) nofun)
    · exact h
  | unlock next =>
    exact h.goOn hi rfl rfl rfl rfl (by simp [hprogram]) (hstage.next hprogram rfl rfl rfl nofun
      (fun _ _ hp => ⟨none, hp⟩) nofun fun _ hp => .inl hp)
  | sendMessage client message next =>
    exact h.goOn hi (threads_send s client _) (accepted_send s client _)
      (directory_send s client _) rfl (by simp [hprogram]) (hstage.next hprogram rfl rfl rfl nofun
        (fun _ _ hp => ⟨none, hp.2⟩) nofun fun _ hp => .inl hp.2)
  | clients next =>
    exact h.goOn hi rfl rfl rfl rfl (by simp [hprogram]) (hstage.next hprogram rfl rfl rfl nofun
      (fun _ _ hp => ⟨none, hp _⟩) nofun nofun)
  | usernames next =>
    exact h.goOn hi rfl rfl rfl rfl (by simp [hprogram]) (hstage.next hprogram rfl rfl rfl nofun
      (fun _ _ hp => ⟨none, hp _⟩) nofun nofun)
  | find username next =>
    exact h.goOn hi rfl rfl rfl rfl (by simp [hprogram]) (hstage.next hprogram rfl rfl rfl nofun
      (fun _ _ hp => ⟨none, hp _⟩) nofun nofun)
  | index username next =>
    obtain ⟨socket, -, hsame⟩ := Directory.index_of_mem (hindex username next hprogram)
    simp only [hsame]
    exact h.goOn hi rfl rfl rfl rfl (by simp [hprogram]) (hstage.next hprogram rfl rfl rfl nofun
      (fun _ _ hp => ⟨some socket, hp socket⟩) nofun nofun)
  | assign username socket next =>
    have hserving : t.leaving = false ∧ socket = t.socket ∧ next.Serving t.socket none := by
      rw [Thread.InStage, hprogram] at hstage
      simpa [Program.Serving, Program.Leaves, Program.Closing] using hstage
    obtain ⟨hleaving, rfl, hnext⟩ := hserving
    refine h.setThread hi rfl rfl rfl (.inl ⟨hleaving, none, hnext⟩)
      (fun hgone => by simp [Thread.Gone, hprogram] at hgone) (fun c hc => .inl hc)
      fun u c hu => ?_
    change (s.directory.client_mapp.insert username t.socket).lookup u = some c at hu
    by_cases hu' : u = username
    · rw [hu', Finmap.lookup_insert] at hu
      exact .inl ⟨(Option.some.inj hu).symm, .inl hleaving⟩
    · rw [Finmap.lookup_insert_of_ne _ hu'] at hu
      exact .inr ⟨hu, fun _ _ => .inl hleaving⟩
  | remove socket next =>
    have hleaves : t.leaving = true ∧ socket = t.socket ∧ next.Closing t.socket := by
      rw [Thread.InStage, hprogram] at hstage
      simpa [Program.Serving, Program.Leaves, Program.Closing] using hstage
    obtain ⟨hleaving, rfl, hnext⟩ := hleaves
    refine h.setThread hi rfl rfl rfl (.inr ⟨hleaving, .inr (.inl hnext)⟩)
      (fun hgone => by simp [Thread.Gone, hprogram] at hgone) (fun c hc => .inl hc)
      fun u c hu => .inr ?_
    obtain ⟨hold, hne⟩ := Directory.lookup_eraseSocket.mp hu
    exact ⟨hold, fun heq => absurd heq hne⟩
  | close socket next =>
    have hcloses : t.leaving = true ∧ socket = t.socket ∧ next = .done := by
      rw [Thread.InStage, hprogram] at hstage
      simpa [Program.Serving, Program.Leaves, Program.Closing] using hstage
    obtain ⟨hleaving, rfl, rfl⟩ := hcloses
    refine h.setThread hi rfl rfl rfl (.inr ⟨hleaving, .inr (.inr rfl)⟩)
      (fun hgone => ⟨hleaving, rfl⟩) (fun c hc => ?_) fun u c hu => .inr ⟨hu, fun _ hin => ?_⟩
    · by_cases hsocket : c = t.socket
      · exact .inr ⟨hsocket, fun hgone => by simp [Thread.Gone, hprogram] at hgone, hleaving, rfl⟩
      · exact .inl (Finset.mem_erase.mpr ⟨hsocket, hc⟩)
    · rw [Thread.InMap, hprogram, hleaving] at hin
      simp [Program.Leaves] at hin

/-- The invariant of the connections. -/
theorem Attached.effect {s s' : State ι} (h : s.Attached) {a : Action ι} (ha : s.ReceiverStays a)
    (heffect : s.Effect a s') : s'.Attached := by
  cases heffect with
  | none => exact h
  | accept socket hclosed =>
    refine ⟨h.stage, fun i t hi ht => Finset.mem_insert_of_mem (h.opened i t hi ht), h.unique, ?_,
      h.mapped⟩
    rintro c ⟨⟩
    refine ⟨Finset.mem_insert_self _ _, fun i t hi ht heq => hclosed ?_⟩
    rw [← heq]
    exact h.opened i t hi ht
  | @start i socket hi haccepted =>
    obtain ⟨hopen, hfree⟩ := h.accepted socket haccepted
    have hthread : ∀ j t, (if j = i then some ⟨socket, none, .done, false⟩ else s.threads j) =
        some t → t = ⟨socket, none, .done, false⟩ ∧ j = i ∨ s.threads j = some t := by
      intro j t hj
      split_ifs at hj with hji
      · cases hj
        exact .inl ⟨rfl, hji⟩
      · exact .inr hj
    refine ⟨fun j t hj => ?_, fun j t hj ht => ?_, fun j k t u hj hk ht hu heq => ?_, nofun,
      fun u c hu => ?_⟩
    · rw [threads_setThread] at hj
      rcases hthread j t hj with ⟨rfl, -⟩ | hj
      · exact .inl ⟨rfl, none, trivial⟩
      · exact h.stage j t hj
    · rw [threads_setThread] at hj
      rcases hthread j t hj with ⟨rfl, -⟩ | hj
      · exact hopen
      · exact h.opened j t hj ht
    · rw [threads_setThread] at hj hk
      rcases hthread j t hj with ⟨rfl, hji⟩ | hold <;> rcases hthread k u hk with ⟨rfl, hki⟩ | hold'
      · rw [hji, hki]
      · exact absurd heq.symm (hfree k u hold' hu)
      · exact absurd heq (hfree j t hold ht)
      · exact h.unique j k t u hold hold' ht hu heq
    · obtain ⟨j, t, hj, hsocket, hin⟩ := h.mapped u c hu
      have hji : j ≠ i := by
        rintro rfl
        rw [hi] at hj
        cases hj
      exact ⟨j, t, by rw [threads_setThread, if_neg hji]; exact hj, hsocket, hin⟩
  | begins _ hi hidle hbegins =>
    have hleaving := (Thread.isIdle_iff.mp hidle).2.2
    refine h.setThread hi rfl rfl hbegins.socket hbegins.inStage.1
      (fun hgone => absurd (hleaving.symm.trans hgone.1) Bool.false_ne_true) (fun c hc => .inl hc)
      fun u c hu => .inr ⟨hu, fun _ _ => hbegins.inStage.2⟩
  | perform hi ht => exact h.perform hi fun u next => ha _ u next hi ht
  | @sendBody i t client message hi ht =>
    have hdirectory : (s.sendBody i t client message).directory = s.directory :=
      directory_send s client message
    exact h.setThread hi (threads_send s client message) (accepted_send s client message) rfl
      (h.stage i t hi) id (fun c hc => .inl (by rwa [← hdirectory] at hc))
      fun u c hu => .inr ⟨by rwa [← hdirectory], fun _ => id⟩

omit [DecidableEq ι] in
theorem attached_init : (init : State ι).Attached :=
  ⟨nofun, nofun, nofun, nofun, fun u c hu => absurd hu (by simp [init])⟩

/-- A thread goes on, perhaps with one more login, and what it is to send it has looked up. -/
theorem FromLogins.setThread {s r : State ι} (h : s.FromLogins) {i : ι} {t : Thread}
    (hthreads : r.threads = s.threads) (hlogins : s.logins ⊆ r.logins)
    (hreceiver : ∀ j ≠ i, r.receiver j = s.receiver j)
    (hmapped : ∀ u socket, r.directory.client_mapp.lookup u = some socket →
      r.lastLogin u = some (u, socket))
    (hdue : ∀ client message, t.Due client message → directLabel <+: message →
      ∃ u, r.receiver i = some u ∧ (u, client) ∈ r.logins)
    (htexts : ∀ client, ∀ text ∈ r.texts client, text ∈ s.texts client ∨
      ∃ u, text.1 = some u ∧ (u, client) ∈ r.logins) : (r.setThread i t).FromLogins where
  mapped := hmapped
  due j t' client message hj hdue' hlabel := by
    rw [threads_setThread, hthreads] at hj
    split_ifs at hj with hji
    · cases hj
      rw [hji]
      exact hdue client message hdue' hlabel
    · obtain ⟨u, hu, hmem⟩ := h.due j t' client message hj hdue' hlabel
      exact ⟨u, (hreceiver j hji).trans hu, hlogins hmem⟩
  texts client text htext := by
    rcases htexts client text htext with hold | hnew
    · obtain ⟨u, hu, hmem⟩ := h.texts client text hold
      exact ⟨u, hu, hlogins hmem⟩
    · exact hnew

/-- A thread goes on, and nothing is logged in or sent. -/
theorem FromLogins.goOn {s r : State ι} (h : s.FromLogins) {i : ι} {t : Thread}
    (hthreads : r.threads = s.threads) (hlogins : r.logins = s.logins)
    (hreceiver : r.receiver = s.receiver) (htexts : r.texts = s.texts)
    (hmap : ∀ u socket, r.directory.client_mapp.lookup u = some socket →
      s.directory.client_mapp.lookup u = some socket)
    (hdue : ∀ client message, t.Due client message → directLabel <+: message →
      ∃ u, s.receiver i = some u ∧ (u, client) ∈ s.logins) : (r.setThread i t).FromLogins := by
  refine h.setThread hthreads ?_ (fun j _ => by rw [hreceiver]) (fun u socket hu => ?_)
    (by rwa [hreceiver, hlogins]) fun client text htext => .inl ?_
  · rw [hlogins]
    exact List.Subset.refl _
  · rw [lastLogin, hlogins]
    exact h.mapped u socket (hmap u socket hu)
  · rwa [htexts] at htext

theorem FromLogins.perform {s : State ι} (h : s.FromLogins) {i : ι} {t : Thread}
    (hi : s.threads i = some t) (ht : t.sending = none) (hstage : t.InStage)
    (hindex : ∀ u next, t.program = .index u next → u ∈ s.directory.client_mapp) :
    (s.perform i t).FromLogins := by
  have hquiet : ∀ {p : Program}, p.Unlabelled → ∀ client message,
      ({ t with program := p } : Thread).Due client message → directLabel <+: message →
        ∃ u, s.receiver i = some u ∧ (u, client) ∈ s.logins :=
    fun hp client message hdue hlabel => absurd hlabel (hdue.not_labelled ht hp)
  unfold State.perform
  cases hprogram : t.program with
  | done => exact h
  | lock next =>
    have hnext := hstage.unlabelled_next hprogram nofun (fun _ _ hp => hp)
      (fun c (hp : next.Leaves c) => hp.unlabelled) nofun
    simp only
    split_ifs
    · exact h.goOn rfl rfl rfl rfl (fun _ _ hu => hu) (hquiet hnext)
    · exact h
  | unlock next =>
    have hnext := hstage.unlabelled_next hprogram nofun (fun _ _ hp => hp) nofun
      fun c (hp : next.Closing c) => hp.unlabelled
    exact h.goOn rfl rfl rfl rfl (fun _ _ hu => hu) (hquiet hnext)
  | sendMessage client message next =>
    have hnext := hstage.unlabelled_next hprogram nofun (fun _ _ hp => hp.2) nofun
      fun _ hp => hp.2.unlabelled
    refine h.goOn (threads_send s client _) (logins_send s client _) (receiver_send s client _)
      (texts_send s client _) (fun u socket hu => by rwa [directory_send] at hu) ?_
    rintro client' message' (hsome | ⟨next', hnext'⟩) hlabel
    · cases hsome
      exact h.due i t client message hi (.inr ⟨next, hprogram⟩) hlabel
    · exact absurd hlabel (hnext client' message' next' hnext')
  | clients next =>
    have hnext := hstage.unlabelled_next hprogram nofun
      (fun _ _ hp => hp s.directory.clients) nofun nofun
    exact h.goOn rfl rfl rfl rfl (fun _ _ hu => hu) (hquiet hnext)
  | usernames next =>
    have hnext := hstage.unlabelled_next hprogram nofun
      (fun _ _ hp => hp s.directory.usernames) nofun nofun
    exact h.goOn rfl rfl rfl rfl (fun _ _ hu => hu) (hquiet hnext)
  | find username next =>
    have hnext := hstage.unlabelled_next hprogram nofun
      (fun _ _ hp => hp (username ∈ s.directory.client_mapp)) nofun nofun
    exact h.goOn rfl rfl rfl rfl (fun _ _ hu => hu) (hquiet hnext)
  | index username next =>
    obtain ⟨socket, hlookup, hsame⟩ := Directory.index_of_mem (hindex username next hprogram)
    simp only [hsame]
    have hfound : (next socket).Serving t.socket (some socket) := by
      rw [Thread.InStage, hprogram] at hstage
      simp only [Program.Serving, Program.Leaves, Program.Closing, reduceCtorEq, or_false,
        and_false, exists_const] at hstage
      exact hstage.2 socket
    refine h.setThread rfl (List.Subset.refl _) (fun j hj => Function.update_of_ne hj _ _)
      h.mapped ?_ fun client text htext => .inl htext
    rintro client message (hsome | ⟨rest, hrest⟩) hlabel
    · exact absurd (ht.symm.trans hsome) nofun
    · change next socket = _ at hrest
      rw [hrest] at hfound
      obtain rfl := Option.some.inj (hfound.1 hlabel)
      exact ⟨username, Function.update_self _ _ _,
        List.mem_of_find?_eq_some (h.mapped username socket hlookup)⟩
  | assign username socket next =>
    have hnext := hstage.unlabelled_next hprogram nofun (fun _ _ hp => hp.2) nofun nofun
    refine h.setThread rfl (List.subset_cons_self _ _) (fun _ _ => rfl) (fun u socket' hu => ?_)
      (fun client message hdue hlabel => ?_) fun client text htext => .inl htext
    · change (s.directory.client_mapp.insert username socket).lookup u = some socket' at hu
      change ((username, socket) :: s.logins).find? (fun login => login.1 = u) = some (u, socket')
      by_cases hname : username = u
      · subst hname
        rw [Finmap.lookup_insert] at hu
        cases hu
        simp
      · rw [Finmap.lookup_insert_of_ne _ (Ne.symm hname)] at hu
        rw [List.find?_cons_of_neg (by simpa using hname)]
        exact h.mapped u socket' hu
    · obtain ⟨u, hu, hmem⟩ := hquiet hnext client message hdue hlabel
      exact ⟨u, hu, List.mem_cons_of_mem _ hmem⟩
  | remove socket next =>
    have hnext := hstage.unlabelled_next hprogram nofun nofun (fun _ hp => hp.2.unlabelled) nofun
    exact h.goOn rfl rfl rfl rfl (fun _ _ hu => (Directory.lookup_eraseSocket.mp hu).1)
      (hquiet hnext)
  | close socket next =>
    have hnext := hstage.unlabelled_next hprogram nofun nofun nofun
      fun _ hp => hp.2 ▸ Program.unlabelled_done
    exact h.goOn rfl rfl rfl rfl (fun _ _ hu => hu) (hquiet hnext)

theorem texts_sendBody (s : State ι) (i : ι) (t : Thread) (client c : Socket) (message : Bytes) :
    (s.sendBody i t client message).texts c = s.texts c ++
      if (client ∈ s.directory.opened ∧ directLabel <+: message) ∧ client = c then
        [(s.receiver i, message)] else [] := by
  change (if _ then _ else s.texts : Socket → List (Option Bytes × Bytes)) c = _
  by_cases hsent : client ∈ s.directory.opened ∧ directLabel <+: message
  · by_cases hc : client = c
    · subst hc
      simp [hsent]
    · simp [hsent, hc, Ne.symm hc]
  · simp [hsent]

theorem FromLogins.sendBody {s : State ι} (h : s.FromLogins) {i : ι} {t : Thread} {client : Socket}
    {message : Bytes} (hi : s.threads i = some t) (ht : t.sending = some (client, message)) :
    (s.sendBody i t client message).FromLogins := by
  have hlogins : (s.sendBody i t client message).logins = s.logins :=
    logins_send s client message
  have hreceiver : (s.sendBody i t client message).receiver = s.receiver :=
    receiver_send s client message
  have hdirectory : (s.sendBody i t client message).directory = s.directory :=
    directory_send s client message
  refine h.setThread (threads_send s client message) ?_ (fun j _ => congrFun hreceiver j)
    (fun u socket hu => ?_) ?_ fun c text htext => ?_
  · exact fun login hlogin => hlogins ▸ hlogin
  · change (s.sendBody i t client message).logins.find? _ = _
    rw [hlogins]
    exact h.mapped u socket (by rwa [← hdirectory])
  · rintro client' message' (hsome | hnext) hlabel
    · cases hsome
    · obtain ⟨u, hu, hmem⟩ := h.due i t client' message' hi (.inr hnext) hlabel
      exact ⟨u, (congrFun hreceiver i).trans hu, hlogins ▸ hmem⟩
  · change text ∈ (s.sendBody i t client message).texts c at htext
    rw [texts_sendBody, List.mem_append] at htext
    refine htext.imp_right fun hnew => ?_
    split_ifs at hnew with hsent
    · obtain rfl := List.mem_singleton.mp hnew
      obtain ⟨⟨-, hlabel⟩, rfl⟩ := hsent
      obtain ⟨u, hu, hmem⟩ := h.due i t client message hi (.inl ht) hlabel
      exact ⟨u, hu, hlogins ▸ hmem⟩
    · cases hnew

omit [DecidableEq ι] in
/-- The logins on the other sockets are remembered. -/
theorem lastLogin_accept {s : State ι} {u : Bytes} {socket c : Socket}
    (h : s.lastLogin u = some (u, socket)) (hne : socket ≠ c) :
    (s.accept c).lastLogin u = some (u, socket) := by
  obtain ⟨hname, before, after, hsplit, hbefore⟩ := List.find?_eq_some_iff_append.mp h
  have hlogins : (s.accept c).logins = (before.filter fun login => login.2 ≠ c) ++ (u, socket) ::
      (after.filter fun login => login.2 ≠ c) := by
    change s.logins.filter (fun login => login.2 ≠ c) = _
    rw [hsplit, List.filter_append, List.filter_cons_of_pos (by simpa using hne)]
  rw [lastLogin, hlogins]
  refine List.find?_eq_some_iff_append.mpr ⟨hname, _, _, rfl, fun login hlogin => ?_⟩
  exact hbefore login (List.mem_of_mem_filter hlogin)

omit [DecidableEq ι] in
theorem FromLogins.accept {s : State ι} (h : s.FromLogins) (hatt : s.Attached) {c : Socket}
    (hclosed : c ∉ s.directory.opened)
    (hdue : ∀ i t message, s.threads i = some t → t.Due c message → ¬ directLabel <+: message) :
    (s.accept c).FromLogins := by
  have hlogins : ∀ u client, client ≠ c → (u, client) ∈ s.logins →
      (u, client) ∈ (s.accept c).logins := fun u client hne hmem =>
    List.mem_filter.mpr ⟨hmem, decide_eq_true hne⟩
  refine ⟨fun u socket hu => ?_, fun i t client message hi ht hlabel => ?_,
    fun client text htext => ?_⟩
  · obtain ⟨i, t, hi, rfl, hin⟩ := hatt.mapped u socket hu
    refine lastLogin_accept (h.mapped u _ hu) fun heq => hclosed ?_
    rw [← heq]
    exact hatt.opened i t hi hin.not_gone
  · have hne : client ≠ c := by
      rintro rfl
      exact hdue i t message hi ht hlabel
    obtain ⟨u, hu, hmem⟩ := h.due i t client message hi ht hlabel
    exact ⟨u, hu, hlogins u client hne hmem⟩
  · by_cases hne : client = c
    · subst hne
      simp [State.accept] at htext
    · obtain ⟨u, hu, hmem⟩ := h.texts client text (by simpa [State.accept, hne] using htext)
      exact ⟨u, hu, hlogins u client hne hmem⟩

theorem FromLogins.effect {s s' : State ι} (h : s.FromLogins) (hatt : s.Attached) {a : Action ι}
    (ha : s.ReceiverStays a) (heffect : s.Effect a s') : s'.FromLogins := by
  cases heffect with
  | none => exact h
  | accept socket hclosed => exact h.accept hatt hclosed ha
  | start hi haccepted =>
    refine h.goOn rfl rfl rfl rfl (fun _ _ hu => hu) fun client message hdue hlabel => ?_
    exact absurd hlabel (hdue.not_labelled rfl Program.unlabelled_done)
  | begins _ hi hidle hbegins =>
    refine h.goOn rfl rfl rfl rfl (fun _ _ hu => hu) fun client message hdue hlabel => ?_
    have hsending := hbegins.sending.trans (Thread.isIdle_iff.mp hidle).1
    exact absurd hlabel (hdue.not_labelled hsending hbegins.unlabelled)
  | @perform i t hi ht => exact h.perform hi ht (hatt.stage i t hi) fun u next => ha t u next hi ht
  | sendBody hi ht => exact h.sendBody hi ht

omit [DecidableEq ι] in
theorem fromLogins_init : (init : State ι).FromLogins :=
  ⟨fun u socket hu => absurd hu (by simp [init]), nofun, nofun⟩

/-- In every run in which no receiver leaves between its two lookups and no socket is accepted
that a direct text is still to be sent to, every entry of the map stems from a login, and every
direct text went to a connection that its receiver had logged in on. -/
theorem noGhosts_of_receiverStays (actions : List (Action ι))
    (h : AllSteps step ReceiverStays init actions) : AllStates step NoGhosts init actions := by
  have hstep : ∀ (s : State ι) (a : Action ι), s.Attached ∧ s.FromLogins → s.ReceiverStays a →
      (s.step a).Attached ∧ (s.step a).FromLogins :=
    fun s a hs ha => ⟨hs.1.effect ha (s.effect_step a), hs.2.effect hs.1 ha (s.effect_step a)⟩
  exact allStates_of_allSteps hstep (fun s hs => ⟨hs.2.mapped, hs.2.texts⟩)
    ⟨attached_init, fromLogins_init⟩ h

/-- The receiver gets a direct message and logs out, and its socket is accepted again. -/
def receiverLater : List (Action ℕ) :=
  [.accept 4, .start 0, .accept 5, .start 1,
    .receive 1 (ascii "login:b"), .step 1, .step 1, .step 1,
    .receive 0 (ascii "direct:b:x"), .step 0, .step 0, .step 0, .step 0,
    .receive 1 (ascii "logout"), .step 1, .step 1, .step 1, .step 1, .step 1, .step 1, .accept 5]

theorem noGhosts_of_receiverStays_later : AllStates step NoGhosts init receiverLater ∧
    ((receiverLater.take 13).foldl step init).texts 5 = [(some [0x62], directLabel ++ [0x78])] ∧
    (receiverLater.foldl step init).texts 5 = [] := by
  refine ⟨noGhosts_of_receiverStays receiverLater ?_, by decide, by decide⟩
  have hstep : ∀ {s : State ℕ} {i : ℕ} {t : Thread}, s.threads i = some t →
      (∀ u next, t.program = .index u next → t.sending = none → u ∈ s.directory.client_mapp) →
        s.ReceiverStays (.step i) := by
    intro s i t hi hindex t' u next hi' hsending hprogram
    rw [hi] at hi'
    cases hi'
    exact hindex u next hprogram hsending
  refine ⟨nofun, trivial, ?_, trivial, trivial, hstep rfl nofun, hstep rfl nofun, hstep rfl nofun,
    trivial, hstep rfl nofun, hstep rfl ?_, hstep rfl nofun, hstep rfl nofun, trivial,
    hstep rfl nofun, hstep rfl nofun, hstep rfl nofun, hstep rfl nofun, hstep rfl nofun,
    hstep rfl nofun, ?_, trivial⟩
  · intro i t message hi hdue
    rcases i with _ | i
    · obtain rfl := Option.some.inj hi
      exact hdue.not_labelled rfl nofun
    · cases hi
  · intro u next hprogram _
    obtain ⟨rfl, -⟩ := Program.index.inj hprogram
    decide
  · intro i t message hi hdue
    rcases i with _ | _ | i
    · obtain rfl := Option.some.inj hi
      rcases hdue with hsome | ⟨next, hnext⟩
      · cases hsome
      · cases hnext
    · obtain rfl := Option.some.inj hi
      rcases hdue with hsome | ⟨next, hnext⟩
      · cases hsome
      · cases hnext
    · cases hi

/-- A receiver that logs out between the lookups. -/
def leavingReceiver : List (Action ℕ) :=
  [.accept 4, .start 0, .accept 5, .start 1,
    .receive 1 (ascii "login:b"), .step 1, .step 1, .step 1,
    .receive 0 (ascii "direct:b:x"), .step 0,
    .receive 1 (ascii "logout"), .step 1, .step 1, .step 1, .step 0]

/-- The receiver of a text that is to be sent logs out, and its socket is accepted again. -/
def newcomer : List (Action ℕ) :=
  [.accept 4, .start 0, .accept 5, .start 1,
    .receive 1 (ascii "login:b"), .step 1, .step 1, .step 1,
    .receive 0 (ascii "direct:b:x"), .step 0, .step 0,
    .receive 1 (ascii "logout"), .step 1, .step 1, .step 1, .step 1, .step 1, .step 1,
    .accept 5, .step 0, .step 0]

/-- The text goes to a connection on which no one has logged in. -/
example : (newcomer.foldl step init).texts 5 = [(some [0x62], directLabel ++ [0x78])] ∧
    (newcomer.foldl step init).logins = [] := by decide

/-- The name is put back into the map, for the socket 0. -/
theorem noGhosts_fails : ¬ ∀ actions : List (Action ℕ), AllStates step NoGhosts init actions := by
  intro h
  have hmapped := ((h leavingReceiver).last).1 [0x62] 0 (by decide)
  exact absurd hmapped (by decide)

end State

end BuildYourOwnStuff.ChatServer
