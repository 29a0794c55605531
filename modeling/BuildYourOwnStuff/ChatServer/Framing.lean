import BuildYourOwnStuff.ChatServer.Threads
import BuildYourOwnStuff.Foundations.Runs

/-!
# Frames to one client

A handler that does not hold the mutex may send to a client between the length and
the body that another thread sends to it. The streams consist of whole frames as
long as no step does this.
-/

namespace BuildYourOwnStuff.ChatServer

open Foundations GoStd

namespace State

variable {ι : Type} [DecidableEq ι]

/-- No length is sent to a client while a body is due to it, and it is one of fewer
than `2 ^ 32` bytes; no socket is accepted while a body is due to its number. -/
def Separate (s : State ι) : Action ι → Prop
  | .step i => ∀ t client message next, s.threads i = some t → t.sending = none →
      t.program = .sendMessage client message next →
        message.length < 2 ^ 32 ∧ ¬ s.MidFrame client
  | .accept client => ¬ s.MidFrame client
  | _ => True

/-- What the steps keep. -/
structure Framing (s : State ι) : Prop where
  unique : ∀ i j client m m', s.sending i = some (client, m) →
    s.sending j = some (client, m') → i = j
  sending_length : ∀ i client m, s.sending i = some (client, m) → m.length < 2 ^ 32
  messages_length : ∀ client, ∀ m ∈ s.messages client, m.length < 2 ^ 32
  inside : ∀ client ∈ s.directory.opened, ∀ i m, s.sending i = some (client, m) →
    s.stream client = (s.messages client).flatMap frame ++ frameHeader m
  between : ∀ client ∈ s.directory.opened, ¬ s.MidFrame client →
    s.stream client = (s.messages client).flatMap frame

/-- Nothing is sent, and no socket is opened. -/
structure Quiet (s s' : State ι) : Prop where
  sending : ∀ i, s'.sending i = s.sending i
  stream : s'.stream = s.stream
  messages : s'.messages = s.messages
  opened : s'.directory.opened ⊆ s.directory.opened

omit [DecidableEq ι] in
theorem Quiet.midFrame_iff {s s' : State ι} (h : Quiet s s') (client : Socket) :
    s'.MidFrame client ↔ s.MidFrame client := by
  simp only [MidFrame, h.sending]

omit [DecidableEq ι] in
theorem Framing.of_quiet {s s' : State ι} (h : s.Framing) (hquiet : Quiet s s') : s'.Framing where
  unique i j client m m' := by
    rw [hquiet.sending, hquiet.sending]
    exact h.unique i j client m m'
  sending_length i client m := by
    rw [hquiet.sending]
    exact h.sending_length i client m
  messages_length := by
    rw [hquiet.messages]
    exact h.messages_length
  inside client hclient i m := by
    rw [hquiet.sending, hquiet.stream, hquiet.messages]
    exact h.inside client (hquiet.opened hclient) i m
  between client hclient := by
    rw [hquiet.midFrame_iff, hquiet.stream, hquiet.messages]
    exact h.between client (hquiet.opened hclient)

/-- A thread goes on with its program, and nothing else about the streams changes. -/
theorem quiet_setThread {s r : State ι} {i : ι} {t : Thread} (hthreads : r.threads = s.threads)
    (hstream : r.stream = s.stream) (hmessages : r.messages = s.messages)
    (hopened : r.directory.opened ⊆ s.directory.opened) (ht : t.sending = s.sending i) :
    Quiet s (r.setThread i t) where
  sending j := by
    rw [sending_setThread]
    split_ifs with hj
    · rw [ht, hj]
    · rw [sending, sending, hthreads]
  stream := hstream
  messages := hmessages
  opened := hopened

omit [DecidableEq ι] in
/-- A body stays due to a client if the thread that moves is not the one that sends it. -/
theorem MidFrame.of_others {s s' : State ι} {i : ι} {c : Socket} (h : s.MidFrame c)
    (hi : ∀ m, s.sending i ≠ some (c, m)) (hothers : ∀ j ≠ i, s'.sending j = s.sending j) :
    s'.MidFrame c := by
  obtain ⟨j, m, hj⟩ := h
  have hji : j ≠ i := by
    rintro rfl
    exact hi m hj
  exact ⟨j, m, by rw [hothers j hji, hj]⟩

/-- The length of a message is sent to a client that no body is due to. -/
theorem Framing.sendHeader {s : State ι} (h : s.Framing) {i : ι} {t : Thread} {client : Socket}
    {message : Bytes} (hi : s.sending i = none) (hlength : message.length < 2 ^ 32)
    (hmid : ¬ s.MidFrame client) (ht : t.sending = some (client, message)) :
    ((s.send client (frameHeader message)).setThread i t).Framing := by
  have hsending : ∀ j, ((s.send client (frameHeader message)).setThread i t).sending j =
      if j = i then some (client, message) else s.sending j := by
    intro j
    rw [sending_setThread, ht]
    split_ifs
    · rfl
    · rw [sending, sending, threads_send]
  have hopened : ((s.send client (frameHeader message)).setThread i t).directory = s.directory :=
    directory_send s client _
  have hmessages : ((s.send client (frameHeader message)).setThread i t).messages = s.messages :=
    messages_send s client _
  have hstream : ((s.send client (frameHeader message)).setThread i t).stream =
      (s.send client (frameHeader message)).stream := rfl
  refine ⟨?unique, ?sending, ?messages, ?inside, ?between⟩
  case unique =>
    intro j k c m m' hj hk
    rw [hsending] at hj hk
    split_ifs at hj hk with hji hki hki
    · rw [hji, hki]
    · cases hj
      exact absurd ⟨k, m', hk⟩ hmid
    · cases hk
      exact absurd ⟨j, m, hj⟩ hmid
    · exact h.unique j k c m m' hj hk
  case sending =>
    intro j c m hj
    rw [hsending] at hj
    split_ifs at hj
    · cases hj
      exact hlength
    · exact h.sending_length j c m hj
  case messages =>
    rw [hmessages]
    exact h.messages_length
  case inside =>
    intro c hc j m hj
    rw [hopened] at hc
    rw [hsending] at hj
    rw [hstream, hmessages]
    split_ifs at hj with hji
    · cases hj
      rw [stream_send_self hc, h.between client hc hmid]
    · have hne : client ≠ c := by
        rintro rfl
        exact hmid ⟨j, m, hj⟩
      rw [stream_send_of_ne hne]
      exact h.inside c hc j m hj
  case between =>
    intro c hc hnot
    rw [hopened] at hc
    have hne : client ≠ c := by
      rintro rfl
      exact hnot ⟨i, message, by rw [hsending, if_pos rfl]⟩
    rw [hstream, hmessages, stream_send_of_ne hne]
    have hidle : ∀ m, s.sending i ≠ some (c, m) := by simp [hi]
    refine h.between c hc fun hduring => hnot (hduring.of_others hidle fun j hj => ?_)
    rw [hsending, if_neg hj]

/-- The body that is due to a client makes its frame whole. -/
theorem Framing.sendBody {s : State ι} (h : s.Framing) {i : ι} {t : Thread} {client : Socket}
    {message : Bytes} (hi : s.sending i = some (client, message)) :
    (s.sendBody i t client message).Framing := by
  have hsending := fun j => sending_sendBody s i j t client message
  have hopened : (s.sendBody i t client message).directory = s.directory :=
    directory_send s client _
  have hstream : (s.sendBody i t client message).stream = (s.send client message).stream := rfl
  have hlength := h.sending_length i client message hi
  refine ⟨?unique, ?sending, ?messages, ?inside, ?between⟩
  case unique =>
    intro j k c m m' hj hk
    rw [hsending] at hj hk
    split_ifs at hj hk
    exact h.unique j k c m m' hj hk
  case sending =>
    intro j c m hj
    rw [hsending] at hj
    split_ifs at hj
    exact h.sending_length j c m hj
  case messages =>
    intro c m hm
    rw [messages_sendBody, List.mem_append] at hm
    rcases hm with hm | hm
    · exact h.messages_length c m hm
    · split_ifs at hm
      · rw [List.mem_singleton.mp hm]
        exact hlength
      · cases hm
  case inside =>
    intro c hc j m hj
    rw [hopened] at hc
    rw [hsending] at hj
    split_ifs at hj with hji
    have hne : client ≠ c := by
      rintro rfl
      exact hji (h.unique j i client m message hj hi)
    rw [hstream, stream_send_of_ne hne, messages_sendBody_of_ne hne]
    exact h.inside c hc j m hj
  case between =>
    intro c hc hnot
    rw [hopened] at hc
    by_cases hclient : client = c
    · subst hclient
      rw [hstream, stream_send_self hc, messages_sendBody, if_pos ⟨hc, rfl⟩,
        h.inside client hc i message hi]
      simp [frame]
    · rw [hstream, stream_send_of_ne hclient, messages_sendBody_of_ne hclient]
      have hother : ∀ m, s.sending i ≠ some (c, m) := by simp [hi, hclient]
      refine h.between c hc fun hduring => hnot (hduring.of_others hother fun j hj => ?_)
      rw [hsending, if_neg hj]

omit [DecidableEq ι] in
/-- The stream of a connection that is accepted is empty. -/
theorem Framing.accept {s : State ι} (h : s.Framing) {client : Socket}
    (hmid : ¬ s.MidFrame client) : (s.accept client).Framing := by
  refine ⟨h.unique, h.sending_length, ?_, ?_, ?_⟩
  · intro c m hm
    by_cases hc : c = client
    · subst hc
      simp [State.accept] at hm
    · exact h.messages_length c m (by simpa [State.accept, hc] using hm)
  · intro c hc j m hj
    have hne : c ≠ client := by
      rintro rfl
      exact hmid ⟨j, m, hj⟩
    have hopen : c ∈ s.directory.opened := by
      simpa [State.accept, Directory.accept, hne] using hc
    simpa [State.accept, hne] using h.inside c hopen j m hj
  · intro c hc hnot
    by_cases hne : c = client
    · subst hne
      simp [State.accept]
    · have hopen : c ∈ s.directory.opened := by
        simpa [State.accept, Directory.accept, hne] using hc
      simpa [State.accept, hne] using h.between c hopen hnot

theorem Framing.perform {s : State ι} (h : s.Framing) {i : ι} {t : Thread}
    (hi : s.threads i = some t) (ht : t.sending = none)
    (hsend : ∀ client message next, t.program = .sendMessage client message next →
      message.length < 2 ^ 32 ∧ ¬ s.MidFrame client) : (s.perform i t).Framing := by
  have hsending : s.sending i = none := (sending_of_thread hi).trans ht
  have hsame : ∀ next, Thread.sending { t with program := next } = s.sending i := by
    intro next
    rw [hsending]
    exact ht
  unfold State.perform
  cases hprogram : t.program with
  | done => exact h
  | lock next =>
    simp only
    split_ifs
    · exact h.of_quiet (quiet_setThread rfl rfl rfl subset_rfl (hsame next))
    · exact h
  | unlock next => exact h.of_quiet (quiet_setThread rfl rfl rfl subset_rfl (hsame next))
  | sendMessage client message next =>
    obtain ⟨hlength, hmid⟩ := hsend client message next hprogram
    exact h.sendHeader hsending hlength hmid rfl
  | clients next => exact h.of_quiet (quiet_setThread rfl rfl rfl subset_rfl (hsame _))
  | usernames next => exact h.of_quiet (quiet_setThread rfl rfl rfl subset_rfl (hsame _))
  | find username next => exact h.of_quiet (quiet_setThread rfl rfl rfl subset_rfl (hsame _))
  | index username next =>
    refine h.of_quiet (quiet_setThread rfl rfl rfl ?_ (hsame _))
    change (s.directory.index username).1.opened ⊆ s.directory.opened
    unfold Directory.index
    split <;> exact subset_rfl
  | assign username socket next =>
    exact h.of_quiet (quiet_setThread rfl rfl rfl subset_rfl (hsame next))
  | remove socket next => exact h.of_quiet (quiet_setThread rfl rfl rfl subset_rfl (hsame next))
  | close socket next =>
    exact h.of_quiet (quiet_setThread rfl rfl rfl (Finset.erase_subset _ _) (hsame next))

theorem Framing.effect {s s' : State ι} (h : s.Framing) {a : Action ι} (ha : s.Separate a)
    (heffect : s.Effect a s') : s'.Framing := by
  cases heffect with
  | none => exact h
  | accept socket _ => exact h.accept ha
  | start hi _ =>
    refine h.of_quiet (quiet_setThread rfl rfl rfl subset_rfl ?_)
    rw [State.sending, hi]
    rfl
  | begins _ hi _ hbegins =>
    exact h.of_quiet (quiet_setThread rfl rfl rfl subset_rfl
      (hbegins.sending.trans (sending_of_thread hi).symm))
  | perform hi ht => exact h.perform hi ht fun client message next => ha _ client message next hi ht
  | sendBody hi ht => exact h.sendBody ((sending_of_thread hi).trans ht)

omit [DecidableEq ι] in
theorem framing_init : (init : State ι).Framing := by
  refine ⟨?_, ?_, ?_, ?_, ?_⟩ <;> simp [init, sending]

end State

end BuildYourOwnStuff.ChatServer
