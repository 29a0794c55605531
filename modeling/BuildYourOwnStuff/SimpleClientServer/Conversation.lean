import BuildYourOwnStuff.SimpleClientServer.Parties

/-!
# The conversation

At most one message is under way, first the line to the server and then the response to
the client. So the responses answer the lines in order, and the two never wait for each
other, but after an empty line: the server waits for a body of no bytes.
-/

namespace BuildYourOwnStuff.SimpleClientServer

open Foundations GoStd CppStd ChatServer

/-- The bytes of its message that a party is still to send. -/
def ClientPlace.unsent : ClientPlace → Bytes
  | sendLength msg => frame msg
  | sendBody msg => msg
  | _ => []

def ServerPlace.unsent : ServerPlace → Bytes
  | sendLength response => frame response
  | sendBody response => response
  | _ => []

namespace Conversation

/-- Where the client is when it has sent a line. -/
def afterSend (msg : Bytes) : ClientPlace := if msg = exit then .closed else .receiveLength

@[simp] theorem unsent_afterSend (msg : Bytes) : (afterSend msg).unsent = [] := by
  rw [afterSend]
  split_ifs <;> rfl

/-- No line is under way. -/
structure Idle (done : List Bytes) (s : Conversation) : Prop where
  typed : s.typed = done
  serverOutput : s.serverOutput = done.map serverShown
  client : s.client = .getline
  server : s.server = .receiveLength
  toServer : s.toServer = []
  toClient : s.toClient = []

/-- The server has not taken all of a line. -/
structure Asking (done : List Bytes) (msg : Bytes) (s : Conversation) : Prop where
  typed : s.typed = done ++ [msg]
  serverOutput : s.serverOutput = done.map serverShown
  client : s.client = .sendLength msg ∨ s.client = .sendBody msg ∨ s.client = afterSend msg
  server : s.server = .receiveLength ∧ s.toServer ++ s.client.unsent = frame msg ∨
    s.server = .receiveBody msg.length ∧ s.toServer ++ s.client.unsent = msg
  toClient : s.toClient = []

/-- The client has not taken all of the response to a line. -/
structure Answering (done : List Bytes) (msg : Bytes) (s : Conversation) : Prop where
  ne : msg ≠ exit
  typed : s.typed = done ++ [msg]
  serverOutput : s.serverOutput = (done ++ [msg]).map serverShown
  server : s.server = .sendLength (responseTo msg) ∨ s.server = .sendBody (responseTo msg) ∨
    s.server = .receiveLength
  client : s.client = .receiveLength ∧ s.toClient ++ s.server.unsent = frame (responseTo msg) ∨
    s.client = .receiveBody (responseTo msg).length ∧
      s.toClient ++ s.server.unsent = responseTo msg
  toServer : s.toServer = []

/-- Both parties have left. -/
structure Ended (done : List Bytes) (s : Conversation) : Prop where
  typed : s.typed = done ++ [exit]
  serverOutput : s.serverOutput = done.map serverShown
  client : s.client = .closed
  server : s.server = .closed

/-- What holds throughout the conversation. -/
structure Agreed (input done : List Bytes) (s : Conversation) : Prop where
  input : s.typed ++ s.input = input
  notMem : exit ∉ done
  clientOutput : s.clientOutput = done.map fun msg => clientShown (responseTo msg)
  stage : Idle done s ∨ (∃ msg, Asking done msg s) ∨ (∃ msg, Answering done msg s) ∨ Ended done s

section Receiving

theorem responseTo_ne_nil (msg : Bytes) : responseTo msg ≠ [] := by
  simp [responseTo, ascii]

theorem zero_notMem_responseTo {msg : Bytes} (h : 0 ∉ msg) : 0 ∉ responseTo msg := by
  rw [responseTo, List.mem_append, not_or]
  exact ⟨by decide, h⟩

theorem frameHeader_ne_nil (m : Bytes) : frameHeader m ≠ [] := by
  intro h
  have := congrArg List.length h
  simp [frameHeader] at this

theorem recv_frameHeader {portion : ℕ+} (h : 4 ≤ (portion : ℕ)) (m t : Bytes) :
    recv portion 4 (frameHeader m ++ t) = (frameHeader m, t) := by
  rw [recv, min_eq_right h]
  exact Prod.ext (List.take_left' (length_beBytes 4 _)) (List.drop_left' (length_beBytes 4 _))

theorem bufferFor_frameHeader {m : Bytes} (h : m.length < 2 ^ 31 - 1) (uninit : Word) :
    bufferFor uninit (frameHeader m) = some m.length := by
  rw [bufferFor, beNat_frameHeader (by omega)]
  exact if_pos h

theorem receive_nil (portion : ℕ+) (requested : ℕ) : receive portion requested [] false = none :=
  if_pos ⟨rfl, rfl⟩

/-- A body that is there is taken. -/
theorem receive_all {portion : ℕ+} {m : Bytes} (hne : m ≠ []) (h : m.length ≤ (portion : ℕ))
    (hasClosed : Bool) : receive portion m.length m hasClosed = some (m, []) := by
  have hnot : ¬ (m = [] ∧ hasClosed = false) := fun hnil => hne hnil.1
  rw [receive, if_neg hnot, recv, min_eq_right h, List.take_length, List.drop_length]

theorem receive_header {portion : ℕ+} (h : 4 ≤ (portion : ℕ)) (m t : Bytes) (hasClosed : Bool) :
    receive portion 4 (frameHeader m ++ t) hasClosed = some (frameHeader m, t) := by
  have hnot : ¬ (frameHeader m ++ t = [] ∧ hasClosed = false) := by
    rintro ⟨hnil, -⟩
    exact frameHeader_ne_nil m (List.append_eq_nil_iff.mp hnil).1
  rw [receive, if_neg hnot, recv_frameHeader h]

/-- Of a frame, nothing has been sent or the whole length. -/
theorem header_of_frame {stream unsent m : Bytes} (h : stream ++ unsent = frame m)
    (hunsent : unsent = frame m ∨ unsent = m ∨ unsent = []) :
    stream = [] ∧ unsent = frame m ∨ ∃ t, stream = frameHeader m ++ t ∧ t ++ unsent = m := by
  rcases hunsent with rfl | rfl | rfl
  · exact .inl ⟨List.append_left_eq_self.mp h, rfl⟩
  · exact .inr ⟨[], by rw [List.append_nil]; exact List.append_cancel_right h, rfl⟩
  · exact .inr ⟨m, by rw [← frame, ← h, List.append_nil], List.append_nil m⟩

/-- Of a body, nothing has been sent or all of it. -/
theorem body_of_message {stream unsent m : Bytes} (h : stream ++ unsent = m)
    (hunsent : unsent = frame m ∨ unsent = m ∨ unsent = []) :
    stream = m ∧ unsent = [] ∨ stream = [] ∧ unsent = m := by
  rcases hunsent with rfl | rfl | rfl
  · have := congrArg List.length h
    simp [frame, frameHeader] at this
    omega
  · exact .inr ⟨List.append_left_eq_self.mp h, rfl⟩
  · exact .inl ⟨by rw [← h, List.append_nil], rfl⟩

end Receiving

/-- What is left to do at a place. A line stands for the steps of both parties. -/
def clientWork : ClientPlace → ℕ
  | .sendLength msg => 10 * (4 + msg.length) + 2
  | .sendBody msg => 10 * msg.length + 1
  | .receiveBody _ => 1
  | _ => 0

theorem clientWork_afterSend (msg : Bytes) :
    clientWork (if msg = exit then .closed else .receiveLength) = 0 := by
  split_ifs <;> rfl

def serverWork : ServerPlace → ℕ
  | .receiveBody _ => 30
  | .sendLength response => response.length + 6
  | .sendBody response => response.length + 1
  | _ => 0

def work (s : Conversation) : ℕ :=
  (s.input.map fun msg => 10 * (4 + msg.length) + 3).sum + clientWork s.client +
    serverWork s.server + 10 * s.toServer.length + s.toClient.length

variable {input done : List Bytes} {s : Conversation} {portion : ℕ+} {uninit : Word}

/-- A step leads on in the conversation, or it has to wait. -/
structure LeadsTo (input : List Bytes) (s s' : Conversation) : Prop where
  agreed : ∃ done, Agreed input done s'
  work : s' = s ∨ s'.work < s.work

theorem Agreed.waits (h : Agreed input done s) {s' : Conversation} (hs : s' = s) :
    LeadsTo input s s' :=
  ⟨⟨done, hs ▸ h⟩, .inl hs⟩

theorem Agreed.client_idle (h : Agreed input done s) (hidle : Idle done s) :
    LeadsTo input s (s.stepClient portion uninit) := by
  have htyped := h.input
  simp only [stepClient, hidle.client]
  cases hin : s.input with
  | nil => exact h.waits rfl
  | cons msg rest =>
    rw [hin] at htyped
    refine ⟨⟨done, ?_, h.notMem, h.clientOutput, .inr (.inl ⟨msg, ?_⟩)⟩, .inr ?_⟩
    · rw [← htyped, List.append_assoc, List.singleton_append]
    · refine ⟨by rw [hidle.typed], hidle.serverOutput, .inl rfl, .inl ⟨hidle.server, ?_⟩,
        hidle.toClient⟩
      rw [hidle.toServer]
      rfl
    · simp only [work, hin, hidle.client, clientWork, List.map_cons, List.sum_cons]
      omega

theorem Asking.server_open {msg : Bytes} (hasking : Asking done msg s) :
    s.server.hasClosed = false := by
  rcases hasking.server with ⟨hs, -⟩ | ⟨hs, -⟩ <;> rw [hs] <;> rfl

/-- A client that has sent a line waits for its response. -/
theorem Asking.stepClient_eq {msg : Bytes} (hasking : Asking done msg s)
    (hclient : s.client = afterSend msg) : s.stepClient portion uninit = s := by
  rw [afterSend] at hclient
  split_ifs at hclient
  · simp only [stepClient, hclient]
  · simp only [stepClient, hclient, hasking.toClient, hasking.server_open, receive_nil]

/-- A step before the line was taken, of which the client shows nothing. -/
structure AskingStep (done : List Bytes) (msg : Bytes) (s s' : Conversation) : Prop where
  asking : Asking done msg s'
  input : s'.input = s.input
  clientOutput : s'.clientOutput = s.clientOutput
  work : s' = s ∨ s'.work < s.work

theorem Asking.waits {msg : Bytes} (hasking : Asking done msg s) {s' : Conversation}
    (hs : s' = s) : AskingStep done msg s s' :=
  ⟨hs ▸ hasking, hs ▸ rfl, hs ▸ rfl, .inl hs⟩

/-- The client sends the line. -/
theorem Asking.client_step {msg : Bytes} (hasking : Asking done msg s) :
    AskingStep done msg s (s.stepClient portion uninit) := by
  have hsent := hasking.server
  rcases hasking.client with hclient | hclient | hclient
  · rw [hclient] at hsent
    simp only [stepClient, hclient]
    refine ⟨⟨hasking.typed, hasking.serverOutput, .inr (.inl rfl), ?_, hasking.toClient⟩, rfl, rfl,
      .inr ?_⟩
    · simpa [ClientPlace.unsent, frame] using hsent
    · simp only [work, hclient, clientWork, List.length_append, frameHeader, length_beBytes]
      omega
  · rw [hclient] at hsent
    simp only [stepClient, hclient]
    refine ⟨⟨hasking.typed, hasking.serverOutput, .inr (.inr rfl), ?_, hasking.toClient⟩, rfl, rfl,
      .inr ?_⟩
    · change _ ∧ _ ++ (afterSend msg).unsent = _ ∨ _ ∧ _ ++ (afterSend msg).unsent = _
      rw [unsent_afterSend, List.append_nil]
      exact hsent
    · simp only [work, hclient, clientWork_afterSend, List.length_append]
      simp only [clientWork]
      omega
  · exact hasking.waits (hasking.stepClient_eq hclient)

theorem Agreed.of_askingStep (h : Agreed input done s) {msg : Bytes} (hasking : Asking done msg s)
    {s' : Conversation} (hstep : AskingStep done msg s s') : LeadsTo input s s' := by
  refine ⟨⟨done, ?_, h.notMem, ?_, .inr (.inl ⟨msg, hstep.asking⟩)⟩, hstep.work⟩
  · rw [hstep.asking.typed, hstep.input, ← hasking.typed, h.input]
  · rw [hstep.clientOutput, h.clientOutput]

theorem Answering.unsent {msg : Bytes} (hans : Answering done msg s) :
    s.server.unsent = frame (responseTo msg) ∨ s.server.unsent = responseTo msg ∨
      s.server.unsent = [] := by
  rcases hans.server with hs | hs | hs <;> rw [hs]
  · exact .inl rfl
  · exact .inr (.inl rfl)
  · exact .inr (.inr rfl)

theorem Answering.server_open {msg : Bytes} (hans : Answering done msg s) :
    s.server.hasClosed = false := by
  rcases hans.server with hs | hs | hs <;> rw [hs] <;> rfl

theorem Agreed.client_answering (h : Agreed input done s) {msg : Bytes}
    (hans : Answering done msg s) (hmsg : Typeable msg) (hfull : s.Full (.client portion uninit)) :
    LeadsTo input s (s.stepClient portion uninit) := by
  rcases hans.client with ⟨hclient, hstream⟩ | ⟨hclient, hstream⟩
  · rcases header_of_frame hstream hans.unsent with ⟨hnil, -⟩ | ⟨t, ht, hrest⟩
    · refine h.waits ?_
      simp only [stepClient, hclient, hnil, hans.server_open, receive_nil]
    · simp only [stepClient, hclient, ht, receive_header (hfull.1 hclient),
        bufferFor_frameHeader hmsg.length_lt]
      refine ⟨⟨done, h.input, h.notMem, h.clientOutput, .inr (.inr (.inl ⟨msg, ?_⟩))⟩, .inr ?_⟩
      · exact ⟨hans.ne, hans.typed, hans.serverOutput, hans.server, .inr ⟨rfl, hrest⟩,
          hans.toServer⟩
      · simp only [work, hclient, ht, clientWork, List.length_append, frameHeader, length_beBytes]
        omega
  · rcases body_of_message hstream hans.unsent with ⟨ht, hunsent⟩ | ⟨hnil, -⟩
    · have hserver : s.server = .receiveLength := by
        rcases hans.server with hs | hs | hs
        · rw [hs] at hunsent
          exact absurd (List.append_eq_nil_iff.mp hunsent).1 (frameHeader_ne_nil _)
        · rw [hs] at hunsent
          exact absurd hunsent (responseTo_ne_nil msg)
        · exact hs
      simp only [stepClient, hclient, ht,
        receive_all (responseTo_ne_nil msg) (hfull.2 _ hclient),
        cString_eq_self (zero_notMem_responseTo hmsg.zero_notMem)]
      refine ⟨⟨done ++ [msg], h.input, ?_, ?_, .inl ?_⟩, .inr ?_⟩
      · simp [h.notMem, hans.ne.symm]
      · rw [h.clientOutput, List.map_append, List.map_singleton]
      · exact ⟨hans.typed, hans.serverOutput, rfl, hserver, hans.toServer, rfl⟩
      · simp only [work, hclient, clientWork, List.length_nil]
        omega
    · refine h.waits ?_
      simp only [stepClient, hclient, hnil, hans.server_open, receive_nil]

theorem Asking.unsent {msg : Bytes} (hasking : Asking done msg s) :
    s.client.unsent = frame msg ∨ s.client.unsent = msg ∨ s.client.unsent = [] := by
  rcases hasking.client with hc | hc | hc <;> rw [hc]
  · exact .inl rfl
  · exact .inr (.inl rfl)
  · exact .inr (.inr (unsent_afterSend msg))

/-- When the client has sent a line, it waits for the response or has left. -/
theorem Asking.client_of_unsent {msg : Bytes} (hasking : Asking done msg s) (hmsg : msg ≠ [])
    (h : s.client.unsent = []) : s.client = afterSend msg := by
  rcases hasking.client with hc | hc | hc
  · rw [hc] at h
    exact absurd (List.append_eq_nil_iff.mp h).1 (frameHeader_ne_nil _)
  · rw [hc] at h
    exact absurd h hmsg
  · exact hc

theorem hasClosed_of_unsent {place : ClientPlace} (h : place.unsent ≠ []) :
    place.hasClosed = false := by
  cases place with
  | closed => exact absurd rfl h
  | crashed => exact absurd rfl h
  | _ => rfl

/-- The server takes a length that is there. -/
theorem stepServer_header {msg rest : Bytes} (hlength : msg.length < 2 ^ 31 - 1)
    (hserver : s.server = .receiveLength) (hstream : s.toServer = frameHeader msg ++ rest)
    (hfull : s.Full (.server portion uninit)) :
    s.stepServer portion uninit =
      { s with server := .receiveBody msg.length, toServer := rest } := by
  simp only [stepServer, hserver, hstream, receive_header (hfull.1 hserver),
    bufferFor_frameHeader hlength]

/-- The server waits for the length of the line, or it takes it. -/
theorem Asking.server_receiveLength {msg : Bytes} (hasking : Asking done msg s)
    (hlength : msg.length < 2 ^ 31 - 1) (hserver : s.server = .receiveLength)
    (hfull : s.Full (.server portion uninit)) :
    AskingStep done msg s (s.stepServer portion uninit) := by
  have hstream : s.toServer ++ s.client.unsent = frame msg := by
    rcases hasking.server with ⟨-, hstream⟩ | ⟨hs, -⟩
    · exact hstream
    · rw [hserver] at hs
      cases hs
  rcases header_of_frame hstream hasking.unsent with ⟨hnil, hunsent⟩ | ⟨t, ht, hrest⟩
  · have hopen : s.client.hasClosed = false := by
      refine hasClosed_of_unsent ?_
      rw [hunsent]
      exact fun hframe => frameHeader_ne_nil _ (List.append_eq_nil_iff.mp hframe).1
    refine hasking.waits ?_
    simp only [stepServer, hserver, hnil, hopen, receive_nil]
  · rw [stepServer_header hlength hserver ht hfull]
    refine ⟨?_, rfl, rfl, .inr ?_⟩
    · exact ⟨hasking.typed, hasking.serverOutput, hasking.client, .inr ⟨rfl, hrest⟩,
        hasking.toClient⟩
    · simp only [work, hserver, ht, serverWork, List.length_append, frameHeader, length_beBytes]
      omega

theorem Agreed.server_asking (h : Agreed input done s) {msg : Bytes} (hasking : Asking done msg s)
    (hmsg : Typeable msg) (hfull : s.Full (.server portion uninit)) :
    LeadsTo input s (s.stepServer portion uninit) := by
  have hlength : msg.length < 2 ^ 31 - 1 := by
    have := hmsg.length_lt
    rw [responseTo, List.length_append] at this
    omega
  rcases hasking.server with ⟨hserver, -⟩ | ⟨hserver, hstream⟩
  · exact h.of_askingStep hasking (hasking.server_receiveLength hlength hserver hfull)
  · rcases body_of_message hstream hasking.unsent with ⟨ht, hunsent⟩ | ⟨hnil, hunsent⟩
    · have hclient := hasking.client_of_unsent hmsg.ne_nil hunsent
      rw [afterSend] at hclient
      simp only [stepServer, hserver, ht, receive_all hmsg.ne_nil (hfull.2 _ hserver),
        cString_eq_self hmsg.zero_notMem]
      split_ifs at hclient ⊢ with hexit
      · subst hexit
        refine ⟨⟨done, h.input, h.notMem, h.clientOutput, .inr (.inr (.inr ?_))⟩, .inr ?_⟩
        · exact ⟨hasking.typed, hasking.serverOutput, hclient, rfl⟩
        · simp only [work, hserver, serverWork, List.length_nil]
          omega
      · refine ⟨⟨done, h.input, h.notMem, h.clientOutput, .inr (.inr (.inl ⟨msg, ?_⟩))⟩, .inr ?_⟩
        · refine ⟨hexit, hasking.typed, ?_, .inl rfl, .inl ⟨hclient, ?_⟩, rfl⟩
          · rw [hasking.serverOutput, List.map_append, List.map_singleton]
          · rw [hasking.toClient]
            rfl
        · have hresponse : (responseTo msg).length = 10 + msg.length := by
            rw [responseTo, List.length_append]
            rfl
          simp only [work, hserver, ht, serverWork, List.length_nil, hresponse]
          omega
    · have hopen : s.client.hasClosed = false :=
        hasClosed_of_unsent (by rw [hunsent]; exact hmsg.ne_nil)
      refine h.waits ?_
      simp only [stepServer, hserver, hnil, hopen, receive_nil]

theorem Answering.client_open {msg : Bytes} (hans : Answering done msg s) :
    s.client.hasClosed = false := by
  rcases hans.client with ⟨hc, -⟩ | ⟨hc, -⟩ <;> rw [hc] <;> rfl

theorem Agreed.server_answering (h : Agreed input done s) {msg : Bytes}
    (hans : Answering done msg s) : LeadsTo input s (s.stepServer portion uninit) := by
  have hclient := hans.client
  rcases hans.server with hserver | hserver | hserver
  · rw [hserver] at hclient
    simp only [stepServer, hserver]
    refine ⟨⟨done, h.input, h.notMem, h.clientOutput, .inr (.inr (.inl ⟨msg, ?_⟩))⟩, .inr ?_⟩
    · refine ⟨hans.ne, hans.typed, hans.serverOutput, .inr (.inl rfl), ?_, hans.toServer⟩
      simpa [ServerPlace.unsent, frame] using hclient
    · simp only [work, hserver, serverWork, List.length_append, frameHeader, length_beBytes]
      omega
  · rw [hserver] at hclient
    simp only [stepServer, hserver]
    refine ⟨⟨done, h.input, h.notMem, h.clientOutput, .inr (.inr (.inl ⟨msg, ?_⟩))⟩, .inr ?_⟩
    · refine ⟨hans.ne, hans.typed, hans.serverOutput, .inr (.inr rfl), ?_, hans.toServer⟩
      simpa only [ServerPlace.unsent, List.append_nil] using hclient
    · simp only [work, hserver, serverWork, List.length_append]
      omega
  · refine h.waits ?_
    simp only [stepServer, hserver, hans.toServer, hans.client_open,
      receive_nil]

/-- With full reads, each step of the conversation leads on or has to wait. -/
theorem Agreed.step (hinput : ∀ msg ∈ input, Typeable msg) (h : Agreed input done s) {a : Action}
    (hfull : s.Full a) : LeadsTo input s (s.step a) := by
  have htypeable : ∀ msg, s.typed = done ++ [msg] → Typeable msg := fun msg htyped =>
    hinput msg (by rw [← h.input, htyped]; simp)
  cases a with
  | client portion uninit =>
    rcases h.stage with hidle | ⟨msg, hasking⟩ | ⟨msg, hans⟩ | hended
    · exact h.client_idle hidle
    · exact h.of_askingStep hasking hasking.client_step
    · exact h.client_answering hans (htypeable msg hans.typed) hfull
    · exact h.waits (by simp only [Conversation.step, stepClient, hended.client])
  | server portion uninit =>
    rcases h.stage with hidle | ⟨msg, hasking⟩ | ⟨msg, hans⟩ | hended
    · refine h.waits ?_
      simp only [Conversation.step, stepServer, hidle.server, hidle.toServer, hidle.client,
        ClientPlace.hasClosed, receive_nil]
    · exact h.server_asking hasking (htypeable msg hasking.typed) hfull
    · exact h.server_answering hans
    · exact h.waits (by simp only [Conversation.step, stepServer, hended.server])

/-- There is always a portion that is large enough. -/
theorem exists_full_client (s : Conversation) : ∃ portion, s.Full (.client portion zeroWord) := by
  by_cases h : ∃ length, s.client = .receiveBody length
  · obtain ⟨length, hlength⟩ := h
    refine ⟨⟨length + 4, by omega⟩, fun _ => by simp, fun n hn => ?_⟩
    obtain rfl := ClientPlace.receiveBody.inj (hlength.symm.trans hn)
    simp
  · exact ⟨4, fun _ => le_rfl, fun n hn => absurd ⟨n, hn⟩ h⟩

theorem exists_full_server (s : Conversation) : ∃ portion, s.Full (.server portion zeroWord) := by
  by_cases h : ∃ length, s.server = .receiveBody length
  · obtain ⟨length, hlength⟩ := h
    refine ⟨⟨length + 4, by omega⟩, fun _ => by simp, fun n hn => ?_⟩
    obtain rfl := ServerPlace.receiveBody.inj (hlength.symm.trans hn)
    simp
  · exact ⟨4, fun _ => le_rfl, fun n hn => absurd ⟨n, hn⟩ h⟩

/-- Nothing that the two could do changes anything. -/
def Stuck (s : Conversation) : Prop := ∀ a, s.Full a → s.step a = s

/-- A party that could go on is at the place where it would be then. -/
theorem Stuck.client_eq (h : s.Stuck) (hfull : s.Full (.client portion uninit)) :
    s.client = (s.stepClient portion uninit).client :=
  (congrArg Conversation.client (h _ hfull)).symm

theorem Stuck.server_eq (h : s.Stuck) (hfull : s.Full (.server portion uninit)) :
    s.server = (s.stepServer portion uninit).server :=
  (congrArg Conversation.server (h _ hfull)).symm

theorem Stuck.not_asking (h : s.Stuck) {msg : Bytes} (hmsg : Typeable msg)
    (hasking : Asking done msg s) : False := by
  obtain ⟨portion, hfull⟩ := s.exists_full_client
  have hclient := h.client_eq hfull
  rcases hasking.client with hc | hc | hc
  · simp [stepClient, hc] at hclient
  · simp only [stepClient, hc] at hclient
    split_ifs at hclient
  · obtain ⟨portion', hfull'⟩ := s.exists_full_server
    have hserver := h.server_eq hfull'
    have hplace := hasking.server
    rw [hc, unsent_afterSend, List.append_nil] at hplace
    rcases hplace with ⟨hs, hstream⟩ | ⟨hs, hstream⟩
    · have hlength : msg.length < 2 ^ 31 - 1 := by
        have := hmsg.length_lt
        rw [responseTo, List.length_append] at this
        omega
      rw [stepServer_header hlength hs hstream hfull', hs] at hserver
      cases hserver
    · simp only [stepServer, hs, hstream, receive_all hmsg.ne_nil (hfull'.2 _ hs)] at hserver
      split_ifs at hserver

theorem Stuck.not_answering (h : s.Stuck) {msg : Bytes} (hmsg : Typeable msg)
    (hans : Answering done msg s) : False := by
  obtain ⟨portion, hfull⟩ := s.exists_full_server
  have hserver := h.server_eq hfull
  rcases hans.server with hs | hs | hs
  · simp [stepServer, hs] at hserver
  · simp [stepServer, hs] at hserver
  · obtain ⟨portion', hfull'⟩ := s.exists_full_client
    have hclient := h.client_eq hfull'
    have hplace := hans.client
    rw [hs, show ServerPlace.receiveLength.unsent = [] from rfl, List.append_nil] at hplace
    rcases hplace with ⟨hc, hstream⟩ | ⟨hc, hstream⟩
    · simp [stepClient, hc, hstream, frame, receive_header (hfull'.1 hc),
        bufferFor_frameHeader hmsg.length_lt] at hclient
    · simp [stepClient, hc, hstream, receive_all (responseTo_ne_nil msg) (hfull'.2 _ hc)]
        at hclient

/-- The lines before the one that ends the conversation. -/
def said (input : List Bytes) : List Bytes := input.takeWhile fun msg => decide (msg ≠ exit)

theorem said_eq_self (h : exit ∉ done) : said done = done :=
  List.takeWhile_eq_self_iff.mpr fun _ hmem => decide_eq_true (ne_of_mem_of_not_mem hmem h)

theorem said_append_exit (h : exit ∉ done) (rest : List Bytes) :
    said (done ++ exit :: rest) = done := by
  have hdone : ∀ msg ∈ done, decide (msg ≠ exit) = true := fun _ hmem =>
    decide_eq_true (ne_of_mem_of_not_mem hmem h)
  rw [said, List.takeWhile_append_of_pos hdone]
  simp

/-- Every line was shown and answered. Both have left if the conversation was ended, and else
the client waits for the user and the server for the client. -/
structure Complete (input : List Bytes) (s : Conversation) : Prop where
  clientOutput : s.clientOutput = (said input).map fun msg => clientShown (responseTo msg)
  serverOutput : s.serverOutput = (said input).map serverShown
  closed : exit ∈ input → s.client = .closed ∧ s.server = .closed
  waiting : exit ∉ input → s.client = .getline ∧ s.server = .receiveLength

/-- The two never wait for each other. -/
theorem Agreed.complete_of_stuck (hinput : ∀ msg ∈ input, Typeable msg) (h : Agreed input done s)
    (hstuck : s.Stuck) : Complete input s := by
  have htypeable : ∀ msg, s.typed = done ++ [msg] → Typeable msg := fun msg htyped =>
    hinput msg (by rw [← h.input, htyped]; simp)
  rcases h.stage with hidle | ⟨msg, hasking⟩ | ⟨msg, hans⟩ | hended
  · have hnil : s.input = [] := by
      obtain ⟨portion, hfull⟩ := s.exists_full_client
      have hclient := hstuck.client_eq hfull
      cases hin : s.input with
      | nil => rfl
      | cons msg rest => simp [stepClient, hidle.client, hin] at hclient
    have hdone : input = done := by rw [← h.input, hnil, hidle.typed, List.append_nil]
    have hsaid : said input = done := by
      rw [hdone, said_eq_self h.notMem]
    refine ⟨by rw [hsaid, h.clientOutput], by rw [hsaid, hidle.serverOutput], fun hmem => ?_,
      fun _ => ⟨hidle.client, hidle.server⟩⟩
    rw [hdone] at hmem
    exact absurd hmem h.notMem
  · exact (hstuck.not_asking (htypeable msg hasking.typed) hasking).elim
  · exact (hstuck.not_answering (htypeable msg hans.typed) hans).elim
  · have hsplit : input = done ++ exit :: s.input := by
      rw [← h.input, hended.typed, List.append_assoc]
      rfl
    have hsaid : said input = done := by
      rw [hsplit, said_append_exit h.notMem]
    refine ⟨by rw [hsaid, h.clientOutput], by rw [hsaid, hended.serverOutput],
      fun _ => ⟨hended.client, hended.server⟩, fun hmem => absurd ?_ hmem⟩
    rw [hsplit]
    simp

theorem agreed_init (input : List Bytes) : Agreed input [] (init input) where
  input := rfl
  notMem := List.not_mem_nil
  clientOutput := rfl
  stage := .inl ⟨rfl, rfl, rfl, rfl, rfl, rfl⟩

theorem agreed_run (hinput : ∀ msg ∈ input, Typeable msg) {actions : List Action}
    (hfull : AllSteps step Full (init input) actions) :
    ∃ done, Agreed input done (actions.foldl step (init input)) :=
  (allStates_of_allSteps (I := fun s => ∃ done, Agreed input done s)
    (fun _ _ ⟨_, h⟩ ha => (h.step hinput ha).agreed) (fun _ h => h) ⟨[], agreed_init input⟩
    hfull).last

section EmptyLine

theorem Asking.client_open_nil (hasking : Asking done [] s) : s.client.hasClosed = false := by
  rcases hasking.client with hc | hc | hc <;> rw [hc] <;> rfl

/-- The server waits for the body of an empty line. -/
theorem Asking.server_waits_nil (hasking : Asking done [] s) (hserver : s.server = .receiveBody 0) :
    s.toServer = [] ∧ s.stepServer portion uninit = s := by
  have hnil : s.toServer = [] := by
    rcases hasking.server with ⟨hs, -⟩ | ⟨-, hstream⟩
    · rw [hserver] at hs
      cases hs
    · exact (List.append_eq_nil_iff.mp hstream).1
  exact ⟨hnil, by simp only [stepServer, hserver, hnil, hasking.client_open_nil, receive_nil]⟩

/-- An empty line stays under way. -/
theorem Asking.step_nil (hasking : Asking done [] s) {a : Action} (hfull : s.Full a) :
    AskingStep done [] s (s.step a) := by
  cases a with
  | client portion uninit => exact hasking.client_step
  | server portion uninit =>
    rcases hasking.server with ⟨hserver, -⟩ | ⟨hserver, -⟩
    · exact hasking.server_receiveLength (by decide) hserver hfull
    · exact hasking.waits (hasking.server_waits_nil hserver).2

/-- They come to a stop when each waits for the other: the client for a response, and the server
for a body of no bytes. -/
theorem Asking.stuck_iff_nil (hasking : Asking done [] s) :
    s.Stuck ↔ s.client = .receiveLength ∧ s.server = .receiveBody 0 := by
  constructor
  · intro hstuck
    obtain ⟨portion, hfull⟩ := s.exists_full_client
    obtain ⟨portion', hfull'⟩ := s.exists_full_server
    have hclient : s.client = .receiveLength := by
      have hkept := hstuck.client_eq hfull
      rcases hasking.client with hc | hc | hc
      · simp [stepClient, hc] at hkept
      · simp only [stepClient, hc] at hkept
        split_ifs at hkept
      · exact hc
    refine ⟨hclient, ?_⟩
    rcases hasking.server with ⟨hserver, hstream⟩ | ⟨hserver, -⟩
    · rw [hclient] at hstream
      have hframe : s.toServer = frame [] := (List.append_nil _).symm.trans hstream
      have hkept := hstuck.server_eq hfull'
      rw [stepServer_header (by decide) hserver hframe hfull', hserver] at hkept
      cases hkept
    · exact hserver
  · rintro ⟨hclient, hserver⟩ (⟨portion, uninit⟩ | ⟨portion, uninit⟩) -
    · exact hasking.stepClient_eq hclient
    · exact (hasking.server_waits_nil hserver).2

/-- An empty line is never answered: whatever the two do, the client shows nothing more, and they
can go on until each waits for the other. -/
theorem Asking.deadlocks (hasking : Asking done [] s) {actions : List Action}
    (hfull : AllSteps step Full s actions) :
    let s' := actions.foldl step s
    s'.clientOutput = s.clientOutput ∧
    (s'.Stuck ↔ s'.client = .receiveLength ∧ s'.server = .receiveBody 0) ∧
    ∃ more, AllSteps step Full s' more ∧ (more.foldl step s').Stuck := by
  obtain ⟨hlast, houtput⟩ := (allStates_of_allSteps
    (I := fun s' => Asking done [] s' ∧ s'.clientOutput = s.clientOutput)
    (fun _ _ h ha => ⟨(h.1.step_nil ha).asking, (h.1.step_nil ha).clientOutput.trans h.2⟩)
    (fun _ h => h) ⟨hasking, rfl⟩ hfull).last
  refine ⟨houtput, hlast.stuck_iff_nil, ?_⟩
  obtain ⟨more, hsteps, hend⟩ := exists_stuck (I := Asking done []) (P := Full)
    (fun _ _ h ha => (h.step_nil ha).asking)
    (fun _ _ h ha hne => (h.step_nil ha).work.resolve_left hne) hlast
  exact ⟨more, hsteps.mono fun _ _ h => h.1, hend⟩

end EmptyLine

/-- In every run with full reads, the client shows the responses to the lines typed so far, in
order, but perhaps for the last line, and the server shows the lines, but perhaps for the last one.
The two never wait for each other: they stop when every line was answered up to the one that ends
the conversation, and they can always go on until then. -/
theorem conversation_exact (input : List Bytes) (hinput : ∀ msg ∈ input, Typeable msg)
    (actions : List Action) (hfull : AllSteps step Full (init input) actions) :
    let s := actions.foldl step (init input)
    (∃ done last, s.typed = done ++ last ∧ last.length ≤ 1 ∧ s.typed <+: input ∧
      s.clientOutput = done.map (fun msg => clientShown (responseTo msg)) ∧
      (s.serverOutput = done.map serverShown ∨ s.serverOutput = s.typed.map serverShown)) ∧
    (s.Stuck → Complete input s) ∧
    ∃ more, AllSteps step Full s more ∧ Complete input (more.foldl step s) := by
  obtain ⟨done, h⟩ := agreed_run hinput hfull
  intro s
  refine ⟨?_, h.complete_of_stuck hinput, ?_⟩
  · have htyped : s.typed <+: input := ⟨s.input, h.input⟩
    rcases h.stage with hidle | ⟨msg, hasking⟩ | ⟨msg, hans⟩ | hended
    · exact ⟨done, [], by rw [List.append_nil]; exact hidle.typed, Nat.zero_le _, htyped,
        h.clientOutput, .inl hidle.serverOutput⟩
    · exact ⟨done, [msg], hasking.typed, le_rfl, htyped, h.clientOutput, .inl hasking.serverOutput⟩
    · refine ⟨done, [msg], hans.typed, le_rfl, htyped, h.clientOutput, .inr ?_⟩
      exact hans.serverOutput.trans (by rw [hans.typed])
    · exact ⟨done, [exit], hended.typed, le_rfl, htyped, h.clientOutput, .inl hended.serverOutput⟩
  · obtain ⟨more, hsteps, hend⟩ := exists_stuck (I := fun s => ∃ done, Agreed input done s)
      (P := Full) (fun _ _ ⟨_, h⟩ ha => (h.step hinput ha).agreed)
      (fun _ _ ⟨_, h⟩ ha hne => (h.step hinput ha).work.resolve_left hne) ⟨done, h⟩
    have hmore : AllSteps step Full s more := hsteps.mono fun _ _ h => h.1
    obtain ⟨done', h'⟩ := agreed_run hinput (hfull.append hmore)
    rw [List.foldl_append] at h'
    exact ⟨more, hmore, h'.complete_of_stuck hinput hend⟩

/-- The server has taken the length of the first line and not its body. -/
theorem conversation_exact_hi :
    let input := [ascii "hi", exit]
    let actions : List Action := [.client 4 zeroWord, .client 4 zeroWord, .server 4 zeroWord]
    let s := actions.foldl step (init input)
    (∃ done last, s.typed = done ++ last ∧ last.length ≤ 1 ∧ s.typed <+: input ∧
      s.clientOutput = done.map (fun msg => clientShown (responseTo msg)) ∧
      (s.serverOutput = done.map serverShown ∨ s.serverOutput = s.typed.map serverShown)) ∧
    (s.Stuck → Complete input s) ∧
    ∃ more, AllSteps step Full s more ∧ Complete input (more.foldl step s) := by
  refine conversation_exact [ascii "hi", exit] (by decide) _ ?_
  exact ⟨⟨nofun, nofun⟩, ⟨nofun, nofun⟩, ⟨fun _ => le_rfl, nofun⟩, trivial⟩

end Conversation

end BuildYourOwnStuff.SimpleClientServer
