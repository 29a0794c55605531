import BuildYourOwnStuff.ChatServer.Receive
import BuildYourOwnStuff.Foundations.Runs

/-!
# A client and a server

Each of the two sends a message in two calls, its length and its body, and takes one
in two calls of `recv`. The client sends a line and waits for the response; the server
responds to every message but the one that ends the conversation. A call of `send` takes all
the bytes and returns.
-/

namespace BuildYourOwnStuff.SimpleClientServer

open Foundations GoStd CppStd ChatServer

/-- `"exit"` -/
def exit : Bytes := ascii "exit"

/-- The places in the loop of the client's `main`. -/
inductive ClientPlace
  | getline
  | sendLength (msg : Bytes)
  | sendBody (msg : Bytes)
  | receiveLength
  | receiveBody (length : ℕ)
  | closed
  /-- A length that is not one of a buffer. -/
  | crashed
  deriving DecidableEq, Repr

/-- The places in the loop of the server's `main`. -/
inductive ServerPlace
  | receiveLength
  | receiveBody (length : ℕ)
  | sendLength (response : Bytes)
  | sendBody (response : Bytes)
  | closed
  | crashed
  deriving DecidableEq, Repr

/-- The two, the lines that the user is to type, and the bytes that are sent and not received.
What was read of the lines is recorded and not used. -/
structure Conversation where
  input : List Bytes
  client : ClientPlace
  server : ServerPlace
  toServer : Bytes
  toClient : Bytes
  typed : List Bytes
  clientOutput : List Bytes
  serverOutput : List Bytes
  deriving DecidableEq, Repr

/-- One of the two goes on. If that is a call of `recv`, a portion has arrived, and there may be
anything in the memory of the length. -/
inductive Action
  | client (portion : ℕ+) (uninit : Word)
  | server (portion : ℕ+) (uninit : Word)

/-- The connection is closed at the end of `main`, or because the process has ended. -/
def ClientPlace.hasClosed : ClientPlace → Bool
  | closed | crashed => true
  | _ => false

def ServerPlace.hasClosed : ServerPlace → Bool
  | closed | crashed => true
  | _ => false

/-- `recv`; `none` as long as it waits for bytes from a connection that is open, also if it asks
for none. -/
def receive (portion : ℕ+) (requested : ℕ) (stream : Bytes) (hasClosed : Bool) :
    Option (Bytes × Bytes) :=
  if stream = [] ∧ hasClosed = false then none else some (recv portion requested stream)

/-- The size of the buffer for a message; `none` if the length is negative or has no place for
the zero. -/
def bufferFor (uninit : Word) (received : Bytes) : Option ℕ :=
  let length := beNat (received ++ uninit.1.drop received.length)
  if length < 2 ^ 31 - 1 then some length else none

/-- What the client prints for a response, and the server for a message. -/
def clientShown (response : Bytes) : Bytes := ascii "Server -> " ++ response ++ ascii "\n"

def serverShown (msg : Bytes) : Bytes := ascii "Client: " ++ msg ++ ascii "\n"

def responseTo (msg : Bytes) : Bytes := ascii "Received: " ++ msg

namespace Conversation

def init (input : List Bytes) : Conversation :=
  ⟨input, .getline, .receiveLength, [], [], [], [], []⟩

def stepClient (s : Conversation) (portion : ℕ+) (uninit : Word) : Conversation :=
  match s.client with
  | .getline =>
    match s.input with
    | [] => s
    | msg :: input =>
      { s with input := input, client := .sendLength msg, typed := s.typed ++ [msg] }
  | .sendLength msg =>
    { s with client := .sendBody msg, toServer := s.toServer ++ frameHeader msg }
  | .sendBody msg =>
    { s with
      client := if msg = exit then .closed else .receiveLength
      toServer := s.toServer ++ msg }
  | .receiveLength =>
    match receive portion 4 s.toClient s.server.hasClosed with
    | none => s
    | some (received, rest) =>
      match bufferFor uninit received with
      | some length => { s with client := .receiveBody length, toClient := rest }
      | none => { s with client := .crashed, toClient := rest }
  | .receiveBody length =>
    match receive portion length s.toClient s.server.hasClosed with
    | none => s
    | some (received, rest) =>
      { s with
        client := .getline
        toClient := rest
        clientOutput := s.clientOutput ++ [clientShown (cString received)] }
  | .closed => s
  | .crashed => s

def stepServer (s : Conversation) (portion : ℕ+) (uninit : Word) : Conversation :=
  match s.server with
  | .receiveLength =>
    match receive portion 4 s.toServer s.client.hasClosed with
    | none => s
    | some (received, rest) =>
      match bufferFor uninit received with
      | some length => { s with server := .receiveBody length, toServer := rest }
      | none => { s with server := .crashed, toServer := rest }
  | .receiveBody length =>
    match receive portion length s.toServer s.client.hasClosed with
    | none => s
    | some (received, rest) =>
      if cString received = exit then { s with server := .closed, toServer := rest }
      else
        { s with
          server := .sendLength (responseTo (cString received))
          toServer := rest
          serverOutput := s.serverOutput ++ [serverShown (cString received)] }
  | .sendLength response =>
    { s with server := .sendBody response, toClient := s.toClient ++ frameHeader response }
  | .sendBody response =>
    { s with server := .receiveLength, toClient := s.toClient ++ response }
  | .closed => s
  | .crashed => s

def step (s : Conversation) : Action → Conversation
  | .client portion uninit => s.stepClient portion uninit
  | .server portion uninit => s.stepServer portion uninit

/-- A call of `recv` returns all the bytes that it asks for, if they have arrived. -/
def Full (s : Conversation) : Action → Prop
  | .client portion _ => (s.client = .receiveLength → 4 ≤ (portion : ℕ)) ∧
    ∀ length, s.client = .receiveBody length → length ≤ (portion : ℕ)
  | .server portion _ => (s.server = .receiveLength → 4 ≤ (portion : ℕ)) ∧
    ∀ length, s.server = .receiveBody length → length ≤ (portion : ℕ)

end Conversation

/-- What the user can type: a line that is not empty and has no zero byte, and for whose response
there is a buffer. -/
structure Typeable (msg : Bytes) : Prop where
  ne_nil : msg ≠ []
  zero_notMem : 0 ∉ msg
  length_lt : (responseTo msg).length < 2 ^ 31 - 1

theorem typeable_iff (msg : Bytes) :
    Typeable msg ↔ msg ≠ [] ∧ 0 ∉ msg ∧ (responseTo msg).length < 2 ^ 31 - 1 :=
  ⟨fun h => ⟨h.ne_nil, h.zero_notMem, h.length_lt⟩, fun ⟨hne, hzero, hlt⟩ => ⟨hne, hzero, hlt⟩⟩

instance (msg : Bytes) : Decidable (Typeable msg) := decidable_of_iff _ (typeable_iff msg).symm

end BuildYourOwnStuff.SimpleClientServer
