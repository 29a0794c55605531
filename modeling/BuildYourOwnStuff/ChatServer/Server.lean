import BuildYourOwnStuff.Foundations.Frames
import BuildYourOwnStuff.Foundations.Lines
import BuildYourOwnStuff.GoStd.Utf8
import Mathlib.Data.Finmap
import Mathlib.Data.Finset.Sort
import Mathlib.Data.List.Lex

/-!
# The chat server

The handlers of the server, as programs of atomic operations on the list of
clients, the map from usernames to sockets, the mutex and the sockets. `exec` runs
a program without interruption.
-/

namespace BuildYourOwnStuff.ChatServer

open Foundations GoStd

abbrev Socket := ℕ

/-- A program of a handler; what an operation returns goes to the rest of it. -/
inductive Program
  | done
  | lock (next : Program)
  | unlock (next : Program)
  /-- `sendMessageToClient(client, message)` -/
  | sendMessage (client : Socket) (message : Bytes) (next : Program)
  /-- The elements of `clients`. -/
  | clients (next : List Socket → Program)
  /-- The keys of `client_mapp`, in order. -/
  | usernames (next : List Bytes → Program)
  /-- `client_mapp.find(username) != client_mapp.end()` -/
  | find (username : Bytes) (next : Bool → Program)
  /-- `client_mapp[username]` -/
  | index (username : Bytes) (next : Socket → Program)
  /-- `client_mapp[username] = socket` -/
  | assign (username : Bytes) (socket : Socket) (next : Program)
  /-- Erase the entries for a socket from `client_mapp` and the socket from `clients`. -/
  | remove (socket : Socket) (next : Program)
  | close (socket : Socket) (next : Program)

/-- The loop of `broadcastMessage`. -/
def sendToOthers (text : Bytes) (sender : Socket) : List Socket → Program → Program
  | [], next => next
  | client :: clients, next =>
    if client ≠ sender then .sendMessage client text (sendToOthers text sender clients next)
    else sendToOthers text sender clients next

def broadcastMessage (message : Bytes) (sender : Socket) : Program :=
  .lock <| .clients fun clients =>
    sendToOthers (ascii "Broadcast: " ++ message) sender clients <|
      .sendMessage sender (ascii "Broadcast sent successfully.") <| .unlock .done

def handleLoginClient (username : Bytes) (sender : Socket) : Program :=
  .assign username sender <| .sendMessage sender (ascii "Login successful.") .done

def handleLogoutClient (sender : Socket) : Program :=
  .lock <| .remove sender <| .unlock <|
    .sendMessage sender (ascii "Logout successful.") <| .close sender .done

def handleOnlineUsers (sender : Socket) : Program :=
  .lock <| .usernames fun names =>
    .sendMessage sender (ascii "Online Users:\n" ++ names.flatMap fun name => name ++ ascii "\n") <|
      .unlock .done

/-- The sign between the parts of a message. -/
def colon : UInt8 := 0x3A

/-- What stands before the text of a direct message. -/
def directLabel : Bytes := ascii "Direct message from sender: "

def handleDirectMessage (eventData : Bytes) (sender : Socket) : Program :=
  match cut colon eventData with
  | some (username, message) =>
    .find username fun found =>
      if found then
        .index username fun receiver =>
          .sendMessage receiver (directLabel ++ message) <|
            .sendMessage sender (ascii "Direct message sent successfully.") .done
      else .sendMessage sender (ascii "Error: Receiver not found or offline.") .done
  | none => .sendMessage sender (ascii "Error: Invalid message format.") .done

inductive EventType
  | login
  | direct
  | broadcast
  | logout
  | onlineUsers
  | invalid
  deriving DecidableEq, Repr

/-- `event_map` -/
def eventType (event : Bytes) : EventType :=
  if event = ascii "login" then .login
  else if event = ascii "direct" then .direct
  else if event = ascii "broadcast" then .broadcast
  else if event = ascii "logout" then .logout
  else if event = ascii "online-users" then .onlineUsers
  else .invalid

/-- The event of a message and its data. -/
def parseMessage (message : Bytes) : EventType × Bytes :=
  match cut colon message with
  | some (event, data) => (eventType event, data)
  | none => (eventType message, [])

/-- The branch of `handleClient` for an event and its data. -/
def handleEvent (socket : Socket) : EventType × Bytes → Program
  | (.login, data) => handleLoginClient data socket
  | (.direct, data) => handleDirectMessage data socket
  | (.broadcast, data) => broadcastMessage data socket
  | (.logout, _) => handleLogoutClient socket
  | (.onlineUsers, _) => handleOnlineUsers socket
  | (.invalid, _) => .sendMessage socket (ascii "Error: Invalid event type.") .done

def handleMessage (socket : Socket) (message : Bytes) : Program :=
  handleEvent socket (parseMessage message)

/-- After this message `handleClient` returns. -/
def IsLogout (message : Bytes) : Prop := (parseMessage message).1 = .logout

instance (message : Bytes) : Decidable (IsLogout message) := inferInstanceAs (Decidable (_ = _))

abbrev ClientMap := Finmap fun _ : Bytes => Socket

/-- `clients`, `client_mapp` and the sockets that are open. -/
structure Directory where
  clients : List Socket
  client_mapp : ClientMap
  opened : Finset Socket

/-- The entries for other sockets. -/
def ClientMap.eraseSocket (m : ClientMap) (socket : Socket) : ClientMap where
  entries := m.entries.filter fun e => e.2 ≠ socket
  nodupKeys := by
    apply Multiset.nodup_keys.mp
    exact Multiset.nodup_of_le (Multiset.map_le_map (Multiset.filter_le _ _)) m.nodupKeys.nodup_keys

namespace Directory

/-- The keys in the order of `std::map`, which compares bytes as numbers. -/
def usernames (d : Directory) : List Bytes :=
  ((d.client_mapp.keys.image fun name => name.map UInt8.toNat).sort).map
    fun name => name.map UInt8.ofNat

/-- A missing key is put into the map with the value 0. -/
def index (d : Directory) (username : Bytes) : Directory × Socket :=
  match d.client_mapp.lookup username with
  | some socket => (d, socket)
  | none => ({ d with client_mapp := d.client_mapp.insert username 0 }, 0)

def assign (d : Directory) (username : Bytes) (socket : Socket) : Directory :=
  { d with client_mapp := d.client_mapp.insert username socket }

def remove (d : Directory) (socket : Socket) : Directory :=
  { d with
    client_mapp := d.client_mapp.eraseSocket socket
    clients := d.clients.filter fun client => client ≠ socket }

def close (d : Directory) (socket : Socket) : Directory :=
  { d with opened := d.opened.erase socket }

/-- `accept` returns a socket that is then open. -/
def accept (d : Directory) (socket : Socket) : Directory :=
  { d with opened := insert socket d.opened }

/-- `clients.push_back(client_socket)` -/
def register (d : Directory) (socket : Socket) : Directory :=
  { d with clients := d.clients ++ [socket] }

end Directory

/-- A call of `sendMessageToClient`, and whether the socket was open. -/
structure Sent where
  client : Socket
  message : Bytes
  isOpen : Bool
  deriving DecidableEq, Repr

/-- Run a program without interruption. -/
def Program.exec (d : Directory) : Program → Directory × List Sent
  | done => (d, [])
  | lock next => next.exec d
  | unlock next => next.exec d
  | sendMessage client message next =>
    let (d', sent) := next.exec d
    (d', ⟨client, message, client ∈ d.opened⟩ :: sent)
  | clients next => (next d.clients).exec d
  | usernames next => (next d.usernames).exec d
  | find username next => (next (username ∈ d.client_mapp)).exec d
  | index username next => (next (d.index username).2).exec (d.index username).1
  | assign username socket next => next.exec (d.assign username socket)
  | remove socket next => next.exec (d.remove socket)
  | close socket next => next.exec (d.close socket)

end BuildYourOwnStuff.ChatServer
