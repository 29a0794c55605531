import BuildYourOwnStuff.Foundations.KeyedUpdates
import BuildYourOwnStuff.GoStd.BufioScanner
import BuildYourOwnStuff.GoStd.JsonStruct
import BuildYourOwnStuff.GoStd.Slices

/-!
# The store of `wal_kvstore`

A call of `Put` or `Delete` first appends a record to the log, a line of JSON,
and then changes the map. Opening a store replays the log; lines that are not
records are skipped.
-/

namespace BuildYourOwnStuff.Wal

open Foundations GoStd Utf8

/-- Go strings, valid UTF-8 or not. -/
abbrev Store := Finmap fun _ : Bytes => Bytes

structure LogEntry where
  type : Bytes
  key : Bytes
  value : Bytes
  deriving DecidableEq, Repr

namespace LogEntry

/-- The entry that `var entry LogEntry` declares. -/
def zero : LogEntry := ⟨[], [], []⟩

def fields : List (Json.StringField LogEntry) :=
  [⟨ascii "type", type, fun v e => { e with type := v }⟩,
    ⟨ascii "key", key, fun v e => { e with key := v }⟩,
    ⟨ascii "value", value, fun v e => { e with value := v }⟩]

def marshal (e : LogEntry) : Bytes := Json.marshal fields e

/-- `json.Unmarshal(line, &entry)`; an error is `none`. -/
def unmarshal (line : Bytes) : Option LogEntry := Json.unmarshal fields line zero

end LogEntry

/-- How `logFile.Write` ends: it writes everything, or only a part and returns an error. -/
inductive WriteOutcome
  | complete
  | short (written : ℕ)
  deriving DecidableEq, Repr

/-- An open store and the content of its log file. -/
structure KVStore where
  store : Store
  logFile : Bytes

namespace KVStore

/-- The body of the loop of `recoverFromWAL`. -/
def recoverLine (store : Store) (line : Bytes) : Store :=
  match LogEntry.unmarshal line with
  | none => store
  | some entry =>
    if entry.type = ascii "put" then store.insert entry.key entry.value
    else if entry.type = ascii "delete" then store.erase entry.key
    else store

def recoverFromWAL (kv : KVStore) : Outcome KVStore :=
  match scan recoverLine kv.logFile kv.store with
  | some store => .ok { kv with store := store }
  | none => .error (.error "bufio.Scanner: token too long")

/-- `NewKVStore` on a log file that can be opened and read. -/
def newKVStore (logFile : Bytes) : Outcome KVStore := recoverFromWAL ⟨∅, logFile⟩

/-- Append a record to the log; a write error is returned. Marshalling strings never fails. -/
def writeToWAL (kv : KVStore) (entry : LogEntry) (outcome : WriteOutcome) :
    KVStore × Option Fault :=
  let data := entry.marshal ++ [newline]
  match outcome with
  | .complete => ({ kv with logFile := kv.logFile ++ data }, none)
  | .short written =>
    ({ kv with logFile := kv.logFile ++ data.take written }, some (.error "short write"))

def put (kv : KVStore) (key value : Bytes) (outcome : WriteOutcome) : KVStore × Option Fault :=
  match kv.writeToWAL ⟨ascii "put", key, value⟩ outcome with
  | (kv, some err) => (kv, some err)
  | (kv, none) => ({ kv with store := kv.store.insert key value }, none)

def delete (kv : KVStore) (key : Bytes) (outcome : WriteOutcome) : KVStore × Option Fault :=
  match kv.writeToWAL ⟨ascii "delete", key, []⟩ outcome with
  | (kv, some err) => (kv, some err)
  | (kv, none) => ({ kv with store := kv.store.erase key }, none)

end KVStore

/-- A call of `Put` or `Delete`. -/
abbrev Call := Update Bytes Bytes

namespace Call

/-- The entry that the call logs. -/
def entry : Call → LogEntry
  | .put key value => ⟨ascii "put", key, value⟩
  | .delete key => ⟨ascii "delete", key, []⟩

/-- The JSON text of the record. -/
def json (call : Call) : Bytes := (entry call).marshal

def record (call : Call) : Bytes := json call ++ [newline]

/-- The key and the value are valid UTF-8. -/
def Valid : Call → Prop
  | .put key value => validString key = true ∧ validString value = true
  | .delete key => validString key = true

/-- The record is shorter than the token limit of the scanner. -/
def Fits (call : Call) : Prop := (json call).length < maxScanTokenSize

instance : (call : Call) → Decidable (Valid call)
  | .put _ _ => inferInstanceAs (Decidable (_ ∧ _))
  | .delete _ => inferInstanceAs (Decidable (_ = true))

instance (call : Call) : Decidable (Fits call) := inferInstanceAs (Decidable (_ < _))

end Call

namespace KVStore

def call (kv : KVStore) (c : Call) (outcome : WriteOutcome) : KVStore × Option Fault :=
  match c with
  | .put key value => kv.put key value outcome
  | .delete key => kv.delete key outcome

/-- The calls one after another, with every write complete. -/
def run (kv : KVStore) (calls : List Call) : KVStore :=
  calls.foldl (fun kv c => (kv.call c .complete).1) kv

/-- A call whose write is complete returns no error; its record is in the log
and its effect in the map. -/
theorem call_complete (kv : KVStore) (c : Call) : kv.call c .complete =
    (⟨c.apply kv.store, kv.logFile ++ Call.record c⟩, none) := by
  cases c <;> rfl

/-- A call whose write fails returns an error and leaves the map as it was. -/
theorem call_short (kv : KVStore) (c : Call) (written : ℕ) : kv.call c (.short written) =
    (⟨kv.store, kv.logFile ++ (Call.record c).take written⟩, some (.error "short write")) := by
  cases c <;> rfl

/-- A run of complete calls appends the records and replays the calls. -/
theorem run_eq (kv : KVStore) (calls : List Call) : kv.run calls =
    ⟨Update.replay kv.store calls, kv.logFile ++ calls.flatMap Call.record⟩ := by
  induction calls generalizing kv with
  | nil => simp [run]
  | cons c calls ih =>
    change ((kv.call c .complete).1).run calls = _
    rw [ih, call_complete, Update.replay_cons, List.flatMap_cons, List.append_assoc]

end KVStore

end BuildYourOwnStuff.Wal
