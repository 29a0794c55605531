import BuildYourOwnStuff.Foundations.Buffers
import BuildYourOwnStuff.Foundations.Lines
import Mathlib.Data.Finmap

/-!
# The storage engines of `simple-kv-cpp`

Both engines keep a map in memory. The file engine also writes the whole map to
a text file after each change, one line `key=value` for each pair in the order
in which the map is iterated, and reads the file when it is constructed.
-/

namespace BuildYourOwnStuff.SimpleKv

open Foundations

/-- `std::unordered_map<std::string, std::string>` without its order. -/
abbrev Store := Finmap fun _ : Bytes => Bytes

abbrev Entry := Bytes × Bytes

/-- `IStorageEngine` over states of type `σ`. -/
structure IStorageEngine (σ : Type) where
  write : σ → Bytes → Bytes → σ × Bool
  read : σ → Bytes → Option Bytes
  erase : σ → Bytes → σ × Bool

namespace InMemoryStorageEngine

def write (store : Store) (key value : Bytes) : Store × Bool :=
  if key = [] then (store, false) else (store.insert key value, true)

def read (store : Store) (key : Bytes) : Option Bytes :=
  if key = [] then none else store.lookup key

def erase (store : Store) (key : Bytes) : Store × Bool :=
  if key = [] then (store, false) else (store.erase key, decide (key ∈ store))

def engine : IStorageEngine Store := ⟨write, read, erase⟩

end InMemoryStorageEngine

def newline : UInt8 := 0x0A

/-- The sign between key and value. -/
def equals : UInt8 := 0x3D

/-- The pairs of a map as a loop over it meets them. -/
structure Enumerates (entries : List Entry) (store : Store) : Prop where
  nodup_keys : (entries.map Prod.fst).Nodup
  mem_iff : ∀ key value, (key, value) ∈ entries ↔ store.lookup key = some value

/-- The order of iteration in each save; it may differ from save to save. -/
structure Iteration where
  entries : ℕ → Store → List Entry
  enumerates : ∀ save store, Enumerates (entries save store) store

/-- How a save ends: the file cannot be opened, or writing stops after some bytes. -/
inductive SaveOutcome
  | complete
  | cannotOpen
  | stopped (written : ℕ)
  deriving DecidableEq, Repr

/-- The engine, the file at its path if there is one, and the number of saves so far. -/
structure FileBasedStorageEngine where
  store : Store
  file : Option Bytes
  saves : ℕ

namespace FileBasedStorageEngine

/-- `file << key << "=" << value << "\n"` -/
def line (entry : Entry) : Bytes := entry.1 ++ equals :: entry.2 ++ [newline]

/-- What the loop of `saveToFile` writes. -/
def render (entries : List Entry) : Bytes := entries.flatMap line

/-- A line is split at its first sign; a line without one is skipped. -/
def parseLine (text : Bytes) : Option Entry :=
  if equals ∈ text then
    some (text.takeWhile fun b => b != equals, (text.dropWhile fun b => b != equals).tail)
  else none

/-- The body of the loop of `loadFromFile`. -/
def loadLine (store : Store) (text : Bytes) : Store :=
  match parseLine text with
  | some (key, value) => store.insert key value
  | none => store

def loadFromFile : Option Bytes → Store
  | none => ∅
  | some content => (lines newline content).foldl loadLine ∅

/-- The constructor, on a path where `file` is, after `saves` saves by earlier engines. -/
def construct (file : Option Bytes) (saves : ℕ) : FileBasedStorageEngine :=
  ⟨loadFromFile file, file, saves⟩

section Saving

variable (order : Iteration) (outcome : ℕ → SaveOutcome)

/-- Opening the file for writing truncates it. -/
def saveToFile (s : FileBasedStorageEngine) : FileBasedStorageEngine :=
  let content := render (order.entries s.saves s.store)
  { s with
    saves := s.saves + 1
    file :=
      match outcome s.saves with
      | .complete => some content
      | .cannotOpen => s.file
      | .stopped written => some (content.take written) }

def write (s : FileBasedStorageEngine) (key value : Bytes) : FileBasedStorageEngine × Bool :=
  if key = [] then (s, false)
  else (saveToFile order outcome { s with store := s.store.insert key value }, true)

def read (s : FileBasedStorageEngine) (key : Bytes) : Option Bytes :=
  if key = [] then none else s.store.lookup key

def erase (s : FileBasedStorageEngine) (key : Bytes) : FileBasedStorageEngine × Bool :=
  if key = [] then (s, false)
  else if key ∈ s.store then
    (saveToFile order outcome { s with store := s.store.erase key }, true)
  else (s, false)

def engine : IStorageEngine FileBasedStorageEngine :=
  ⟨write order outcome, read, erase order outcome⟩

end Saving

end FileBasedStorageEngine

inductive Request
  | put (key value : Bytes)
  | get (key : Bytes)
  | remove (key : Bytes)
  deriving DecidableEq, Repr

inductive Response
  | flag (b : Bool)
  | value (v : Option Bytes)
  deriving DecidableEq, Repr

namespace KeyValueStore

variable {σ : Type} (engine : IStorageEngine σ)

def put (s : σ) (key value : Bytes) : σ × Bool := engine.write s key value

def get (s : σ) (key : Bytes) : Option Bytes := engine.read s key

def remove (s : σ) (key : Bytes) : σ × Bool := engine.erase s key

/-- A request and what is returned to the caller. -/
def handle (s : σ) : Request → σ × Response
  | .put key value => let (s, b) := put engine s key value; (s, .flag b)
  | .get key => (s, .value (get engine s key))
  | .remove key => let (s, b) := remove engine s key; (s, .flag b)

/-- The responses to a sequence of requests. -/
def responses (s : σ) : List Request → List Response
  | [] => []
  | r :: rs => (handle engine s r).2 :: responses (handle engine s r).1 rs

end KeyValueStore

end BuildYourOwnStuff.SimpleKv
