import BuildYourOwnStuff.Foundations.Marks
import BuildYourOwnStuff.GoStd.Slices
import BuildYourOwnStuff.GoStd.Utf8

/-!
# The Bloom filter

An item is hashed once for each seed, and the hash modulo the size of the filter
is the index of a bit. `Add` sets the bits of an item and `Check` looks whether
they are set.
-/

namespace BuildYourOwnStuff.Bloom

open Foundations GoStd

structure BloomFilter where
  size : UInt64
  bits : List Bool
  hashes : UInt64
  deriving DecidableEq, Repr

/-- What `NewBloomFilter` builds for a size and a number of hashes. -/
def newBloomFilter (size hashes : UInt64) : BloomFilter :=
  ⟨size, List.replicate size.toNat false, hashes⟩

/-- `fmt.Sprintf("%d%s", seed, data)` -/
def seeded (seed : UInt64) (data : Bytes) : Bytes := ascii (toString seed.toNat) ++ data

/-- The FNV-1a hash of `hash/fnv`. -/
def fnv32a (data : Bytes) : UInt32 :=
  data.foldl (fun hash b => (hash ^^^ b.toUInt32) * 16777619) 2166136261

section

variable (sum32 : Bytes → UInt32)

/-- The hash of an item, with some function on bytes in the place of `fnv32a`. -/
def hashWithSeed (data : Bytes) (seed : UInt64) : UInt32 := sum32 (seeded seed data)

namespace BloomFilter

/-- The values of `i` in the loops. -/
def seeds (bf : BloomFilter) : List UInt64 := (List.range bf.hashes.toNat).map UInt64.ofNat

/-- The index for one seed; a remainder by zero panics. -/
def index (bf : BloomFilter) (item : Bytes) (i : UInt64) : Outcome ℕ :=
  if bf.size.toUInt32 = 0 then .error .panic
  else .ok (hashWithSeed sum32 item i % bf.size.toUInt32).toNat

/-- `bf.bits[index] = true` -/
def setBit (bf : BloomFilter) (index : ℕ) : Outcome BloomFilter :=
  if index < bf.bits.length then .ok { bf with bits := bf.bits.set index true }
  else .error .panic

/-- `bf.bits[index]` -/
def getBit (bf : BloomFilter) (index : ℕ) : Outcome Bool :=
  match bf.bits[index]? with
  | some b => .ok b
  | none => .error .panic

def addSeeds (bf : BloomFilter) (item : Bytes) : List UInt64 → Outcome BloomFilter
  | [] => .ok bf
  | i :: is => do
    let index ← bf.index sum32 item i
    let bf ← bf.setBit index
    addSeeds bf item is

def add (bf : BloomFilter) (item : Bytes) : Outcome BloomFilter :=
  bf.addSeeds sum32 item bf.seeds

def checkSeeds (bf : BloomFilter) (item : Bytes) : List UInt64 → Outcome Bool
  | [] => .ok true
  | i :: is => do
    let index ← bf.index sum32 item i
    let b ← bf.getBit index
    if b then checkSeeds bf item is else return false

def check (bf : BloomFilter) (item : Bytes) : Outcome Bool :=
  bf.checkSeeds sum32 item bf.seeds

/-- A sequence of `Add` calls. -/
def addAll (bf : BloomFilter) (items : List Bytes) : Outcome BloomFilter :=
  items.foldlM (add sum32) bf

end BloomFilter

end

end BuildYourOwnStuff.Bloom
