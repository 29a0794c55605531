import BuildYourOwnStuff.SimpleKv.Durability

/-!
# Saves cut short by a crash

A save truncates the file and writes the map into it, so a crash leaves the
first bytes of the new contents. They are read as the pairs whose lines are
complete, up to the last newline, and one more pair if its line got past the
sign; the value of that pair may be cut. A pair with a sign or a newline in the
wrong place is read as other pairs, so no file holds the map with it.
-/

namespace BuildYourOwnStuff.SimpleKv

open Foundations

/-- The bytes of a pair, its sign and its newline. -/
def lineSize (e : Entry) : ℕ := e.1.length + e.2.length + 2

/-- The pairs that are read from the first `n` bytes of the lines of some pairs. -/
def readable : List Entry → ℕ → List Entry
  | [], _ => []
  | e :: es, n =>
    if lineSize e ≤ n then e :: readable es (n - lineSize e)
    else if e.1.length < n then [(e.1, e.2.take (n - e.1.length - 1))]
    else []

section Readable

variable {es es' init : List Entry} {e : Entry} {n : ℕ}

end Readable

namespace FileBasedStorageEngine

section Cut

variable {entries : List Entry} {store target : Store} {key value : Bytes} {n : ℕ}

end Cut

/-- The file after a crash in the save of an update, once `n` bytes have reached it. -/
def crashed (order : Iteration) (s : FileBasedStorageEngine) (u : Update Bytes Bytes) (n : ℕ) :
    Option Bytes := (update order (fun _ => .stopped n) s u).1.file

end FileBasedStorageEngine

end BuildYourOwnStuff.SimpleKv
