import BuildYourOwnStuff.Foundations.Buffers

/-!
# Sockets

What the echo servers see of their sockets. The kernel decides what a call returns.
-/

namespace BuildYourOwnStuff.SocketProg

open Foundations

/-- A file descriptor; a call that fails returns -1 instead. -/
abbrev Fd := ℤ

/-- What can be received from a client: an error, or the bytes that have arrived, which
are none at the end of its stream. -/
inductive Received
  | error
  | bytes (data : Bytes)
  deriving DecidableEq, Repr

namespace Received

/-- What a call of `recv` for so many bytes receives. -/
def upTo (size : ℕ) : Received → Received
  | error => error
  | bytes data => bytes (data.take size)

/-- What the call returns. -/
def count : Received → ℤ
  | error => -1
  | bytes data => data.length

/-- What the call puts into the buffer. -/
def data : Received → Bytes
  | error => []
  | bytes data => data

theorem count_le_zero_iff (r : Received) : r.count ≤ 0 ↔ r.data = [] := by
  cases r with
  | error => simp [count, data]
  | bytes data => simp [count, Received.data]

theorem toNat_count (r : Received) : r.count.toNat = r.data.length := by
  cases r with
  | error => rfl
  | bytes data => exact Int.toNat_natCast _

theorem data_upTo (size : ℕ) (r : Received) : (r.upTo size).data = r.data.take size := by
  cases r with
  | error => exact List.take_nil.symm
  | bytes data => rfl

theorem data_upTo_of_le {size : ℕ} {r : Received} (h : r.data.length ≤ size) :
    (r.upTo size).data = r.data := by
  rw [data_upTo, List.take_of_length_le h]

theorem toNat_count_upTo {size : ℕ} {r : Received} (h : r.data.length ≤ size) :
    (r.upTo size).count.toNat = r.data.length := by
  rw [toNat_count, data_upTo_of_le h]

end Received

/-- The calls that an echo server makes on its sockets. -/
inductive Call
  | accept
  | recv (fd : Fd)
  | send (fd : Fd) (data : Bytes)
  | close (fd : Fd)
  deriving DecidableEq, Repr

/-- The client that a call is for. -/
def Call.client? : Call → Option Fd
  | accept => none
  | recv fd => some fd
  | send fd _ => some fd
  | close fd => some fd

/-- How a pass can end without a result. -/
inductive Fault
  | undefined
  | unended
  deriving DecidableEq, Repr

/-- Bytes that are written into an array, from an index on. -/
def store (array : Bytes) (pos : ℕ) (src : Bytes) : Except Fault Bytes :=
  if pos + src.length ≤ array.length then .ok (overwrite array pos src) else .error .undefined

/-- The memory of `buffer`. -/
abbrev Buffer := { b : Bytes // b.length = 1024 }

def POLLIN : UInt16 := 1

/-- What the kernel answers in one pass of a server: the events at each descriptor, what
`accept` returns, and what can be received from each client. -/
structure Kernel where
  revents : Fd → UInt16
  accepted : Fd
  received : Fd → Received

namespace Kernel

variable (k : Kernel)

def Readable (fd : Fd) : Prop := k.revents fd &&& POLLIN ≠ 0

instance (fd : Fd) : Decidable (k.Readable fd) := inferInstanceAs (Decidable (_ ≠ _))

/-- The client is readable, and its connection has ended. -/
def Ended (fd : Fd) : Prop := k.Readable fd ∧ (k.received fd).data = []

instance (fd : Fd) : Decidable (k.Ended fd) := inferInstanceAs (Decidable (_ ∧ _))

/-- What the server is to do for a client: receive once if there is something, and send
back what it is, or close the connection. -/
def echo (fd : Fd) : List Call :=
  if k.Readable fd then
    [.recv fd, if k.Ended fd then .close fd else .send fd (k.received fd).data]
  else []

/-- The new client, if there is one. -/
def newClients (listener : Fd) : List Fd :=
  if k.Readable listener ∧ 0 < k.accepted then [k.accepted] else []

/-- All calls of a pass. -/
def calls (listener : Fd) (clients : List Fd) : List Call :=
  (if k.Readable listener then [.accept] else []) ++ clients.flatMap k.echo

/-- The clients after the pass. -/
def tracked (listener : Fd) (clients : List Fd) : List Fd :=
  (clients.filter fun fd => ¬ k.Ended fd) ++ k.newClients listener

variable {k} in
/-- The servers recognise the end of a connection by what `recv` returns. -/
theorem count_upTo_le_zero_iff {fd : Fd} {size : ℕ} (hreadable : k.Readable fd)
    (hlength : (k.received fd).data.length ≤ size) :
    ((k.received fd).upTo size).count ≤ 0 ↔ k.Ended fd := by
  rw [Received.count_le_zero_iff, Received.data_upTo_of_le hlength, Ended, and_iff_right hreadable]

theorem calls_append (listener : Fd) (clients : List Fd) :
    k.calls listener [] ++ clients.flatMap k.echo = k.calls listener clients := by
  rw [calls, calls, List.flatMap_nil, List.append_nil]

end Kernel

theorem store_eq {array src : Bytes} {pos : ℕ} (h : pos + src.length ≤ array.length) :
    store array pos src = .ok (overwrite array pos src) :=
  if_pos h

/-- What is stored at the start of an array. -/
theorem take_overwrite_zero {array src : Bytes} (h : src.length ≤ array.length) :
    (overwrite array 0 src).take src.length = src := by
  have hstart := overwrite_append [] array src h
  rw [List.nil_append, List.length_nil, List.nil_append] at hstart
  rw [hstart, List.take_left]

theorem client?_of_mem_echo {k : Kernel} {fd : Fd} {call : Call} (h : call ∈ k.echo fd) :
    call.client? = some fd := by
  rw [Kernel.echo] at h
  split_ifs at h
  · rcases List.mem_pair.mp h with rfl | rfl <;> rfl
  · rcases List.mem_pair.mp h with rfl | rfl <;> rfl
  · cases h

end BuildYourOwnStuff.SocketProg
