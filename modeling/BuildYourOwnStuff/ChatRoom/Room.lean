import BuildYourOwnStuff.Foundations.Since
import Mathlib.Data.Finset.Sort

/-!
# Rooms

A room hands each delivered message to its participants. The messages written to
a participant are those that others delivered while it was a member, in order.
-/

namespace BuildYourOwnStuff.ChatRoom

open Foundations

/-- `std::set<ParticipantPointer>` and `std::deque<Message>`. -/
structure Room (π μ : Type) where
  participants : Finset π
  messageQueue : List μ

/-- A call of `participant->write(message)`. -/
structure WriteCall (π μ : Type) where
  participant : π
  message : μ
  deriving DecidableEq, Repr

inductive Event (π μ : Type)
  | join (participant : π)
  | leave (participant : π)
  | deliver (participant : π) (message : μ)
  deriving DecidableEq, Repr

namespace Room

variable {π μ : Type} [LinearOrder π]

def empty : Room π μ := ⟨∅, []⟩

def join (room : Room π μ) (participant : π) : Room π μ :=
  { room with participants := insert participant room.participants }

def leave (room : Room π μ) (participant : π) : Room π μ :=
  { room with participants := room.participants.erase participant }

/-- The loop over the participants, in the order of the set. -/
def writeToOthers (participants : Finset π) (participant : π) (msg : μ) : List (WriteCall π μ) :=
  ((participants.sort).filter fun p => participant ≠ p).map fun p => ⟨p, msg⟩

/-- The loop while the queue is not empty: the queue it leaves, and its calls. -/
def drain (participants : Finset π) (participant : π) : List μ → List μ × List (WriteCall π μ)
  | [] => ([], [])
  | msg :: messageQueue =>
    let (rest, calls) := drain participants participant messageQueue
    (rest, writeToOthers participants participant msg ++ calls)

def deliver (room : Room π μ) (participant : π) (message : μ) :
    Room π μ × List (WriteCall π μ) :=
  let (rest, calls) := drain room.participants participant (room.messageQueue ++ [message])
  ({ room with messageQueue := rest }, calls)

def handle (room : Room π μ) : Event π μ → Room π μ × List (WriteCall π μ)
  | .join participant => (room.join participant, [])
  | .leave participant => (room.leave participant, [])
  | .deliver participant message => room.deliver participant message

/-- The room after some events and all calls made until then. -/
def run (events : List (Event π μ)) : Room π μ × List (WriteCall π μ) :=
  events.foldl (fun s e => ((s.1.handle e).1, s.2 ++ (s.1.handle e).2)) (empty, [])

/-- The messages passed to the `write` of a participant. -/
def written (q : π) (calls : List (WriteCall π μ)) : List μ :=
  (calls.filter fun c => c.participant = q).map WriteCall.message

/-- `q` has joined and not left since. -/
def Member (q : π) (events : List (Event π μ)) : Prop :=
  Since (fun e => e = .join q) (fun e => e = .leave q) events

@[simp] theorem run_nil : run ([] : List (Event π μ)) = (empty, []) := rfl

theorem run_concat (events : List (Event π μ)) (e : Event π μ) : run (events ++ [e]) =
    (((run events).1.handle e).1, (run events).2 ++ ((run events).1.handle e).2) := by
  rw [run, List.foldl_append]
  rfl

@[simp] theorem written_nil (q : π) : written q ([] : List (WriteCall π μ)) = [] := rfl

@[simp] theorem written_append (q : π) (calls calls' : List (WriteCall π μ)) :
    written q (calls ++ calls') = written q calls ++ written q calls' := by
  simp [written]

theorem drain_eq (participants : Finset π) (participant : π) (messageQueue : List μ) :
    drain participants participant messageQueue =
      ([], messageQueue.flatMap (writeToOthers participants participant)) := by
  induction messageQueue with
  | nil => rfl
  | cons msg messageQueue ih => rw [drain, ih, List.flatMap_cons]

/-- A message is written once to each participant except the sender. -/
theorem written_writeToOthers (participants : Finset π) (participant q : π) (msg : μ) :
    written q (writeToOthers participants participant msg) =
      if q ∈ participants ∧ q ≠ participant then [msg] else [] := by
  have hcalls : (writeToOthers participants participant msg).filter (fun c => c.participant = q) =
      (((participants.sort).filter fun p => participant ≠ p).filter (· = q)).map
        fun p => ⟨p, msg⟩ := by
    rw [writeToOthers, List.filter_map]
    rfl
  have hnodup : ((participants.sort).filter fun p => participant ≠ p).Nodup :=
    (participants.sort_nodup _).filter _
  rw [written, hcalls, List.filter_eq, List.map_map]
  split_ifs with h
  · rw [List.count_eq_one_of_mem hnodup]
    · rfl
    · simp [h.1, Ne.symm h.2]
  · rw [List.count_eq_zero_of_not_mem]
    · rfl
    · rw [List.mem_filter, Finset.mem_sort]
      rintro ⟨hmem, hne⟩
      exact h ⟨hmem, fun heq => by simp [heq] at hne⟩

theorem deliver_eq {room : Room π μ} (h : room.messageQueue = []) (participant : π) (message : μ) :
    room.deliver participant message =
      (room, writeToOthers room.participants participant message) := by
  cases room
  cases h
  simp [deliver, drain_eq]

/-- The queue is empty between the events. -/
theorem messageQueue_run (events : List (Event π μ)) : (run events).1.messageQueue = [] := by
  induction events using List.reverseRecOn with
  | nil => rfl
  | append_singleton events e ih =>
    rw [run_concat]
    cases e with
    | join participant => exact ih
    | leave participant => exact ih
    | deliver participant message =>
      rw [handle, deliver_eq ih]
      exact ih

theorem mem_participants_run {q : π} (events : List (Event π μ)) :
    q ∈ (run events).1.participants ↔ Member q events := by
  induction events using List.reverseRecOn with
  | nil => simp [empty, Member]
  | append_singleton events e ih =>
    rw [run_concat, Member, since_concat, ← Member, ← ih]
    cases e with
    | join participant => simp [handle, join, eq_comm]
    | leave participant => simp [handle, leave, eq_comm, and_comm]
    | deliver participant message =>
      rw [handle, deliver_eq (messageQueue_run events)]
      simp

instance (q : π) (events : List (Event π μ)) : Decidable (Member q events) :=
  decidable_of_iff _ (mem_participants_run events)

/-- What `q` is to get from the event at a position. -/
def dueAt (q : π) (events : List (Event π μ)) (i : ℕ) : Option μ :=
  match events[i]? with
  | some (.deliver participant message) =>
    if participant ≠ q ∧ Member q (events.take i) then some message else none
  | _ => none

/-- The messages that others deliver while `q` is a member. -/
def due (q : π) (events : List (Event π μ)) : List μ :=
  (List.range events.length).filterMap (dueAt q events)

theorem due_concat (q : π) (events : List (Event π μ)) (e : Event π μ) :
    due q (events ++ [e]) = due q events ++ (dueAt q (events ++ [e]) events.length).toList := by
  have hsame : ∀ i ∈ List.range events.length, dueAt q (events ++ [e]) i = dueAt q events i := by
    intro i hi
    have hlt := List.mem_range.mp hi
    rw [dueAt, dueAt, List.getElem?_append_left hlt, List.take_append_of_le_length hlt.le]
  rw [due, List.length_append, List.length_singleton, List.range_succ, List.filterMap_append,
    List.filterMap_congr hsame, due]
  cases h : dueAt q (events ++ [e]) events.length <;> simp [h]

theorem dueAt_concat (q : π) (events : List (Event π μ)) (e : Event π μ) :
    (dueAt q (events ++ [e]) events.length).toList =
      written q ((run events).1.handle e).2 := by
  have hget : (events ++ [e])[events.length]? = some e := by simp
  rw [dueAt, hget, List.take_left]
  cases e with
  | join participant => rfl
  | leave participant => rfl
  | deliver participant message =>
    rw [handle, deliver_eq (messageQueue_run events)]
    simp only [written_writeToOthers, mem_participants_run]
    split_ifs <;> simp_all

theorem written_run (q : π) (events : List (Event π μ)) :
    written q (run events).2 = due q events := by
  induction events using List.reverseRecOn with
  | nil => rfl
  | append_singleton events e ih =>
    rw [run_concat, written_append, ih, due_concat, dueAt_concat]

/-- Each participant gets what is due, once and in order, and the queue is empty
after each event. -/
theorem broadcast_exactly_once (events : List (Event π μ)) :
    (∀ q, written q (run events).2 = due q events) ∧
      ∀ n, (run (events.take n)).1.messageQueue = [] := by
  exact ⟨fun q => written_run q events, fun n => messageQueue_run _⟩

end Room

end BuildYourOwnStuff.ChatRoom
