import BuildYourOwnStuff.ChatRoom.Session
import BuildYourOwnStuff.Foundations.Runs

/-!
# The writes of a session in progress

`Session::write` empties the queue of the session by calls of `async_write`, which
return before their write is completed. So the queue holds nothing back: at most one
write is in progress exactly as long as each message comes when none is.
-/

namespace BuildYourOwnStuff.ChatRoom

open Foundations

/-- The queue of a session, and its calls of `async_write` that are not completed. -/
structure Socket where
  messageQueue : List Message
  inProgress : List AsyncWrite

/-- The room writes a message that was made from a string in memory with the bytes
`uninit`, or one of the writes in progress is completed. -/
inductive WriteEvent
  | deliver (uninit : Data) (text : Bytes)
  | completed (i : ℕ)
  deriving DecidableEq

namespace Socket

/-- An open socket to which nothing has been written. -/
def opened : Socket := ⟨[], []⟩

/-- The handler of a completed write does nothing to the session. -/
def step (s : Socket) : WriteEvent → Socket
  | .deliver uninit text =>
    match Session.write ⟨s.messageQueue, s.inProgress⟩ (.ofString uninit text) with
    | some session => ⟨session.messageQueue, session.asyncWrites⟩
    | none => s
  | .completed i => { s with inProgress := s.inProgress.eraseIdx i }

/-- The streams of different writes cannot be mixed. -/
def OneWrite (s : Socket) : Prop := s.inProgress.length ≤ 1

/-- A message comes when no write is in progress. -/
def Idle (s : Socket) (e : WriteEvent) : Prop :=
  ∀ uninit text, e = .deliver uninit text → s.inProgress = []

theorem step_deliver {s : Socket} (h : s.messageQueue = []) (uninit : Data) (text : Bytes) :
    s.step (.deliver uninit text) =
      ⟨[], s.inProgress ++ [Server.callFor (.ofString uninit text)]⟩ := by
  have hwrite := Server.write_fromString (s := ⟨s.messageQueue, s.inProgress⟩) h
    ⟨uninit, text, rfl⟩
  simp only [step, hwrite]

/-- The queue is empty between the events. -/
theorem messageQueue_step (s : Socket) (e : WriteEvent) (h : s.messageQueue = []) :
    (s.step e).messageQueue = [] := by
  cases e with
  | deliver uninit text => rw [step_deliver h]
  | completed i => exact h

theorem oneWrite_step_iff (s : Socket) (e : WriteEvent) (h : s.messageQueue = [])
    (hone : s.OneWrite) : (s.step e).OneWrite ↔ s.Idle e := by
  cases e with
  | deliver uninit text =>
    rw [OneWrite, step_deliver h, List.length_append, List.length_singleton]
    constructor
    · intro hle _ _ _
      exact List.length_eq_zero_iff.mp (by omega)
    · intro hidle
      rw [hidle uninit text rfl]
      exact le_rfl
  | completed i =>
    refine iff_of_true ?_ (by simp [Idle])
    exact (List.length_eraseIdx_le _ _).trans hone

theorem oneWrite_opened : opened.OneWrite := Nat.zero_le 1

/-- There is at most one write in progress throughout a run exactly when each message
of the run comes when there is none. -/
theorem oneWrite_iff (events : List WriteEvent) :
    AllStates step OneWrite opened events ↔ AllSteps step Idle opened events :=
  allStates_iff_allSteps messageQueue_step oneWrite_step_iff rfl oneWrite_opened events

/-- The second of two messages starts a second write. -/
theorem two_writes : ¬ ∀ events, AllStates step OneWrite opened events := by
  intro h
  have hlast := (h [.deliver Server.zeros [0x61], .deliver Server.zeros [0x62]]).last
  have hempty := messageQueue_step opened (.deliver Server.zeros [0x61]) rfl
  have hopened : opened.messageQueue = [] := rfl
  rw [List.foldl_cons, List.foldl_cons, List.foldl_nil, step_deliver hempty, step_deliver hopened,
    OneWrite] at hlast
  simp [opened] at hlast

end Socket

end BuildYourOwnStuff.ChatRoom
