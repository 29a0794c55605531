import Mathlib.Tactic
import BuildYourOwnStuff.Foundations.Runs

/-!
# Threads

Threads `ι` run a program over a shared memory `σ`, mutexes `μ` and condition
variables `κ`, and take their steps in any order. A program gives the operation at
each place `L` of the code of a thread; local variables are part of the place.

A thread holds the mutexes that its place says, so no two hold one mutex. From this
follows the rule of outlines: an assertion at a place holds whenever a thread is there
if no thread that could be elsewhere with other mutexes makes it false.
-/

namespace BuildYourOwnStuff.Foundations

/-- The memory, the thread that has locked each mutex, the place of each thread and the
condition variable on which it sleeps. -/
structure Threads (ι σ μ κ L : Type*) where
  memory : σ
  holder : μ → Option ι
  place : ι → L
  asleep : ι → Option κ

namespace Threads

/-- The operation of a thread, with the place that follows. -/
inductive Op (σ μ κ L : Type*)
  | done
  | lock (m : μ) (next : L)
  | tryLock (m : μ) (success failure : L)
  | unlock (m : μ) (next : L)
  /-- Unlock the mutex and fall asleep in one step; `next` is to lock it again. -/
  | wait (c : κ) (m : μ) (next : L)
  | notifyOne (c : κ) (next : L)
  /-- One access to the memory, on which the place that follows may depend. -/
  | access (f : σ → σ × L)

inductive Action (ι : Type*)
  /-- A thread goes on; if it notifies, the other one is woken. -/
  | run (i woken : ι)
  /-- A call of `tryLock` fails, for whatever reason. -/
  | refuse (i : ι)
  /-- A thread wakes up although none has notified it. -/
  | wake (i : ι)
  deriving DecidableEq, Repr

theorem eq_nil_of_isEmpty {ι : Type*} [IsEmpty ι] (actions : List (Action ι)) : actions = [] := by
  cases actions with
  | nil => rfl
  | cons a actions => cases a <;> exact isEmptyElim ‹ι›

variable {ι σ μ κ L : Type*} [DecidableEq ι] [DecidableEq μ]

/-- All threads are awake at their places, and no mutex is locked. -/
def start (memory : σ) (place : ι → L) : Threads ι σ μ κ L :=
  ⟨memory, fun _ => none, place, fun _ => none⟩

def goto (s : Threads ι σ μ κ L) (i : ι) (l : L) : Threads ι σ μ κ L :=
  { s with place := Function.update s.place i l }

def hold (s : Threads ι σ μ κ L) (m : μ) (i : ι) : Threads ι σ μ κ L :=
  { s with holder := Function.update s.holder m (some i) }

def release (s : Threads ι σ μ κ L) (m : μ) : Threads ι σ μ κ L :=
  { s with holder := Function.update s.holder m none }

def sleep (s : Threads ι σ μ κ L) (i : ι) (c : κ) : Threads ι σ μ κ L :=
  { s with asleep := Function.update s.asleep i (some c) }

def rouse (s : Threads ι σ μ κ L) (i : ι) : Threads ι σ μ κ L :=
  { s with asleep := Function.update s.asleep i none }

def store (s : Threads ι σ μ κ L) (v : σ) : Threads ι σ μ κ L := { s with memory := v }

section Step

variable [Fintype ι] [DecidableEq κ] (program : ι → L → Op σ μ κ L)

/-- `notifyOne` wakes a thread that sleeps on `c` if there is one. -/
def notify (s : Threads ι σ μ κ L) (c : κ) (i woken : ι) (next : L) : Threads ι σ μ κ L :=
  if s.asleep woken = some c then (s.rouse woken).goto i next
  else if ∀ k, s.asleep k ≠ some c then s.goto i next
  else s

/-- The operation of a thread that is awake; a mutex that is locked delays it. -/
def perform (s : Threads ι σ μ κ L) (i woken : ι) : Op σ μ κ L → Threads ι σ μ κ L
  | .done => s
  | .lock m next => if s.holder m = none then (s.hold m i).goto i next else s
  | .tryLock m success failure =>
    if s.holder m = none then (s.hold m i).goto i success else s.goto i failure
  | .unlock m next => (s.release m).goto i next
  | .wait c m next => ((s.release m).sleep i c).goto i next
  | .notifyOne c next => s.notify c i woken next
  | .access f => (s.store (f s.memory).1).goto i (f s.memory).2

/-- One step. What is not possible does nothing. -/
def step (s : Threads ι σ μ κ L) : Action ι → Threads ι σ μ κ L
  | .run i woken =>
    match s.asleep i with
    | none => s.perform i woken (program i (s.place i))
    | some _ => s
  | .refuse i =>
    match s.asleep i, program i (s.place i) with
    | none, .tryLock _ _ failure => s.goto i failure
    | _, _ => s
  | .wake i => s.rouse i

/-- What a thread can do. -/
inductive Move (s : Threads ι σ μ κ L) : Threads ι σ μ κ L → Prop
  | lock {i : ι} {m : μ} {next : L} (hi : s.asleep i = none)
    (hop : program i (s.place i) = .lock m next ∨
      ∃ failure, program i (s.place i) = .tryLock m next failure)
    (hfree : s.holder m = none) : Move s ((s.hold m i).goto i next)
  | fail {i : ι} {m : μ} {success failure : L} (hi : s.asleep i = none)
    (hop : program i (s.place i) = .tryLock m success failure) : Move s (s.goto i failure)
  | unlock {i : ι} {m : μ} {next : L} (hi : s.asleep i = none)
    (hop : program i (s.place i) = .unlock m next) : Move s ((s.release m).goto i next)
  | wait {i : ι} {c : κ} {m : μ} {next : L} (hi : s.asleep i = none)
    (hop : program i (s.place i) = .wait c m next) :
    Move s (((s.release m).sleep i c).goto i next)
  | notifyOne {i woken : ι} {c : κ} {next : L} (hi : s.asleep i = none)
    (hop : program i (s.place i) = .notifyOne c next) (hwoken : s.asleep woken = some c) :
    Move s ((s.rouse woken).goto i next)
  | notifyNone {i : ι} {c : κ} {next : L} (hi : s.asleep i = none)
    (hop : program i (s.place i) = .notifyOne c next) (hnone : ∀ k, s.asleep k ≠ some c) :
    Move s (s.goto i next)
  | access {i : ι} {f : σ → σ × L} (hi : s.asleep i = none)
    (hop : program i (s.place i) = .access f) :
    Move s ((s.store (f s.memory).1).goto i (f s.memory).2)

variable {program}

theorem perform_cases {s : Threads ι σ μ κ L} {i : ι} (hi : s.asleep i = none) (woken : ι) :
    s.perform i woken (program i (s.place i)) = s ∨
      Move program s (s.perform i woken (program i (s.place i))) := by
  cases hop : program i (s.place i) with
  | done => exact .inl rfl
  | lock m next =>
    rw [perform]
    split_ifs with hfree
    · exact .inr (.lock hi (.inl hop) hfree)
    · exact .inl rfl
  | tryLock m success failure =>
    rw [perform]
    split_ifs with hfree
    · exact .inr (.lock hi (.inr ⟨failure, hop⟩) hfree)
    · exact .inr (.fail hi hop)
  | unlock m next => exact .inr (.unlock hi hop)
  | wait c m next => exact .inr (.wait hi hop)
  | notifyOne c next =>
    rw [perform, notify]
    split_ifs with hwoken hnone
    · exact .inr (.notifyOne hi hop hwoken)
    · exact .inr (.notifyNone hi hop hnone)
    · exact .inl rfl
  | access f => exact .inr (.access hi hop)

/-- A step does nothing, wakes a thread up, or is what a thread does. -/
theorem step_cases (s : Threads ι σ μ κ L) (a : Action ι) :
    s.step program a = s ∨ (∃ i, a = .wake i ∧ s.step program a = s.rouse i) ∨
      Move program s (s.step program a) := by
  cases a with
  | run i woken =>
    cases hi : s.asleep i with
    | none =>
      simp only [step, hi]
      exact (perform_cases hi woken).imp_right .inr
    | some c =>
      simp only [step, hi]
      exact .inl trivial
  | refuse i =>
    simp only [step]
    split
    · rename_i hi hop
      exact .inr (.inr (.fail hi hop))
    · exact .inl rfl
  | wake i => exact .inr (.inl ⟨i, rfl, rfl⟩)

/-- What `rouse` and every move keep holds after every run. -/
theorem run_invariant {I : Threads ι σ μ κ L → Prop} (hrouse : ∀ s i, I s → I (s.rouse i))
    (hmove : ∀ s s', I s → Move program s s' → I s') {s : Threads ι σ μ κ L} (hs : I s)
    (actions : List (Action ι)) : I (actions.foldl (step program) s) := by
  refine foldl_invariant (fun s a h => ?_) hs actions
  rcases step_cases s a with hsame | ⟨i, -, hwake⟩ | h'
  · rwa [hsame]
  · rw [hwake]
    exact hrouse s i h
  · exact hmove s _ h h'

end Step

section Exclusion

variable {program : ι → L → Op σ μ κ L} {held : ι → L → Finset μ}

/-- The mutexes at the places before and after an operation. -/
def Op.Disciplined (held : L → Finset μ) (l : L) : Op σ μ κ L → Prop
  | .done => held l = ∅
  | .lock m next => m ∉ held l ∧ held next = insert m (held l)
  | .tryLock m success failure =>
    m ∉ held l ∧ held success = insert m (held l) ∧ held failure = held l
  | .unlock m next => m ∈ held l ∧ held next = (held l).erase m
  | .wait _ m next => m ∈ held l ∧ held next = (held l).erase m
  | .notifyOne _ next => held next = held l
  | .access f => ∀ v, held (f v).2 = held l

/-- `held` says which mutexes each thread has locked at each place. -/
def Discipline (program : ι → L → Op σ μ κ L) (held : ι → L → Finset μ) : Prop :=
  ∀ i l, (program i l).Disciplined (held i) l

omit [DecidableEq ι] in
theorem Discipline.of_op (h : Discipline program held) {i : ι} {l : L} {op : Op σ μ κ L}
    (hop : program i l = op) : op.Disciplined (held i) l :=
  hop ▸ h i l

/-- The holder of a mutex is the one thread that is at a place with it. -/
def Exclusive (held : ι → L → Finset μ) (s : Threads ι σ μ κ L) : Prop :=
  ∀ m i, s.holder m = some i ↔ m ∈ held i (s.place i)

omit [DecidableEq ι] [DecidableEq μ] in
/-- Two threads never hold one mutex. -/
theorem Exclusive.disjoint {s : Threads ι σ μ κ L} (h : Exclusive held s) {i j : ι} (hne : i ≠ j) :
    Disjoint (held i (s.place i)) (held j (s.place j)) := by
  refine Finset.disjoint_left.mpr fun m hi hj => hne ?_
  exact Option.some.inj (((h m i).mpr hi).symm.trans ((h m j).mpr hj))

omit [DecidableEq ι] [DecidableEq μ] in
/-- A mutex that no thread has at its place is free. -/
theorem Exclusive.holder_eq_none {s : Threads ι σ μ κ L} (h : Exclusive held s) {m : μ}
    (hm : ∀ i, m ∉ held i (s.place i)) : s.holder m = none :=
  Option.eq_none_iff_forall_ne_some.mpr fun i hi => hm i ((h m i).mp hi)

omit [DecidableEq μ] in
/-- A thread goes to a place with the same mutexes. -/
theorem Exclusive.goto {s : Threads ι σ μ κ L} (h : Exclusive held s) {i : ι} {l : L}
    (hl : held i l = held i (s.place i)) : Exclusive held (s.goto i l) := by
  intro m j
  change s.holder m = some j ↔ m ∈ held j (Function.update s.place i l j)
  by_cases hj : j = i
  · subst hj
    rw [Function.update_self, hl]
    exact h m j
  · rw [Function.update_of_ne hj]
    exact h m j

theorem Exclusive.hold {s : Threads ι σ μ κ L} (h : Exclusive held s) {i : ι} {m : μ} {l : L}
    (hfree : s.holder m = none) (hl : held i l = insert m (held i (s.place i))) :
    Exclusive held ((s.hold m i).goto i l) := by
  intro n j
  change Function.update s.holder m (some i) n = some j ↔ n ∈ held j (Function.update s.place i l j)
  have hnot : m ∉ held j (s.place j) := fun hmem => by
    rw [← h m j, hfree] at hmem
    cases hmem
  by_cases hn : n = m
  · subst hn
    rw [Function.update_self, Option.some_inj]
    by_cases hj : j = i
    · subst hj
      simp [hl]
    · simp [Function.update_of_ne hj, hnot, Ne.symm hj]
  · rw [Function.update_of_ne hn, h n j]
    by_cases hj : j = i
    · subst hj
      simp [hl, hn]
    · rw [Function.update_of_ne hj]

theorem Exclusive.release {s : Threads ι σ μ κ L} (h : Exclusive held s) {i : ι} {m : μ} {l : L}
    (hmem : m ∈ held i (s.place i)) (hl : held i l = (held i (s.place i)).erase m) :
    Exclusive held ((s.release m).goto i l) := by
  intro n j
  change Function.update s.holder m none n = some j ↔ n ∈ held j (Function.update s.place i l j)
  by_cases hj : j = i
  · subst hj
    rw [Function.update_self, hl, Finset.mem_erase]
    by_cases hn : n = m
    · simp [hn]
    · rw [Function.update_of_ne hn, h n j, and_iff_right hn]
  · rw [Function.update_of_ne hj, ← h n j]
    by_cases hn : n = m
    · subst hn
      have hi := (h n i).mpr hmem
      simp [hi, Ne.symm hj]
    · rw [Function.update_of_ne hn]

theorem Exclusive.move (hprogram : Discipline program held) {s s' : Threads ι σ μ κ L}
    (h : Exclusive held s) (hmove : Move program s s') : Exclusive held s' := by
  cases hmove with
  | lock hi hop hfree =>
    rcases hop with hop | ⟨failure, hop⟩
    · exact h.hold hfree (hprogram.of_op hop).2
    · exact h.hold hfree (hprogram.of_op hop).2.1
  | fail hi hop => exact h.goto (hprogram.of_op hop).2.2
  | unlock hi hop => exact h.release (hprogram.of_op hop).1 (hprogram.of_op hop).2
  | wait hi hop => exact h.release (hprogram.of_op hop).1 (hprogram.of_op hop).2
  | notifyOne hi hop hwoken => exact h.goto (hprogram.of_op hop)
  | notifyNone hi hop hnone => exact h.goto (hprogram.of_op hop)
  | access hi hop => exact h.goto (hprogram.of_op hop _)

omit [DecidableEq ι] [DecidableEq μ] in
theorem exclusive_start {memory : σ} {place : ι → L} (h : ∀ i, held i (place i) = ∅) :
    Exclusive held (start memory place : Threads ι σ μ κ L) := by
  intro m i
  change none = some i ↔ m ∈ held i (place i)
  simp [h i]

/-- No two threads hold one mutex, whatever the order of the steps. -/
theorem exclusive_run [Fintype ι] [DecidableEq κ] (hprogram : Discipline program held)
    {s : Threads ι σ μ κ L} (h : Exclusive held s) (actions : List (Action ι)) :
    Exclusive held (actions.foldl (step program) s) :=
  run_invariant (I := Exclusive held) (fun _ _ h => h) (fun _ _ h hmove => h.move hprogram hmove) h
    actions

end Exclusion

section Outlines

variable {program : ι → L → Op σ μ κ L} {held : ι → L → Finset μ}
  {A : ι → L → σ → Prop} {R : μ → σ → Prop}

/-- What an operation is to do with the assertions. A thread gets `R` with the mutex and
gives it back. What it does to the memory keeps `R` for mutexes it does not have, and the
assertions of other threads unless they hold a mutex in common with it. -/
def Op.Outlined (held : ι → L → Finset μ) (A : ι → L → σ → Prop) (R : μ → σ → Prop) (i : ι)
    (l : L) : Op σ μ κ L → Prop
  | .done => True
  | .lock m next => ∀ v, A i l v → R m v → A i next v
  | .tryLock m success failure => ∀ v, A i l v → (R m v → A i success v) ∧ A i failure v
  | .unlock m next => ∀ v, A i l v → A i next v ∧ R m v
  | .wait _ m next => ∀ v, A i l v → A i next v ∧ R m v
  | .notifyOne _ next => ∀ v, A i l v → A i next v
  | .access f => ∀ v, A i l v → A i (f v).2 (f v).1 ∧
    (∀ m, m ∉ held i l → R m v → R m (f v).1) ∧
      ∀ j l', i ≠ j → A j l' v → Disjoint (held i l) (held j l') → A j l' (f v).1

/-- `A` is asserted of the memory when a thread is at a place, and `R` when a mutex is free. -/
def Outline (program : ι → L → Op σ μ κ L) (held : ι → L → Finset μ)
    (A : ι → L → σ → Prop) (R : μ → σ → Prop) : Prop :=
  ∀ i l, (program i l).Outlined held A R i l

omit [DecidableEq ι] [DecidableEq μ] in
theorem Outline.of_op (h : Outline program held A R) {i : ι} {l : L} {op : Op σ μ κ L}
    (hop : program i l = op) : op.Outlined held A R i l :=
  hop ▸ h i l

/-- The assertions of all threads and of the free mutexes. -/
structure Asserted (A : ι → L → σ → Prop) (R : μ → σ → Prop) (s : Threads ι σ μ κ L) : Prop where
  place : ∀ i, A i (s.place i) s.memory
  free : ∀ m, s.holder m = none → R m s.memory

omit [DecidableEq μ] in
/-- A thread goes to a place with its assertion, and the memory and the mutexes are as before. -/
theorem Asserted.goto {s : Threads ι σ μ κ L} (h : Asserted A R s) {i : ι} {l : L}
    (hl : A i l s.memory) : Asserted A R (s.goto i l) := by
  refine ⟨fun j => ?_, h.free⟩
  change A j (Function.update s.place i l j) s.memory
  by_cases hj : j = i
  · subst hj
    rwa [Function.update_self]
  · rw [Function.update_of_ne hj]
    exact h.place j

omit [DecidableEq ι] in
theorem Asserted.hold {s : Threads ι σ μ κ L} (h : Asserted A R s) (m : μ) (i : ι) :
    Asserted A R (s.hold m i) := by
  refine ⟨h.place, fun n hn => ?_⟩
  change Function.update s.holder m (some i) n = none at hn
  by_cases hnm : n = m
  · subst hnm
    rw [Function.update_self] at hn
    cases hn
  · rw [Function.update_of_ne hnm] at hn
    exact h.free n hn

omit [DecidableEq ι] in
theorem Asserted.release {s : Threads ι σ μ κ L} (h : Asserted A R s) {m : μ}
    (hm : R m s.memory) : Asserted A R (s.release m) := by
  refine ⟨h.place, fun n hn => ?_⟩
  change Function.update s.holder m none n = none at hn
  by_cases hnm : n = m
  · subst hnm
    exact hm
  · rw [Function.update_of_ne hnm] at hn
    exact h.free n hn

omit [DecidableEq μ] in
theorem Asserted.sleep {s : Threads ι σ μ κ L} (h : Asserted A R s) (i : ι) (c : κ) :
    Asserted A R (s.sleep i c) :=
  ⟨h.place, h.free⟩

omit [DecidableEq μ] in
theorem Asserted.rouse {s : Threads ι σ μ κ L} (h : Asserted A R s) (i : ι) :
    Asserted A R (s.rouse i) :=
  ⟨h.place, h.free⟩

omit [DecidableEq μ] in
theorem Asserted.access {s : Threads ι σ μ κ L} (houtline : Outline program held A R)
    (hexclusive : Exclusive held s) (h : Asserted A R s) {i : ι} {f : σ → σ × L}
    (hop : program i (s.place i) = .access f) :
    Asserted A R ((s.store (f s.memory).1).goto i (f s.memory).2) := by
  obtain ⟨hnext, hprotects, hstable⟩ := houtline.of_op hop s.memory (h.place i)
  refine ⟨fun j => ?_, fun m hm => ?_⟩
  · change A j (Function.update s.place i _ j) (f s.memory).1
    by_cases hj : j = i
    · subst hj
      rw [Function.update_self]
      exact hnext
    · rw [Function.update_of_ne hj]
      exact hstable j _ (Ne.symm hj) (h.place j) (hexclusive.disjoint (Ne.symm hj))
  · refine hprotects m (fun hmem => ?_) (h.free m hm)
    have hholder : s.holder m = some i := (hexclusive m i).mpr hmem
    have hfree : s.holder m = none := hm
    rw [hholder] at hfree
    cases hfree

theorem Asserted.move (houtline : Outline program held A R) {s s' : Threads ι σ μ κ L}
    (hexclusive : Exclusive held s) (h : Asserted A R s) (hmove : Move program s s') :
    Asserted A R s' := by
  cases hmove with
  | @lock i m next hi hop hfree =>
    apply (h.hold m i).goto
    rcases hop with hop | ⟨failure, hop⟩
    · exact houtline.of_op hop _ (h.place i) (h.free m hfree)
    · exact (houtline.of_op hop _ (h.place i)).1 (h.free m hfree)
  | @fail i m success failure hi hop => exact h.goto (houtline.of_op hop _ (h.place i)).2
  | @unlock i m next hi hop =>
    obtain ⟨hnext, hm⟩ := houtline.of_op hop _ (h.place i)
    exact (h.release hm).goto hnext
  | @wait i c m next hi hop =>
    obtain ⟨hnext, hm⟩ := houtline.of_op hop _ (h.place i)
    exact ((h.release hm).sleep i c).goto hnext
  | @notifyOne i woken c next hi hop hwoken =>
    exact (h.rouse woken).goto (houtline.of_op hop _ (h.place i))
  | @notifyNone i c next hi hop hnone => exact h.goto (houtline.of_op hop _ (h.place i))
  | access hi hop => exact h.access houtline hexclusive hop

/-- The assertions of an outline hold in every state of every run. -/
theorem asserted_run [Fintype ι] [DecidableEq κ] (hprogram : Discipline program held)
    (houtline : Outline program held A R) {s : Threads ι σ μ κ L} (hexclusive : Exclusive held s)
    (h : Asserted A R s) (actions : List (Action ι)) :
    Asserted A R (actions.foldl (step program) s) :=
  (run_invariant (I := fun s => Exclusive held s ∧ Asserted A R s)
    (fun _ i h => ⟨h.1, h.2.rouse i⟩)
    (fun _ _ h hmove => ⟨h.1.move hprogram hmove, h.2.move houtline h.1 hmove⟩)
    ⟨hexclusive, h⟩ actions).2

end Outlines

end Threads

end BuildYourOwnStuff.Foundations
