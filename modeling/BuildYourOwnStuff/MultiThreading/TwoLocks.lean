import BuildYourOwnStuff.Foundations.Blocking

/-!
# Two mutexes

Threads that need two mutexes deadlock if they lock them one after the other in
different orders. With `std::lock`, which gives the first one back when it does not get
the second, they never do.
-/

namespace BuildYourOwnStuff.MultiThreading

open Foundations Threads

inductive Mutex
  | m1
  | m2
  deriving DecidableEq, Repr

def Mutex.other : Mutex → Mutex
  | m1 => m2
  | m2 => m1

@[simp] theorem Mutex.other_ne (m : Mutex) : m.other ≠ m := by
  cases m <;> decide

@[simp] theorem Mutex.ne_other (m : Mutex) : m ≠ m.other := m.other_ne.symm

@[simp] theorem Mutex.other_other (m : Mutex) : m.other.other = m := by
  cases m <;> rfl

theorem Mutex.eq_other_of_ne {m n : Mutex} (h : m ≠ n) : m = n.other := by
  cases m <;> cases n <;> first | rfl | exact absurd rfl h

namespace DeadLock

/-- A thread that locks both mutexes: the one that it locks first, and the one that it
unlocks first. -/
structure Task where
  locks : Mutex
  unlocks : Mutex
  deriving DecidableEq, Repr

def thread1 : Task := ⟨.m1, .m1⟩

def thread2 : Task := ⟨.m1, .m2⟩

inductive Place
  | lockFirst
  | lockSecond
  | critical
  | unlockFirst
  | unlockSecond
  | finished
  deriving DecidableEq, Repr

variable {ι : Type} [DecidableEq ι] (tasks : ι → Task)

/-- The memory holds the threads that have been in the critical section, the last one first. -/
def program (i : ι) : Place → Op (List ι) Mutex Empty Place
  | .lockFirst => .lock (tasks i).locks .lockSecond
  | .lockSecond => .lock (tasks i).locks.other .critical
  | .critical => .access fun entered => (i :: entered, .unlockFirst)
  | .unlockFirst => .unlock (tasks i).unlocks .unlockSecond
  | .unlockSecond => .unlock (tasks i).unlocks.other .finished
  | .finished => .done

def held (i : ι) : Place → Finset Mutex
  | .lockFirst => ∅
  | .lockSecond => {(tasks i).locks}
  | .critical => {.m1, .m2}
  | .unlockFirst => {.m1, .m2}
  | .unlockSecond => {(tasks i).unlocks.other}
  | .finished => ∅

def init : Threads ι (List ι) Mutex Empty Place := start [] fun _ => .lockFirst

variable {tasks}

omit [DecidableEq ι] in
theorem discipline : Discipline (program tasks) (held tasks) := by
  intro i l
  cases l with
  | lockSecond =>
    refine ⟨by simp [held], ?_⟩
    cases h : (tasks i).locks <;> simp only [held, h] <;> decide
  | unlockFirst =>
    refine ⟨by cases (tasks i).unlocks <;> simp [held], ?_⟩
    cases h : (tasks i).unlocks <;> simp only [held, h] <;> decide
  | _ => simp [program, Op.Disciplined, held]

omit [DecidableEq ι] in
theorem not_next (i : ι) (l : Place) : ¬ (program tasks i l).Next l := by
  cases l <;> simp [program, Op.Next]

omit [DecidableEq ι] in
/-- If all threads lock the same mutex first, it is the lower one. -/
theorem ordered {m : Mutex} (h : ∀ i, (tasks i).locks = m) :
    Ordered (program tasks) (held tasks) fun n => if n = m then 0 else 1 := by
  intro i l
  cases l with
  | lockSecond => simp [program, Op.Ordered, held, h i]
  | _ => simp [program, Op.Ordered, held]

variable [Fintype ι]

def run (tasks : ι → Task) (actions : List (Action ι)) : Threads ι (List ι) Mutex Empty Place :=
  actions.foldl (step (program tasks)) init

theorem exclusive_run (tasks : ι → Task) (actions : List (Action ι)) :
    Exclusive (held tasks) (run tasks actions) :=
  Threads.exclusive_run discipline (exclusive_start fun _ => rfl) actions

theorem finished_of_halted {m : Mutex} (horder : ∀ i, (tasks i).locks = m)
    (actions : List (Action ι)) (h : (run tasks actions).Halted (program tasks)) (i : ι) :
    (run tasks actions).place i = .finished := by
  have hasleep : ∀ i, (run tasks actions).asleep i = none := fun i => Subsingleton.elim _ _
  have hend := asleep_or_done_of_blocked discipline (ordered horder)
    (exclusive_run tasks actions) (fun i hi => absurd (hasleep i) hi) (blocked_of_halted not_next h)
  have hdone := (hend i).resolve_left fun hi => hi (hasleep i)
  cases hplace : (run tasks actions).place i <;> rw [hplace] at hdone <;>
    first | rfl | cases hdone

/-- Each of two threads has locked one mutex and waits for that of the other. -/
theorem halted_of_ne {i j : ι} (h : (tasks i).locks ≠ (tasks j).locks) :
    (run tasks [.run i i, .run j j]).Halted (program tasks) ∧
      (run tasks [.run i i, .run j j]).place i = .lockSecond := by
  have hne : i ≠ j := by
    rintro rfl
    exact h rfl
  have hstate : run tasks [.run i i, .run j j] = ⟨[],
      Function.update (Function.update (fun _ => none) (tasks i).locks (some i)) (tasks j).locks
        (some j),
      Function.update (Function.update (fun _ => .lockFirst) i .lockSecond) j .lockSecond,
      fun _ => none⟩ := by
    simp [run, init, start, step, perform, program, hold, goto, hne.symm, h.symm]
  have hfirst : (tasks i).locks = (tasks j).locks.other := Mutex.eq_other_of_ne h
  have hsecond : (tasks j).locks = (tasks i).locks.other := Mutex.eq_other_of_ne h.symm
  rw [hstate]
  refine ⟨fun k woken => step_of_blocked (.inr (.inr ?_)) woken, ?_⟩
  · by_cases hj : k = j
    · subst hj
      refine ⟨(tasks k).locks.other, .critical, by simp [program], ?_⟩
      rw [← hfirst]
      simp [h]
    · by_cases hi : k = i
      · subst hi
        refine ⟨(tasks k).locks.other, .critical, by simp [program, hj], ?_⟩
        rw [← hsecond]
        simp
      · refine ⟨(tasks k).locks, .lockSecond, by simp [program, hj, hi], ?_⟩
        -- every mutex has been locked by one of the two
        by_cases hk : (tasks k).locks = (tasks j).locks
        · simp [hk]
        · rw [Mutex.eq_other_of_ne hk, ← hfirst]
          simp [h]
  · simp [hne]

/-- Some run ends although a thread has not finished. -/
def Deadlocks (tasks : ι → Task) : Prop :=
  ∃ actions, (run tasks actions).Halted (program tasks) ∧
    ∃ i, (run tasks actions).place i ≠ .finished

/-- Threads deadlock in some order of their steps exactly when two of them lock the mutexes in
different orders; the order in which they unlock them does not matter. -/
theorem deadlocks_iff (tasks : ι → Task) :
    Deadlocks tasks ↔ ∃ i j, (tasks i).locks ≠ (tasks j).locks := by
  constructor
  · rintro ⟨actions, hhalted, i, hi⟩
    by_contra hsame
    simp only [not_exists, not_not] at hsame
    exact hi (finished_of_halted (fun j => hsame j i) actions hhalted i)
  · rintro ⟨i, j, h⟩
    obtain ⟨hhalted, hplace⟩ := halted_of_ne h
    exact ⟨_, hhalted, i, by rw [hplace]; decide⟩

end DeadLock

namespace LockInCpp

/-- The places in the loop of `taks_a` and `task_b`. `std::lock` locks one mutex and tries the
other one; if it does not get it, it gives the first one back and starts again. -/
inductive Place
  | lock (m : Mutex)
  | tryOther (m : Mutex)
  | giveBack (m : Mutex)
  | critical
  | unlockFirst
  | unlockSecond
  deriving DecidableEq, Repr

variable {ι : Type} [DecidableEq ι] (first : ι → Mutex) (again : Mutex → Mutex)

/-- `first` is the first argument of `std::lock`, and `again` says with which mutex it starts
again. The memory holds the threads that have been in the critical section, the last one first. -/
def program (i : ι) : Place → Op (List ι) Mutex Empty Place
  | .lock m => .lock m (.tryOther m)
  | .tryOther m => .tryLock m.other .critical (.giveBack m)
  | .giveBack m => .unlock m (.lock (again m))
  | .critical => .access fun entered => (i :: entered, .unlockFirst)
  | .unlockFirst => .unlock (first i) .unlockSecond
  | .unlockSecond => .unlock (first i).other (.lock (first i))

def held (i : ι) : Place → Finset Mutex
  | .lock _ => ∅
  | .tryOther m => {m}
  | .giveBack m => {m}
  | .critical => {.m1, .m2}
  | .unlockFirst => {.m1, .m2}
  | .unlockSecond => {(first i).other}

/-- The mutex that `taks_a` passes first -/
def taskA : Mutex := .m1

/-- The mutex that `task_b` passes first -/
def taskB : Mutex := .m2

def init : Threads ι (List ι) Mutex Empty Place := start [] fun i => .lock (first i)

variable {first again}

omit [DecidableEq ι] in
theorem discipline : Discipline (program first again) (held first) := by
  intro i l
  cases l with
  | tryOther m =>
    refine ⟨by simp [held], ?_, rfl⟩
    cases m <;> simp only [held] <;> decide
  | unlockFirst =>
    refine ⟨by cases first i <;> simp [held], ?_⟩
    cases h : first i <;> simp only [held, h] <;> decide
  | _ => simp [program, Op.Disciplined, held]

/-- How many steps a thread takes at most until it has no mutex. -/
def Place.ahead : Place → ℕ
  | lock _ => 0
  | tryOther _ => 4
  | critical => 3
  | unlockFirst => 2
  | giveBack _ => 1
  | unlockSecond => 1

omit [DecidableEq ι] in
theorem ahead_of_next {i : ι} {l next : Place} (h : (program first again i l).Next next)
    (hl : l.ahead ≠ 0) : next.ahead < l.ahead := by
  cases l with
  | lock m => exact absurd rfl hl
  | tryOther m => rcases h with rfl | rfl <;> simp [Place.ahead]
  | critical =>
    obtain ⟨v, rfl⟩ := h
    simp [Place.ahead]
  | _ =>
    cases h
    simp [Place.ahead]

omit [DecidableEq ι] in
theorem held_of_ahead {i : ι} {l : Place} (h : l.ahead = 0) : held first i l = ∅ := by
  cases l <;> first | rfl | cases h

variable [Fintype ι]

def run (first : ι → Mutex) (again : Mutex → Mutex) (actions : List (Action ι)) :
    Threads ι (List ι) Mutex Empty Place :=
  actions.foldl (step (program first again)) (init first)

theorem exclusive_run (first : ι → Mutex) (again : Mutex → Mutex) (actions : List (Action ι)) :
    Exclusive (held first) (run first again actions) :=
  Threads.exclusive_run discipline (exclusive_start fun _ => rfl) actions

theorem run_append (actions more : List (Action ι)) : run first again (actions ++ more) =
    more.foldl (step (program first again)) (run first again actions) :=
  List.foldl_append

variable (first again) in
/-- A thread can give back what it has, and the others stay where they are. -/
theorem exists_without (actions : List (Action ι)) (i : ι) : ∃ more,
    ((run first again (actions ++ more)).place i).ahead = 0 ∧
      ∀ k ≠ i, (run first again (actions ++ more)).place k = (run first again actions).place k := by
  induction hn : ((run first again actions).place i).ahead using Nat.strong_induction_on
    generalizing actions with
  | _ n ih =>
    by_cases hzero : n = 0
    · exact ⟨[], by rw [List.append_nil, hn, hzero], fun k _ => by rw [List.append_nil]⟩
    · have hblocked : ¬ (run first again actions).Blocked (program first again) i := by
        rintro (h | h | ⟨m, next, h, -⟩)
        · exact h (Subsingleton.elim _ _)
        · cases hplace : (run first again actions).place i <;> rw [hplace] at h <;> cases h
        · cases hplace : (run first again actions).place i <;> rw [hplace] at h hn <;> cases h
          exact hzero hn.symm
      obtain ⟨woken, hnext⟩ := exists_next_of_not_blocked hblocked
      have hlt := ahead_of_next hnext (by rw [hn]; exact hzero)
      obtain ⟨more, hmore, hothers⟩ := ih _ (hn ▸ hlt) (actions ++ [.run i woken])
        (by rw [run_append]; rfl)
      rw [List.append_assoc] at hmore hothers
      refine ⟨[.run i woken] ++ more, hmore, fun k hk => ?_⟩
      rw [hothers k hk, run_append]
      exact place_run_of_ne _ hk woken

/-- So can all threads, one after the other. -/
theorem exists_all_without (actions : List (Action ι)) (is : Finset ι) : ∃ more,
    ∀ i ∈ is, ((run first again (actions ++ more)).place i).ahead = 0 := by
  induction is using Finset.induction_on with
  | empty => exact ⟨[], by simp⟩
  | insert i is hi ih =>
    obtain ⟨more, hmore⟩ := ih
    obtain ⟨more', hzero, hothers⟩ := exists_without first again (actions ++ more) i
    rw [List.append_assoc] at hzero hothers
    refine ⟨more ++ more', fun k hk => ?_⟩
    by_cases hki : k = i
    · rw [hki, hzero]
    · rw [hothers k hki]
      exact hmore k ((Finset.mem_insert.mp hk).resolve_left hki)

/-- In whatever order the threads name the mutexes, one at a time is in the critical section,
and whatever has happened, each of them can still get there. -/
theorem critical_reachable (first : ι → Mutex) (again : Mutex → Mutex)
    (actions : List (Action ι)) :
    (∀ i j, (run first again actions).place i = .critical →
      (run first again actions).place j = .critical → i = j) ∧
    ∀ i, ∃ more, (run first again (actions ++ more)).place i = .critical := by
  constructor
  · intro i j hi hj
    by_contra hne
    have hdisjoint := (exclusive_run first again actions).disjoint hne
    rw [hi, hj] at hdisjoint
    exact absurd hdisjoint (by simp [held])
  · intro i
    obtain ⟨more, hmore⟩ := exists_all_without actions Finset.univ
    have hfree : ∀ m, (run first again (actions ++ more)).holder m = none := fun m =>
      (exclusive_run first again (actions ++ more)).holder_eq_none fun j => by
        rw [held_of_ahead (hmore j (Finset.mem_univ j))]
        exact Finset.notMem_empty m
    have hasleep : (run first again (actions ++ more)).asleep i = none := Subsingleton.elim _ _
    have hplace := hmore i (Finset.mem_univ i)
    refine ⟨more ++ [.run i i, .run i i], ?_⟩
    rw [← List.append_assoc, run_append]
    generalize run first again (actions ++ more) = s at hfree hasleep hplace
    cases hl : s.place i <;> rw [hl] at hplace <;> cases hplace
    simp [step, hasleep, hl, program, perform, hfree, hold, goto]

end LockInCpp

end BuildYourOwnStuff.MultiThreading
