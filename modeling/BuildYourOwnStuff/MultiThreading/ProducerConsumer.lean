import BuildYourOwnStuff.Foundations.Blocking

/-!
# Producer and consumer

Producers and consumers share a buffer, a mutex and one condition variable, on which
both kinds wait and which each of them notifies after it has unlocked the mutex. The
buffer never overflows and nothing is lost, for any number of threads. With one
producer and one consumer no wakeup goes to a thread that cannot use it, so all that
is produced is consumed.
-/

namespace BuildYourOwnStuff.MultiThreading.ProducerConsumer

open Foundations Threads

def maxBufferSize : ℕ := 50

inductive Mutex
  | mu
  deriving DecidableEq, Repr

inductive Condition
  | cond
  deriving DecidableEq, Repr

/-- The buffer. The last three fields are not read: what has been produced and by whom,
what has been consumed, and whether `back` was called on an empty buffer. -/
structure Shared (ι : Type) where
  buffer : List ℕ
  produced : List (ι × ℕ)
  consumed : List ℕ
  undefined : Bool

/-- The places in `producer`, each with its `val`, and in `consumer`. -/
inductive Place
  | produce (val : ℕ)
  | relock (val : ℕ)
  | checkSpace (val : ℕ)
  | waitSpace (val : ℕ)
  | push (val : ℕ)
  | unlockProduced (val : ℕ)
  | notifyProduced (val : ℕ)
  | consume
  | checkValue
  | waitValue
  | pop
  | unlockConsumed
  | notifyConsumed
  deriving DecidableEq, Repr

/-- What the threads run. No producer starts below zero, from where its loop would count down
without end. -/
inductive Role
  | producer (val : ℕ)
  | consumer
  deriving DecidableEq, Repr

def Role.start : Role → Place
  | producer val => .produce val
  | consumer => .consume

variable {ι : Type}

def HasSpace (v : Shared ι) : Prop := v.buffer.length < maxBufferSize

def HasValue (v : Shared ι) : Prop := 0 < v.buffer.length

instance (v : Shared ι) : Decidable (HasSpace v) := inferInstanceAs (Decidable (_ < _))

instance (v : Shared ι) : Decidable (HasValue v) := inferInstanceAs (Decidable (_ < _))

/-- `buffer.push_back(val)` -/
def Shared.pushBack (v : Shared ι) (i : ι) (val : ℕ) : Shared ι :=
  { v with buffer := v.buffer ++ [val], produced := v.produced ++ [(i, val)] }

/-- `buffer.back()` and `buffer.pop_back()` -/
def Shared.popBack (v : Shared ι) : Shared ι :=
  match v.buffer.getLast? with
  | some val => { v with buffer := v.buffer.dropLast, consumed := v.consumed ++ [val] }
  | none => { v with undefined := true }

def program (i : ι) : Place → Op (Shared ι) Mutex Condition Place
  | .produce val => if val ≠ 0 then .lock .mu (.checkSpace val) else .done
  | .relock val => .lock .mu (.checkSpace val)
  | .checkSpace val => .access fun v => (v, if HasSpace v then .push val else .waitSpace val)
  | .waitSpace val => .wait .cond .mu (.relock val)
  | .push val => .access fun v => (v.pushBack i val, .unlockProduced (val - 1))
  | .unlockProduced val => .unlock .mu (.notifyProduced val)
  | .notifyProduced val => .notifyOne .cond (.produce val)
  | .consume => .lock .mu .checkValue
  | .checkValue => .access fun v => (v, if HasValue v then .pop else .waitValue)
  | .waitValue => .wait .cond .mu .consume
  | .pop => .access fun v => (v.popBack, .unlockConsumed)
  | .unlockConsumed => .unlock .mu .notifyConsumed
  | .notifyConsumed => .notifyOne .cond .consume

def held : Place → Finset Mutex
  | .checkSpace _ | .waitSpace _ | .push _ | .unlockProduced _ => {.mu}
  | .checkValue | .waitValue | .pop | .unlockConsumed => {.mu}
  | _ => ∅

theorem discipline : Discipline (program (ι := ι)) fun _ => held := by
  intro i l
  cases l with
  | produce val =>
    by_cases hval : val = 0
    · simp [program, hval, Op.Disciplined, held]
    · simp [program, hval, Op.Disciplined, held]
  | checkSpace val => exact fun v => by by_cases h : HasSpace v <;> simp [h, held]
  | checkValue => exact fun v => by by_cases h : HasValue v <;> simp [h, held]
  | _ => simp [program, Op.Disciplined, held]

section Safety

variable [DecidableEq ι] (roles : ι → Role)

/-- What a thread has produced. -/
def producedBy (i : ι) (v : Shared ι) : List ℕ :=
  (v.produced.filter fun p => p.1 = i).map Prod.snd

/-- The values from `start` down to the one above `val`. -/
def countdown (start val : ℕ) : List ℕ := (List.range (start - val)).map (start - ·)

/-- What each access keeps. -/
structure Good (v : Shared ι) : Prop where
  bounded : v.buffer.length ≤ maxBufferSize
  kept : (v.consumed ++ v.buffer).Perm (v.produced.map Prod.snd)
  defined : v.undefined = false

/-- The `val` at a place of a producer. -/
def Place.val? : Place → Option ℕ
  | produce val | relock val | checkSpace val | waitSpace val => some val
  | push val | unlockProduced val | notifyProduced val => some val
  | _ => none

/-- The place is one of the code that a thread runs, and a producer has produced the values
that come before its `val`. -/
def Reached (mine : List ℕ) (l : Place) : Role → Prop
  | .producer start => ∃ val, l.val? = some val ∧ val ≤ start ∧ mine = countdown start val
  | .consumer => l.val? = none ∧ mine = []

/-- What a thread knows at a place. -/
def Known (v : Shared ι) : Place → Prop
  | .relock val | .checkSpace val => val ≠ 0
  | .waitSpace val => val ≠ 0 ∧ ¬ HasSpace v
  | .push val => val ≠ 0 ∧ HasSpace v
  | .waitValue => ¬ HasValue v
  | .pop => HasValue v
  | _ => True

def Asserts (i : ι) (l : Place) (v : Shared ι) : Prop :=
  Good v ∧ Reached (producedBy i v) l (roles i) ∧ Known v l

/-- No thread has started. -/
def init : Threads ι (Shared ι) Mutex Condition Place :=
  start ⟨[], [], [], false⟩ fun i => (roles i).start

theorem countdown_self (start : ℕ) : countdown start start = [] := by
  simp [countdown]

theorem countdown_pred {start val : ℕ} (hval : val ≠ 0) (hle : val ≤ start) :
    countdown start (val - 1) = countdown start val ++ [val] := by
  have hsucc : start - (val - 1) = (start - val) + 1 := by omega
  have hlast : start - (start - val) = val := by omega
  rw [countdown, hsucc, List.range_succ, List.map_append, List.map_singleton, hlast, countdown]

theorem producedBy_pushBack (v : Shared ι) (i j : ι) (val : ℕ) :
    producedBy j (v.pushBack i val) = producedBy j v ++ if i = j then [val] else [] := by
  by_cases h : i = j <;> simp [producedBy, Shared.pushBack, h]

theorem producedBy_popBack (v : Shared ι) (j : ι) : producedBy j v.popBack = producedBy j v := by
  unfold Shared.popBack
  split <;> rfl

omit [DecidableEq ι] in
theorem Good.pushBack {v : Shared ι} (h : Good v) (i : ι) (val : ℕ) (hspace : HasSpace v) :
    Good (v.pushBack i val) := by
  refine ⟨?_, ?_, h.defined⟩
  · change (v.buffer ++ [val]).length ≤ maxBufferSize
    rw [List.length_append]
    exact hspace
  · change (v.consumed ++ (v.buffer ++ [val])).Perm ((v.produced ++ [(i, val)]).map Prod.snd)
    rw [List.map_append, ← List.append_assoc]
    exact h.kept.append_right _

omit [DecidableEq ι] in
/-- A value is taken from the end of the buffer. -/
theorem popBack_eq {v : Shared ι} (h : HasValue v) : ∃ rest val, v.buffer = rest ++ [val] ∧
    v.popBack = { v with buffer := rest, consumed := v.consumed ++ [val] } := by
  have hne : v.buffer ≠ [] := List.ne_nil_of_length_pos h
  refine ⟨v.buffer.dropLast, v.buffer.getLast hne, (List.dropLast_append_getLast hne).symm, ?_⟩
  rw [Shared.popBack, List.getLast?_eq_some_getLast hne]

omit [DecidableEq ι] in
theorem Good.popBack {v : Shared ι} (h : Good v) (hvalue : HasValue v) : Good v.popBack := by
  obtain ⟨rest, val, hbuffer, hpop⟩ := popBack_eq hvalue
  obtain ⟨hbounded, hkept, hdefined⟩ := h
  rw [hbuffer] at hbounded hkept
  rw [List.length_append] at hbounded
  rw [hpop]
  refine ⟨by simp only; omega, ?_, hdefined⟩
  simp only
  refine List.Perm.trans ?_ hkept
  rw [List.append_assoc]
  exact (List.perm_append_comm).append_left _

omit [DecidableEq ι] in
/-- What a thread without the mutex knows does not depend on the memory. -/
theorem Known.of_disjoint {v : Shared ι} (v' : Shared ι) {l l' : Place}
    (hl : held l = {.mu}) (hdisjoint : Disjoint (held l) (held l')) (h : Known v l') :
    Known v' l' := by
  rw [hl, Finset.disjoint_singleton_left] at hdisjoint
  cases l' <;> simp_all [Known, held]

variable {roles}

/-- A place with the same `val`. -/
theorem Reached.of_val {mine : List ℕ} {l l' : Place} {role : Role} (h : Reached mine l role)
    (hval : l'.val? = l.val?) : Reached mine l' role := by
  cases role with
  | producer start =>
    rw [Reached, hval]
    exact h
  | consumer =>
    rw [Reached, hval]
    exact h

theorem asserts_push {i : ι} {val : ℕ} {v : Shared ι} (h : Asserts roles i (.push val) v) :
    Asserts roles i (.unlockProduced (val - 1)) (v.pushBack i val) := by
  obtain ⟨hgood, hreached, hval, hspace⟩ := h
  refine ⟨hgood.pushBack i val hspace, ?_, trivial⟩
  cases hrole : roles i with
  | producer start =>
    rw [hrole] at hreached
    obtain ⟨_, ⟨⟩, hle, hmine⟩ := hreached
    refine ⟨val - 1, rfl, by omega, ?_⟩
    rw [producedBy_pushBack, if_pos rfl, hmine, countdown_pred hval hle]
  | consumer =>
    rw [hrole] at hreached
    cases hreached.1

theorem outline : Outline program (fun _ => held) (Asserts roles) fun _ _ => True := by
  intro i l
  cases l with
  | produce val =>
    by_cases hval : val = 0
    · simp [program, hval, Op.Outlined]
    · rw [program, if_pos hval]
      exact fun v hA _ => ⟨hA.1, hA.2.1.of_val rfl, hval⟩
  | relock val => exact fun v hA _ => ⟨hA.1, hA.2.1.of_val rfl, hA.2.2⟩
  | checkSpace val =>
    refine fun v hA => ⟨?_, fun _ _ h => h, fun _ _ _ hA' _ => hA'⟩
    dsimp only
    split_ifs with hspace
    · exact ⟨hA.1, hA.2.1.of_val rfl, hA.2.2, hspace⟩
    · exact ⟨hA.1, hA.2.1.of_val rfl, hA.2.2, hspace⟩
  | waitSpace val => exact fun v hA => ⟨⟨hA.1, hA.2.1.of_val rfl, hA.2.2.1⟩, trivial⟩
  | push val =>
    refine fun v hA => ⟨asserts_push hA, fun _ _ h => h, fun j l' hne hA' hdisjoint => ?_⟩
    refine ⟨hA.1.pushBack i val hA.2.2.2, ?_, hA'.2.2.of_disjoint _ rfl hdisjoint⟩
    rw [producedBy_pushBack, if_neg hne, List.append_nil]
    exact hA'.2.1
  | unlockProduced val => exact fun v hA => ⟨⟨hA.1, hA.2.1.of_val rfl, trivial⟩, trivial⟩
  | notifyProduced val => exact fun v hA => ⟨hA.1, hA.2.1.of_val rfl, trivial⟩
  | consume => exact fun v hA _ => ⟨hA.1, hA.2.1.of_val rfl, trivial⟩
  | checkValue =>
    refine fun v hA => ⟨?_, fun _ _ h => h, fun _ _ _ hA' _ => hA'⟩
    dsimp only
    split_ifs with hvalue
    · exact ⟨hA.1, hA.2.1.of_val rfl, hvalue⟩
    · exact ⟨hA.1, hA.2.1.of_val rfl, hvalue⟩
  | waitValue => exact fun v hA => ⟨⟨hA.1, hA.2.1.of_val rfl, trivial⟩, trivial⟩
  | pop =>
    refine fun v hA => ⟨⟨hA.1.popBack hA.2.2, ?_, trivial⟩, fun _ _ h => h,
      fun j l' hne hA' hdisjoint => ⟨hA.1.popBack hA.2.2, ?_, hA'.2.2.of_disjoint _ rfl hdisjoint⟩⟩
    · rw [producedBy_popBack]
      exact hA.2.1.of_val rfl
    · rw [producedBy_popBack]
      exact hA'.2.1
  | unlockConsumed => exact fun v hA => ⟨⟨hA.1, hA.2.1.of_val rfl, trivial⟩, trivial⟩
  | notifyConsumed => exact fun v hA => ⟨hA.1, hA.2.1.of_val rfl, trivial⟩

/-- How many steps a thread takes at most until it sleeps, or is at the start of its loop. -/
def Place.ahead : Place → ℕ
  | produce _ | relock _ | consume => 4
  | checkSpace _ | checkValue => 3
  | push _ | pop => 2
  | waitSpace _ | waitValue => 1
  | unlockProduced _ | unlockConsumed => 10
  | notifyProduced _ | notifyConsumed => 9

omit [DecidableEq ι] in
/-- A thread that sleeps is to lock the mutex again. -/
theorem ahead_of_wait (i : ι) (l : Place) (c : Condition) (m : Mutex) (next : Place)
    (h : program i l = .wait c m next) : held next = ∅ ∧ next.ahead = 4 := by
  cases l with
  | produce val => by_cases hval : val = 0 <;> simp [program, hval] at h
  | waitSpace val =>
    cases h
    exact ⟨rfl, rfl⟩
  | waitValue =>
    cases h
    exact ⟨rfl, rfl⟩
  | _ => simp [program] at h

variable (roles) in
theorem annotated : Annotated program (fun _ => held) (Asserts roles) (fun _ _ => True)
    fun _ l => held l = ∅ ∧ l.ahead = 4 :=
  ⟨discipline, outline, ahead_of_wait⟩

theorem kept_init (roles : ι → Role) : Kept (fun _ => held) (Asserts roles) (fun _ _ => True)
    (fun _ l => held l = ∅ ∧ l.ahead = 4) (init roles) := by
  refine kept_start (fun i => by cases roles i <;> rfl) (fun i => ?_) fun _ => trivial
  refine ⟨⟨Nat.zero_le _, List.Perm.refl _, rfl⟩, ?_, ?_⟩
  · cases hrole : roles i with
    | producer start => exact ⟨start, rfl, le_rfl, (countdown_self start).symm⟩
    | consumer => exact ⟨rfl, rfl⟩
  · cases roles i <;> simp [Role.start, Known]

variable [Fintype ι]

/-- The state after some steps. -/
def run (roles : ι → Role) (actions : List (Action ι)) :
    Threads ι (Shared ι) Mutex Condition Place :=
  actions.foldl (step program) (init roles)

theorem kept_run (roles : ι → Role) (actions : List (Action ι)) :
    Kept (fun _ => held) (Asserts roles) (fun _ _ => True)
      (fun _ l => held l = ∅ ∧ l.ahead = 4) (run roles actions) :=
  (kept_init roles).run (annotated roles) actions

theorem good_run (roles : ι → Role) (actions : List (Action ι)) :
    Good (run roles actions).memory := by
  cases isEmpty_or_nonempty ι with
  | inl hempty =>
    rw [eq_nil_of_isEmpty actions]
    exact ⟨Nat.zero_le _, List.Perm.refl _, rfl⟩
  | inr hnonempty => exact ((kept_run roles actions).asserted.place hnonempty.some).1

theorem reached_run (roles : ι → Role) (actions : List (Action ι)) (i : ι) :
    Reached (producedBy i (run roles actions).memory) ((run roles actions).place i) (roles i) :=
  ((kept_run roles actions).asserted.place i).2.1

/-- Whatever the number of producers and consumers and the order of their steps, the
buffer has room for what is pushed and something when it is popped, each value that was
produced is in the buffer or was consumed once, and each producer counts down. -/
theorem buffer_kept (roles : ι → Role) (actions : List (Action ι)) :
    let v := (run roles actions).memory
    v.buffer.length ≤ maxBufferSize ∧ v.undefined = false ∧
      (v.consumed ++ v.buffer).Perm (v.produced.map Prod.snd) ∧
      ∀ i, match roles i with
        | .producer start => ∃ val ≤ start, producedBy i v = countdown start val
        | .consumer => producedBy i v = [] := by
  obtain ⟨hbounded, hkept, hdefined⟩ := good_run roles actions
  refine ⟨hbounded, hdefined, hkept, fun i => ?_⟩
  have hreached := reached_run roles actions i
  cases hrole : roles i with
  | producer start =>
    rw [hrole] at hreached
    obtain ⟨val, -, hle, hmine⟩ := hreached
    exact ⟨val, hle, hmine⟩
  | consumer =>
    rw [hrole] at hreached
    exact hreached.2

end Safety

section Progress

variable [DecidableEq ι] {roles : ι → Role}

/-- The condition for which the threads of a role wait. -/
def Role.WaitsFor (v : Shared ι) : Role → Prop
  | producer _ => HasSpace v
  | consumer => HasValue v

/-- The thread has changed the buffer and is about to call `notify_one`. -/
def Pending : Place → Prop
  | .unlockProduced _ | .notifyProduced _ | .unlockConsumed | .notifyConsumed => True
  | _ => False

theorem wakeups : Wakeups program (Asserts roles) .cond (fun i v => (roles i).WaitsFor v)
    fun _ => Pending where
  wakes i l := by
    cases l with
    | produce val => by_cases hval : val = 0 <;> simp [program, hval, Op.Wakes]
    | checkSpace val => exact fun v j _ _ hfalse htrue => absurd htrue hfalse
    | checkValue => exact fun v j _ _ hfalse htrue => absurd htrue hfalse
    | push val => exact fun _ _ _ _ _ _ => trivial
    | pop => exact fun _ _ _ _ _ _ => trivial
    | waitSpace val =>
      rintro - v ⟨-, hreached, -, hspace⟩
      dsimp only
      cases hrole : roles i with
      | producer start => exact hspace
      | consumer =>
        rw [hrole] at hreached
        cases hreached.1
    | waitValue =>
      rintro - v ⟨-, hreached, hvalue⟩
      dsimp only
      cases hrole : roles i with
      | producer start =>
        rw [hrole] at hreached
        obtain ⟨_, hval, -⟩ := hreached
        cases hval
      | consumer => exact hvalue
    | _ => trivial
  pending i l h := by
    cases l with
    | unlockProduced val => trivial
    | notifyProduced val => rfl
    | unlockConsumed => trivial
    | notifyConsumed => rfl
    | _ => cases h

omit [DecidableEq ι] in
theorem not_next (i : ι) (l : Place) : ¬ (program i l).Next l := by
  cases l with
  | produce val => by_cases hval : val = 0 <;> simp [program, hval, Op.Next]
  | checkSpace val =>
    rintro ⟨v, hl⟩
    dsimp only at hl
    split_ifs at hl
  | checkValue =>
    rintro ⟨v, hl⟩
    dsimp only at hl
    split_ifs at hl
  | _ => simp [program, Op.Next]

omit [DecidableEq ι] in
theorem ordered : Ordered (program (ι := ι)) (fun _ => held) fun _ => 0 := by
  intro i l
  cases l with
  | produce val => by_cases hval : val = 0 <;> simp [program, hval, Op.Ordered, held]
  | _ => simp [program, Op.Ordered, held]

/-- A value that is to be produced is to be consumed too, and each of the two may wake a
thread. -/
def Place.cost (l : Place) : ℕ := 24 * l.val?.getD 0

theorem pays (i : ι) (l : Place) : (program i l).Pays (Asserts roles i)
    (fun l => l.cost + l.ahead) Place.cost (fun v => 12 * v.buffer.length) 4 l := by
  cases l with
  | produce val =>
    by_cases hval : val = 0 <;> simp [program, hval, Op.Pays, Place.cost, Place.val?, Place.ahead]
  | checkSpace val =>
    intro v hA
    by_cases h : HasSpace v <;> simp [h, Place.cost, Place.val?, Place.ahead]
  | checkValue =>
    intro v hA
    by_cases h : HasValue v <;> simp [h, Place.cost, Place.val?, Place.ahead]
  | push val =>
    rintro v ⟨-, -, hval, -⟩
    simp only [Place.cost, Place.val?, Place.ahead, Shared.pushBack, Option.getD_some,
      List.length_append, List.length_singleton]
    omega
  | pop =>
    rintro v ⟨-, -, hvalue⟩
    obtain ⟨rest, val, hbuffer, hpop⟩ := popBack_eq hvalue
    simp [hpop, hbuffer, Place.cost, Place.val?, Place.ahead]
    omega
  | _ => simp [program, Op.Pays, Place.cost, Place.val?, Place.ahead]

variable [Fintype ι]

omit [DecidableEq ι] [Fintype ι] in
theorem cost_le (_ : ι) (l : Place) (h : held l = ∅ ∧ l.ahead = 4) :
    l.cost + l.ahead ≤ l.cost + 4 :=
  (Nat.add_le_add_left h.2.le _)

theorem length_le (roles : ι → Role) {actions : List (Action ι)}
    (h : AllSteps (step program) (Changes program) (init roles) actions) :
    actions.length ≤ ∑ i, match roles i with
      | .producer start => 24 * start + 4
      | .consumer => 4 := by
  refine ((kept_init roles).length_le (annotated roles) pays cost_le h).trans (le_of_eq ?_)
  change ∑ i, _ + 0 = _
  refine Finset.sum_congr rfl fun i _ => ?_
  cases hrole : roles i <;>
    simp [init, Threads.start, hrole, Role.start, Place.cost, Place.val?, Place.ahead]

theorem exists_more (roles : ι → Role) (actions : List (Action ι)) : ∃ more,
    AllSteps (step program) (Changes program) (run roles actions) more ∧
      (run roles (actions ++ more)).Halted program := by
  obtain ⟨more, hsteps, hhalted⟩ :=
    (kept_run roles actions).exists_halted (annotated roles) pays cost_le
  refine ⟨more, hsteps, ?_⟩
  rw [run, List.foldl_append]
  exact hhalted

/-- Without spurious wakeups every run comes to an end, whatever the number of producers and
consumers and from whatever values the producers count down to zero. -/
theorem halts (roles : ι → Role) :
    (∀ actions, AllSteps (step program) (Changes program) (init roles) actions →
      actions.length ≤ ∑ i, match roles i with
        | .producer start => 24 * start + 4
        | .consumer => 4) ∧
    ∀ actions, ∃ more, AllSteps (step program) (Changes program) (run roles actions) more ∧
      (run roles (actions ++ more)).Halted program :=
  ⟨fun _ h => length_le roles h, exists_more roles⟩

end Progress

/-- The threads of `main`. -/
inductive Worker
  | t1
  | t2
  deriving DecidableEq, Repr

instance : Fintype Worker := ⟨{.t1, .t2}, fun i => by cases i <;> decide⟩

/-- One producer, which starts from `val`, and one consumer. -/
def mainRoles (val : ℕ) : Worker → Role
  | .t1 => .producer val
  | .t2 => .consumer

theorem noneLost_run (val : ℕ) (actions : List (Action Worker)) :
    NoneLost .cond (fun i v => (mainRoles val i).WaitsFor v) (fun _ => Pending)
      (run (mainRoles val) actions) := by
  refine NoneLost.run (annotated _) wakeups (fun s _ i j k hi hpending hj hk => ?_)
    (kept_init (mainRoles val)) (fun i h => ?_) actions
  · -- the threads that sleep are not the one that is about to notify, so there is one at most
    cases i <;> cases j <;> cases k <;> simp_all
  · cases h

/-- All that was produced was produced by the first thread. -/
theorem produced_run (val : ℕ) (actions : List (Action Worker)) :
    (run (mainRoles val) actions).memory.produced.map Prod.snd =
      producedBy .t1 (run (mainRoles val) actions).memory := by
  have hnone : producedBy Worker.t2 (run (mainRoles val) actions).memory = [] :=
    (reached_run (mainRoles val) actions .t2).2
  rw [producedBy, List.filter_eq_self.mpr]
  rintro ⟨i, n⟩ hmem
  cases i with
  | t1 => rfl
  | t2 =>
    have hmem' : n ∈ producedBy Worker.t2 (run (mainRoles val) actions).memory :=
      List.mem_map.mpr ⟨(.t2, n), List.mem_filter.mpr ⟨hmem, rfl⟩, rfl⟩
    rw [hnone] at hmem'
    cases hmem'

/-- The producer has finished, the consumer sleeps, and all values from `val` down to 1 have
been consumed. -/
structure Completed (val : ℕ) (s : Threads Worker (Shared Worker) Mutex Condition Place) :
    Prop where
  producer : s.asleep .t1 = none ∧ s.place .t1 = .produce 0
  consumer : s.asleep .t2 = some .cond
  buffer : s.memory.buffer = []
  consumed : s.memory.consumed.Perm (countdown val 0)

/-- When the threads of `main` do not go on, it is because everything is consumed: no wakeup
is lost, although both threads wait on the same condition variable. -/
theorem completed_of_halted (val : ℕ) (actions : List (Action Worker))
    (h : (run (mainRoles val) actions).Halted program) :
    Completed val (run (mainRoles val) actions) := by
  have hkept := kept_run (mainRoles val) actions
  have hblocked := blocked_of_halted not_next h
  have hend := hkept.asleep_or_done (annotated _) ordered (fun _ _ h => h.1) not_next h
  have hasleep : ∀ i, (run (mainRoles val) actions).asleep i ≠ none →
      ¬ (mainRoles val i).WaitsFor (run (mainRoles val) actions).memory := by
    intro i hi
    obtain ⟨c, hc⟩ := Option.ne_none_iff_exists'.mp hi
    exact (noneLost_run val actions).not_of_blocked wakeups hblocked hc
  have hconsumer : (run (mainRoles val) actions).asleep .t2 ≠ none := by
    refine (hend .t2).resolve_right fun hdone => ?_
    have hval : ((run (mainRoles val) actions).place .t2).val? = none :=
      (reached_run (mainRoles val) actions .t2).1
    cases hplace : (run (mainRoles val) actions).place .t2 <;> rw [hplace] at hval hdone <;>
      simp [Place.val?, program] at hval hdone
  have hbuffer : (run (mainRoles val) actions).memory.buffer = [] :=
    List.length_eq_zero_iff.mp (Nat.eq_zero_of_not_pos (hasleep .t2 hconsumer))
  have hawake : (run (mainRoles val) actions).asleep .t1 = none := by
    by_contra hne
    refine hasleep .t1 hne ?_
    change (run (mainRoles val) actions).memory.buffer.length < maxBufferSize
    rw [hbuffer]
    decide
  have hdone := (hend .t1).resolve_left fun hne => hne hawake
  have hplace : (run (mainRoles val) actions).place .t1 = .produce 0 := by
    cases hplace : (run (mainRoles val) actions).place .t1 with
    | produce rest =>
      rw [hplace, program] at hdone
      split_ifs at hdone with hrest
      rw [not_not.mp hrest]
    | _ => simp [hplace, program] at hdone
  obtain ⟨rest, hrest, -, hmine⟩ : Reached _ _ (.producer val) :=
    reached_run (mainRoles val) actions .t1
  rw [hplace] at hrest
  cases hrest
  have hperm := (good_run (mainRoles val) actions).kept
  rw [hbuffer, List.append_nil, produced_run, hmine] at hperm
  exact ⟨⟨hawake, hplace⟩, Option.ne_none_iff_exists'.mp hconsumer |>.elim
    fun c hc => by rw [hc], hbuffer, hperm⟩

/-- `main`, for any first value that is not negative: without spurious wakeups its threads stop
after a bounded number of steps, and whenever they do not go on, everything has been consumed. -/
theorem main_consumes_all (val : ℕ) (actions : List (Action Worker)) :
    (AllSteps (step program) (Changes program) (init (mainRoles val)) actions →
      actions.length ≤ 24 * val + 8) ∧
    ((run (mainRoles val) actions).Halted program → Completed val (run (mainRoles val) actions)) ∧
    ∃ more, AllSteps (step program) (Changes program) (run (mainRoles val) actions) more ∧
      Completed val (run (mainRoles val) (actions ++ more)) := by
  refine ⟨length_le (mainRoles val), completed_of_halted val actions, ?_⟩
  obtain ⟨more, hsteps, hhalted⟩ := exists_more (mainRoles val) actions
  exact ⟨more, hsteps, completed_of_halted val _ hhalted⟩

end BuildYourOwnStuff.MultiThreading.ProducerConsumer
