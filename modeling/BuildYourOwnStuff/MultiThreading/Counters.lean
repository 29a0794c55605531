import BuildYourOwnStuff.Foundations.Blocking

/-!
# Counters

Threads add to a counter under a mutex. An increment is a load and a store, between
which other threads take steps, but none of them has the mutex then, so no update is
lost. No sum overflows if all that the threads can have added fits the type.
-/

namespace BuildYourOwnStuff.MultiThreading.Counters

open Foundations Threads

/-- What a thread does: so many rounds, in each of which it locks the mutex, adds an amount
so many times, and unlocks it. In a timed round it may fail to get the mutex and adds nothing. -/
structure Task where
  amount : ℤ
  times : ℕ
  rounds : ℕ
  timed : Bool
  deriving DecidableEq, Repr

/-- `addMoney` of mutex.cpp -/
def addOne : Task := ⟨1, 1, 1, false⟩

/-- `addMoney` of thread_sync.cpp -/
def addMoney (val : ℤ) : Task := ⟨val, 1, 1, false⟩

def increaseTheCounterFor100000Time : Task := ⟨1, 1, 100000, false⟩

/-- `task` of lock_guard.cpp and of unique_lock.cpp -/
def task (loopFor : ℤ) : Task := ⟨1, loopFor.toNat, 1, false⟩

/-- `increament` of timed_mutex.cpp -/
def increament : Task := ⟨1, 1, 1, true⟩

def llongMax : ℤ := 2 ^ 63 - 1

/-- The values of a signed type. -/
def Fits (max n : ℤ) : Prop := -max - 1 ≤ n ∧ n ≤ max

instance (max n : ℤ) : Decidable (Fits max n) := inferInstanceAs (Decidable (_ ∧ _))

/-- The counter, and how many times each thread has added to it, which is not read. When a sum has
overflowed, which is undefined behaviour, the counter says nothing. -/
structure Shared (ι : Type) where
  count : ℤ
  overflowed : Bool
  added : ι → ℕ

/-- The rounds and the additions that are left, and the value that was loaded. -/
inductive Place
  | round (rounds : ℕ)
  | load (rounds times : ℕ)
  | store (rounds times : ℕ) (loaded : ℤ)
  deriving DecidableEq, Repr

variable {ι : Type} [DecidableEq ι] (max : ℤ) (tasks : ι → Task)

def Shared.add (v : Shared ι) (i : ι) (count : ℤ) : Shared ι :=
  ⟨count, v.overflowed || !decide (Fits max count), Function.update v.added i (v.added i + 1)⟩

/-- There is one mutex, and no condition variable. -/
def program (i : ι) : Place → Op (Shared ι) Unit Empty Place
  | .round rounds =>
    if rounds = 0 then .done
    else if (tasks i).timed then .tryLock () (.load rounds (tasks i).times) (.round (rounds - 1))
    else .lock () (.load rounds (tasks i).times)
  | .load rounds times =>
    if times = 0 then .unlock () (.round (rounds - 1))
    else .access fun v => (v, .store rounds times v.count)
  | .store rounds times loaded =>
    .access fun v => (v.add max i (loaded + (tasks i).amount), .load rounds (times - 1))

def held : Place → Finset Unit
  | .round _ => ∅
  | _ => {()}

def init : Threads ι (Shared ι) Unit Empty Place :=
  start ⟨0, false, fun _ => 0⟩ fun i => .round (tasks i).rounds

/-- The steps that a thread has left. -/
def stepsLeft (i : ι) : Place → ℕ
  | .round rounds => rounds * (2 * (tasks i).times + 2)
  | .load rounds times => (rounds - 1) * (2 * (tasks i).times + 2) + 2 * times + 1
  | .store rounds times _ => (rounds - 1) * (2 * (tasks i).times + 2) + 2 * times

section Outline

variable [Fintype ι]

/-- What the threads have added. -/
def sum (added : ι → ℕ) : ℤ := ∑ i, (tasks i).amount * added i

/-- All that the threads can have added by some moment fits the type of the counter. -/
def PartialSumsFit : Prop :=
  ∀ added : ι → ℕ, (∀ i, added i ≤ (tasks i).times * (tasks i).rounds) → Fits max (sum tasks added)

/-- The counter has all that was added. -/
structure Exact (v : Shared ι) : Prop where
  count : v.count = sum tasks v.added
  defined : v.overflowed = false
  le : ∀ i, v.added i ≤ (tasks i).times * (tasks i).rounds

/-- How many additions a thread has made when it has so many rounds left. -/
def Added (i : ι) (rounds more : ℕ) (v : Shared ι) : Prop :=
  ∃ entered, entered + rounds ≤ (tasks i).rounds ∧
    ((tasks i).timed = false → entered + rounds = (tasks i).rounds) ∧
      v.added i = (tasks i).times * entered + more

def Asserts (i : ι) (l : Place) (v : Shared ι) : Prop :=
  match l with
  | .round rounds => Added tasks i rounds 0 v
  | .load rounds times => rounds ≠ 0 ∧ times ≤ (tasks i).times ∧ Exact tasks v ∧
    Added tasks i rounds ((tasks i).times - times) v
  | .store rounds times loaded => rounds ≠ 0 ∧ times ≠ 0 ∧ times ≤ (tasks i).times ∧
    loaded = v.count ∧ Exact tasks v ∧ Added tasks i rounds ((tasks i).times - times) v

variable {max tasks}

omit [Fintype ι] in
theorem discipline : Discipline (program max tasks) fun _ => held := by
  intro i l
  cases l with
  | round rounds =>
    rw [program]
    split_ifs <;> simp [Op.Disciplined, held]
  | load rounds times =>
    rw [program]
    split_ifs <;> simp [Op.Disciplined, held]
  | store rounds times loaded => simp [program, Op.Disciplined, held]

theorem sum_update (added : ι → ℕ) (i : ι) :
    sum tasks (Function.update added i (added i + 1)) = sum tasks added + (tasks i).amount := by
  have hterm : ∀ j, (tasks j).amount * (Function.update added i (added i + 1) j : ℤ) =
      (tasks j).amount * added j + if j = i then (tasks i).amount else 0 := by
    intro j
    by_cases hj : j = i
    · subst hj
      rw [Function.update_self, if_pos rfl]
      push_cast
      ring
    · rw [Function.update_of_ne hj, if_neg hj, add_zero]
  rw [sum, Finset.sum_congr rfl fun j _ => hterm j, Finset.sum_add_distrib, Finset.sum_ite_eq',
    if_pos (Finset.mem_univ i)]
  rfl

theorem Exact.add (hfit : PartialSumsFit max tasks) {v : Shared ι} (h : Exact tasks v) {i : ι}
    (hlt : v.added i < (tasks i).times * (tasks i).rounds) :
    Exact tasks (v.add max i (v.count + (tasks i).amount)) := by
  have hcount : v.count + (tasks i).amount =
      sum tasks (Function.update v.added i (v.added i + 1)) := by
    rw [sum_update, h.count]
  have hle : ∀ j, Function.update v.added i (v.added i + 1) j ≤
      (tasks j).times * (tasks j).rounds := by
    intro j
    by_cases hj : j = i
    · subst hj
      rw [Function.update_self]
      exact hlt
    · rw [Function.update_of_ne hj]
      exact h.le j
  refine ⟨hcount, ?_, hle⟩
  rw [Shared.add, h.defined, hcount, decide_eq_true (hfit _ hle)]
  rfl

omit [Fintype ι] in
/-- What another thread adds does not change what a thread has added. -/
theorem Added.of_ne {i j : ι} {rounds more : ℕ} {v : Shared ι} (h : Added tasks j rounds more v)
    (hne : i ≠ j) (count : ℤ) : Added tasks j rounds more (v.add max i count) := by
  obtain ⟨entered, hle, hall, hadded⟩ := h
  refine ⟨entered, hle, hall, ?_⟩
  change Function.update v.added i _ j = _
  rwa [Function.update_of_ne hne.symm]

omit [DecidableEq ι] [Fintype ι] in
/-- Within a round, there is more to add. -/
theorem Added.lt {i : ι} {rounds times : ℕ} {v : Shared ι} (hrounds : rounds ≠ 0)
    (htimes : times ≠ 0) (hle : times ≤ (tasks i).times)
    (h : Added tasks i rounds ((tasks i).times - times) v) :
    v.added i < (tasks i).times * (tasks i).rounds := by
  obtain ⟨entered, hentered, -, hadded⟩ := h
  calc v.added i < (tasks i).times * (entered + 1) := by rw [hadded, Nat.mul_succ]; omega
    _ ≤ (tasks i).times * (tasks i).rounds := Nat.mul_le_mul_left _ (by omega)

omit [DecidableEq ι] [Fintype ι] in
theorem Added.round_done {i : ι} {rounds : ℕ} {v : Shared ι} (hrounds : rounds ≠ 0)
    (h : Added tasks i rounds (tasks i).times v) : Added tasks i (rounds - 1) 0 v := by
  obtain ⟨entered, hle, hall, hadded⟩ := h
  refine ⟨entered + 1, by omega, fun htimed => ?_, ?_⟩
  · have := hall htimed
    omega
  · rw [hadded, Nat.mul_succ, Nat.add_zero]

omit [DecidableEq ι] [Fintype ι] in
theorem Added.round_skipped {i : ι} {rounds more : ℕ} {v : Shared ι}
    (htimed : (tasks i).timed = true) (h : Added tasks i rounds more v) :
    Added tasks i (rounds - 1) more v := by
  obtain ⟨entered, hle, -, hadded⟩ := h
  refine ⟨entered, by omega, fun hnot => ?_, hadded⟩
  rw [htimed] at hnot
  cases hnot

omit [Fintype ι] in
theorem Added.add {i : ι} {rounds more : ℕ} {v : Shared ι} (h : Added tasks i rounds more v)
    (count : ℤ) : Added tasks i rounds (more + 1) (v.add max i count) := by
  obtain ⟨entered, hle, hall, hadded⟩ := h
  refine ⟨entered, hle, hall, ?_⟩
  change Function.update v.added i _ i = _
  rw [Function.update_self, hadded, Nat.add_assoc]

theorem outline (hfit : PartialSumsFit max tasks) :
    Outline (program max tasks) (fun _ => held) (Asserts tasks) fun _ => Exact tasks := by
  intro i l
  cases l with
  | round rounds =>
    have hstart : ∀ v, Asserts tasks i (.round rounds) v → rounds ≠ 0 → Exact tasks v →
        Asserts tasks i (.load rounds (tasks i).times) v := by
      intro v hA hrounds hexact
      refine ⟨hrounds, le_rfl, hexact, ?_⟩
      rw [Nat.sub_self]
      exact hA
    rw [program]
    split_ifs with hrounds htimed
    · trivial
    · exact fun v hA => ⟨hstart v hA hrounds, hA.round_skipped htimed⟩
    · exact fun v hA => hstart v hA hrounds
  | load rounds times =>
    rw [program]
    split_ifs with htimes
    · rintro v ⟨hrounds, -, hexact, hadded⟩
      rw [htimes, Nat.sub_zero] at hadded
      exact ⟨hadded.round_done hrounds, hexact⟩
    · rintro v ⟨hrounds, hle, hexact, hadded⟩
      exact ⟨⟨hrounds, htimes, hle, rfl, hexact, hadded⟩, fun _ _ h => h, fun _ _ _ hA' _ => hA'⟩
  | store rounds times loaded =>
    rintro v ⟨hrounds, htimes, hle, rfl, hexact, hadded⟩
    refine ⟨⟨hrounds, by omega, hexact.add hfit (hadded.lt hrounds htimes hle), ?_⟩,
      fun m hm => ?_, ?_⟩
    · have hmore : (tasks i).times - (times - 1) = (tasks i).times - times + 1 := by omega
      rw [hmore]
      exact hadded.add _
    · simp [held] at hm
    · intro j l' hne hA' hdisjoint
      cases l' with
      | round rounds' => exact hA'.of_ne hne _
      | load rounds' times' => simp [held] at hdisjoint
      | store rounds' times' loaded' => simp [held] at hdisjoint

theorem pays (i : ι) (l : Place) : (program max tasks i l).Pays (Asserts tasks i)
    (stepsLeft tasks i) (stepsLeft tasks i) (fun _ => 0) 0 l := by
  cases l with
  | round rounds =>
    have hround : rounds ≠ 0 → stepsLeft tasks i (.round rounds) =
        (rounds - 1) * (2 * (tasks i).times + 2) + (2 * (tasks i).times + 2) := by
      intro h
      obtain ⟨r, rfl⟩ := Nat.exists_eq_succ_of_ne_zero h
      simp [stepsLeft, Nat.succ_mul]
    rw [program]
    split_ifs with hrounds htimed
    · trivial
    · constructor
      · rw [hround hrounds, stepsLeft]
        omega
      · rw [hround hrounds, stepsLeft]
        omega
    · change _ < _
      rw [hround hrounds, stepsLeft]
      omega
  | load rounds times =>
    rw [program]
    split_ifs with htimes
    · simp [Op.Pays, stepsLeft]
    · simp [Op.Pays, stepsLeft]
  | store rounds times loaded =>
    rintro v ⟨-, htimes, -⟩
    simp only [stepsLeft]
    omega

omit [Fintype ι] in
theorem not_next (i : ι) (l : Place) : ¬ (program max tasks i l).Next l := by
  cases l with
  | round rounds =>
    rw [program]
    split_ifs with hrounds htimed
    · exact id
    · simp [Op.Next]
      omega
    · simp [Op.Next]
  | load rounds times =>
    rw [program]
    split_ifs <;> simp [Op.Next]
  | store rounds times loaded => simp [program, Op.Next]

omit [Fintype ι] in
theorem ordered : Ordered (program max tasks) (fun _ => held) fun _ => 0 := by
  intro i l
  cases l with
  | round rounds =>
    rw [program]
    split_ifs <;> simp [Op.Ordered, held]
  | load rounds times =>
    rw [program]
    split_ifs <;> trivial
  | store rounds times loaded => trivial

variable (max tasks) in
def run (actions : List (Action ι)) : Threads ι (Shared ι) Unit Empty Place :=
  actions.foldl (step (program max tasks)) (init tasks)

theorem annotated (hfit : PartialSumsFit max tasks) :
    Annotated (program max tasks) (fun _ => held) (Asserts tasks) (fun _ => Exact tasks)
      fun _ _ => False :=
  ⟨discipline, outline hfit, fun _ _ c _ _ _ => c.elim⟩

theorem kept_run (hfit : PartialSumsFit max tasks) (actions : List (Action ι)) :
    Kept (fun _ => held) (Asserts tasks) (fun _ => Exact tasks) (fun _ _ => False)
      (run max tasks actions) := by
  refine Kept.run (annotated hfit) (kept_start (fun _ => rfl) (fun i => ?_) fun _ => ?_) actions
  · exact ⟨0, (Nat.zero_add _).le, fun _ => Nat.zero_add _, rfl⟩
  · exact ⟨by simp [sum], rfl, fun _ => Nat.zero_le _⟩

/-- The counter is exact in each state: of its holder or, if there is none, of the mutex. -/
theorem exact_run (hfit : PartialSumsFit max tasks) (actions : List (Action ι)) :
    Exact tasks (run max tasks actions).memory := by
  have hkept := kept_run hfit actions
  cases hholder : (run max tasks actions).holder () with
  | none => exact hkept.asserted.free () hholder
  | some i =>
    have hheld := (hkept.exclusive () i).mp hholder
    have hplace := hkept.asserted.place i
    cases hat : (run max tasks actions).place i with
    | round rounds => simp [hat, held] at hheld
    | load rounds times =>
      rw [hat] at hplace
      exact hplace.2.2.1
    | store rounds times loaded =>
      rw [hat] at hplace
      exact hplace.2.2.2.2.1

end Outline

end BuildYourOwnStuff.MultiThreading.Counters
