import BuildYourOwnStuff.Foundations.Blocking

/-!
# A balance

Threads add money to a balance and notify, or wait until it is not zero and then
withdraw money if it is enough. With one thread that withdraws, the notification of the
first deposit is never lost.
-/

namespace BuildYourOwnStuff.MultiThreading.Balance

open Foundations Threads

inductive Task
  | addMoney (money : ℤ)
  | withdrowMoney (money : ℤ)
  deriving DecidableEq, Repr

/-- What the task does to the balance if it changes it. -/
def Task.change : Task → ℤ
  | addMoney money => money
  | withdrowMoney money => -money

def Task.money : Task → ℤ
  | addMoney money => money
  | withdrowMoney money => money

/-- The balance, and which threads have changed it, which is not read. -/
structure Shared (ι : Type) where
  balance : ℤ
  applied : ι → Bool

/-- The places in `addMoney` and in `withdrowMoney`. -/
inductive Place
  | lockAdd (money : ℤ)
  | add (money : ℤ)
  | notify (money : ℤ)
  | unlockAdd (money : ℤ)
  | added (money : ℤ)
  | lockWithdraw (money : ℤ)
  | check (money : ℤ)
  | wait (money : ℤ)
  | withdraw (money : ℤ)
  | unlockWithdraw (money : ℤ)
  | answered (money : ℤ)
  deriving DecidableEq, Repr

inductive Condition
  | cv
  deriving DecidableEq, Repr

def Task.start : Task → Place
  | addMoney money => .lockAdd money
  | withdrowMoney money => .lockWithdraw money

variable {ι : Type} [DecidableEq ι]

def Shared.apply (v : Shared ι) (i : ι) (change : ℤ) : Shared ι :=
  ⟨v.balance + change, Function.update v.applied i true⟩

def program (i : ι) : Place → Op (Shared ι) Unit Condition Place
  | .lockAdd money => .lock () (.add money)
  | .add money => .access fun v => (v.apply i money, .notify money)
  | .notify money => .notifyOne .cv (.unlockAdd money)
  | .unlockAdd money => .unlock () (.added money)
  | .added _ => .done
  | .lockWithdraw money => .lock () (.check money)
  | .check money => .access fun v => (v, if v.balance ≠ 0 then .withdraw money else .wait money)
  | .wait money => .wait .cv () (.lockWithdraw money)
  | .withdraw money => .access fun v =>
    (if v.balance ≥ money then v.apply i (-money) else v, .unlockWithdraw money)
  | .unlockWithdraw money => .unlock () (.answered money)
  | .answered _ => .done

def held : Place → Finset Unit
  | .lockAdd _ | .added _ | .lockWithdraw _ | .answered _ => ∅
  | _ => {()}

/-- The task of a thread at a place. -/
def Place.task : Place → Task
  | lockAdd money | add money | notify money | unlockAdd money | added money => .addMoney money
  | lockWithdraw money | check money | wait money => .withdrowMoney money
  | withdraw money | unlockWithdraw money | answered money => .withdrowMoney money

theorem discipline : Discipline (program (ι := ι)) fun _ => held := by
  intro i l
  cases l with
  | check money => exact fun v => by by_cases h : v.balance = 0 <;> simp [h, held]
  | _ => simp [program, Op.Disciplined, held]

theorem not_next (i : ι) (l : Place) : ¬ (program i l).Next l := by
  cases l with
  | check money =>
    rintro ⟨v, hl⟩
    dsimp only at hl
    split_ifs at hl
  | _ => simp [program, Op.Next]

theorem ordered : Ordered (program (ι := ι)) (fun _ => held) fun _ => 0 := by
  intro i l
  cases l <;> simp [program, Op.Ordered, held]

section Outline

variable [Fintype ι] (tasks : ι → Task)

def init : Threads ι (Shared ι) Unit Condition Place :=
  start ⟨0, fun _ => false⟩ fun i => (tasks i).start

def run (actions : List (Action ι)) : Threads ι (Shared ι) Unit Condition Place :=
  actions.foldl (step program) (init tasks)

/-- The balance is what the changes that were applied amount to, and it is never negative if
no amount is. -/
structure Good (v : Shared ι) : Prop where
  balance : v.balance = ∑ i, if v.applied i then (tasks i).change else 0
  nonneg : (∀ i, 0 ≤ (tasks i).money) → 0 ≤ v.balance

/-- What a thread knows at a place. -/
def Known (i : ι) (v : Shared ι) : Place → Prop
  | .lockAdd _ | .add _ | .lockWithdraw _ | .check _ => v.applied i = false
  | .notify _ | .unlockAdd _ | .added _ => v.applied i = true
  | .wait _ => v.applied i = false ∧ v.balance = 0
  | .withdraw _ => v.applied i = false ∧ v.balance ≠ 0
  | .unlockWithdraw _ | .answered _ => True

def Asserts (i : ι) (l : Place) (v : Shared ι) : Prop :=
  Good tasks v ∧ tasks i = l.task ∧ Known i v l

variable {tasks}

theorem Good.apply {v : Shared ι} (h : Good tasks v) {i : ι} (hi : v.applied i = false)
    (hchange : (∀ j, 0 ≤ (tasks j).money) → 0 ≤ v.balance + (tasks i).change) :
    Good tasks (v.apply i (tasks i).change) := by
  refine ⟨?_, hchange⟩
  have hsum : ∑ j, (if Function.update v.applied i true j then (tasks j).change else 0) =
      ∑ j, ((if v.applied j then (tasks j).change else 0) +
        if j = i then (tasks i).change else 0) := by
    refine Finset.sum_congr rfl fun j _ => ?_
    by_cases hj : j = i
    · subst hj
      simp [hi]
    · simp [hj]
  rw [Finset.sum_add_distrib, Finset.sum_ite_eq', if_pos (Finset.mem_univ i), ← h.balance] at hsum
  exact hsum.symm

omit [Fintype ι] in
/-- What another thread does under the mutex keeps what a thread without it knows. -/
theorem Known.apply {i j : ι} {v : Shared ι} {l l' : Place} (h : Known j v l') (hne : i ≠ j)
    (hl : held l = {()}) (hdisjoint : Disjoint (held l) (held l')) (change : ℤ) :
    Known j (v.apply i change) l' := by
  have happlied : (v.apply i change).applied j = v.applied j := Function.update_of_ne hne.symm _ _
  rw [hl, Finset.disjoint_singleton_left] at hdisjoint
  cases l' <;> simp_all [Known, held]

theorem outline : Outline program (fun _ => held) (Asserts tasks) fun _ _ => True := by
  intro i l
  cases l with
  | add money =>
    rintro v ⟨hgood, htask, happlied⟩
    have hchange : money = (tasks i).change := by rw [htask]; rfl
    have hgood' : Good tasks (v.apply i money) := by
      rw [hchange]
      refine hgood.apply happlied fun hall => add_nonneg (hgood.nonneg hall) ?_
      have := hall i
      rwa [htask] at this ⊢
    refine ⟨⟨hgood', htask, Function.update_self _ _ _⟩, fun _ _ h => h, ?_⟩
    exact fun j l' hne hA' hdisjoint => ⟨hgood', hA'.2.1, hA'.2.2.apply hne rfl hdisjoint _⟩
  | check money =>
    refine fun v hA => ⟨?_, fun _ _ h => h, fun _ _ _ hA' _ => hA'⟩
    dsimp only
    split_ifs with hbalance
    · exact ⟨hA.1, hA.2.1, hA.2.2, hbalance⟩
    · exact ⟨hA.1, hA.2.1, hA.2.2, not_not.mp hbalance⟩
  | withdraw money =>
    rintro v ⟨hgood, htask, happlied, -⟩
    have hchange : -money = (tasks i).change := by rw [htask]; rfl
    dsimp only
    split_ifs with henough
    · have hgood' : Good tasks (v.apply i (-money)) := by
        rw [hchange]
        refine hgood.apply happlied fun _ => ?_
        rw [← hchange]
        omega
      refine ⟨⟨hgood', htask, trivial⟩, fun _ _ h => h, ?_⟩
      exact fun j l' hne hA' hdisjoint => ⟨hgood', hA'.2.1, hA'.2.2.apply hne rfl hdisjoint _⟩
    · exact ⟨⟨hgood, htask, trivial⟩, fun _ _ h => h, fun _ _ _ hA' _ => hA'⟩
  | wait money => exact fun v hA => ⟨⟨hA.1, hA.2.1, hA.2.2.1⟩, trivial⟩
  | lockAdd money => exact fun v hA _ => hA
  | lockWithdraw money => exact fun v hA _ => hA
  | notify money => exact fun v hA => hA
  | unlockAdd money => exact fun v hA => ⟨hA, trivial⟩
  | unlockWithdraw money => exact fun v hA => ⟨hA, trivial⟩
  | added money => trivial
  | answered money => trivial

/-- The steps that a thread has left, if nobody wakes it. -/
def Place.ahead : Place → ℕ
  | lockAdd _ => 8
  | add _ => 7
  | notify _ => 6
  | unlockAdd _ => 1
  | added _ => 0
  | lockWithdraw _ => 4
  | check _ => 3
  | withdraw _ => 2
  | wait _ => 1
  | unlockWithdraw _ => 1
  | answered _ => 0

theorem pays (i : ι) (l : Place) : (program i l).Pays (Asserts tasks i)
    Place.ahead (fun _ => 0) (fun _ => 0) 4 l := by
  cases l with
  | check money => exact fun v _ => by by_cases h : v.balance = 0 <;> simp [h, Place.ahead]
  | _ => simp [program, Op.Pays, Place.ahead]

omit [Fintype ι] in
theorem lockWithdraw_of_wait (i : ι) (l : Place) (c : Condition) (m : Unit) (next : Place)
    (h : program i l = .wait c m next) : ∃ money, next = .lockWithdraw money := by
  cases l <;> cases h
  exact ⟨_, rfl⟩

theorem annotated (tasks : ι → Task) : Annotated program (fun _ => held) (Asserts tasks)
    (fun _ _ => True) fun _ l => ∃ money, l = .lockWithdraw money :=
  ⟨discipline, outline, lockWithdraw_of_wait⟩

omit [DecidableEq ι] in
theorem good_init (tasks : ι → Task) : Good tasks (init tasks).memory :=
  ⟨by simp [init, Threads.start], fun _ => le_rfl⟩

theorem kept_run (tasks : ι → Task) (actions : List (Action ι)) :
    Kept (fun _ => held) (Asserts tasks) (fun _ _ => True)
      (fun _ l => ∃ money, l = .lockWithdraw money) (run tasks actions) := by
  refine Kept.run (annotated tasks) (kept_start (fun i => ?_) (fun i => ⟨good_init tasks, ?_, ?_⟩)
    fun _ => trivial) actions
  · cases h : tasks i <;> rfl
  · cases h : tasks i <;> simp [Task.start, Place.task]
  · cases h : tasks i <;> simp [init, Threads.start, Task.start, Known]

/-- The balance is always what was added less what was withdrawn, and if no amount is negative
nobody withdraws more than there is. -/
theorem balance_kept (tasks : ι → Task) (actions : List (Action ι)) :
    Good tasks (run tasks actions).memory := by
  cases isEmpty_or_nonempty ι with
  | inl hempty =>
    rw [eq_nil_of_isEmpty actions]
    exact good_init tasks
  | inr hnonempty => exact ((kept_run tasks actions).asserted.place hnonempty.some).1

def Pending : Place → Prop
  | .notify _ => True
  | _ => False

theorem wakeups (tasks : ι → Task) :
    Wakeups program (Asserts tasks) .cv (fun _ v => v.balance ≠ 0) fun _ => Pending where
  wakes i l := by
    cases l with
    | add money => exact fun _ _ _ _ _ _ => trivial
    | check money => exact fun _ _ _ _ hfalse htrue => absurd htrue hfalse
    | withdraw money => exact fun v j _ hA hfalse _ => absurd hA.2.2.2 hfalse
    | wait money => exact fun _ v hA => not_not.mpr hA.2.2.2
    | _ => trivial
  pending i l h := by
    cases l with
    | notify money => rfl
    | _ => cases h

end Outline

section OneWithdrawal

variable {κ : Type} [DecidableEq κ] [Fintype κ]

/-- One thread withdraws, and any number of others add. -/
def oneWithdrawal (money : ℤ) (deposits : κ → ℤ) : Option κ → Task
  | none => .withdrowMoney money
  | some k => .addMoney (deposits k)

variable (money : ℤ) (deposits : κ → ℤ)

theorem task_eq (actions : List (Action (Option κ))) (i : Option κ) :
    oneWithdrawal money deposits i = ((run (oneWithdrawal money deposits) actions).place i).task :=
  ((kept_run _ actions).asserted.place i).2.1

theorem noneLost_run (actions : List (Action (Option κ))) :
    NoneLost .cv (fun _ v => v.balance ≠ 0) (fun _ => Pending)
      (run (oneWithdrawal money deposits) actions) := by
  refine NoneLost.run (annotated _) (wakeups (oneWithdrawal money deposits)) ?_ (kept_run _ [])
    (fun i h => ?_) actions
  · -- only the thread that withdraws ever sleeps
    intro s hkept i j k _ _ hj hk
    have hnone : ∀ i, s.asleep i ≠ none → i = none := by
      intro i hi
      obtain ⟨amount, hplace⟩ := hkept.sleepersAt i hi
      have htask := (hkept.asserted.place i).2.1
      rw [hplace] at htask
      cases i with
      | none => rfl
      | some k => cases htask
    rw [hnone j (by simp [hj]), hnone k (by simp [hk])]
  · cases h

/-- All money was added, and the thread that withdraws has its answer, unless what was added
amounts to nothing. -/
structure Settled (s : Threads (Option κ) (Shared (Option κ)) Unit Condition Place) : Prop where
  added : ∀ k, s.place (some k) = .added (deposits k)
  answered : s.place none = .answered money ∨ s.asleep none = some .cv ∧ ∑ k, deposits k = 0

theorem settled_of_halted (actions : List (Action (Option κ)))
    (h : (run (oneWithdrawal money deposits) actions).Halted program) :
    Settled money deposits (run (oneWithdrawal money deposits) actions) := by
  have hkept := kept_run (oneWithdrawal money deposits) actions
  have hblocked := blocked_of_halted not_next h
  have hend := hkept.asleep_or_done (annotated _) ordered (by rintro i l ⟨amount, rfl⟩; rfl)
    not_next h
  have hadded : ∀ k, (run (oneWithdrawal money deposits) actions).place (some k) =
      .added (deposits k) := by
    intro k
    have htask := task_eq money deposits actions (some k)
    have hdone := (hend (some k)).resolve_left fun hi => by
      obtain ⟨amount, hplace⟩ := hkept.sleepersAt _ hi
      rw [hplace] at htask
      cases htask
    cases hplace : (run (oneWithdrawal money deposits) actions).place (some k) <;>
      rw [hplace] at hdone htask <;> cases hdone <;> cases htask
    rfl
  refine ⟨hadded, ?_⟩
  have htask := task_eq money deposits actions none
  rcases hend none with hasleep | hdone
  · obtain ⟨c, hc⟩ := Option.ne_none_iff_exists'.mp hasleep
    refine .inr ⟨hc, ?_⟩
    have hzero := not_not.mp ((noneLost_run money deposits actions).not_of_blocked
      (wakeups (oneWithdrawal money deposits)) hblocked hc)
    obtain ⟨amount, hplace⟩ := hkept.sleepersAt none hasleep
    have hnot : (run (oneWithdrawal money deposits) actions).memory.applied none = false := by
      have hknown := (hkept.asserted.place none).2.2
      rwa [hplace] at hknown
    have happlied : ∀ k, (run (oneWithdrawal money deposits) actions).memory.applied (some k) =
        true := by
      intro k
      have hknown := (hkept.asserted.place (some k)).2.2
      rwa [hadded k] at hknown
    have hsum := (hkept.asserted.place none).1.balance
    rw [hzero, Fintype.sum_option, hnot] at hsum
    simpa [happlied, oneWithdrawal, Task.change] using hsum.symm
  · left
    cases hplace : (run (oneWithdrawal money deposits) actions).place none <;>
      rw [hplace] at hdone htask <;> cases hdone <;> cases htask
    rfl

/-- With one thread that withdraws and any number that add, in any order, no notification is
lost: when the threads do not go on, the money was added, and the thread that withdraws sleeps
only if it amounts to nothing. They can always go on until then. -/
theorem settles (actions : List (Action (Option κ))) :
    ((run (oneWithdrawal money deposits) actions).Halted program →
      Settled money deposits (run (oneWithdrawal money deposits) actions)) ∧
    ∃ more, AllSteps (step program) (Changes program)
        (run (oneWithdrawal money deposits) actions) more ∧
      Settled money deposits (run (oneWithdrawal money deposits) (actions ++ more)) := by
  refine ⟨settled_of_halted money deposits actions, ?_⟩
  obtain ⟨more, hsteps, hhalted⟩ := (kept_run (oneWithdrawal money deposits) actions).exists_halted
    (annotated _) pays (by rintro i l ⟨amount, rfl⟩; exact le_rfl)
  refine ⟨more, hsteps, settled_of_halted money deposits _ ?_⟩
  rw [run, List.foldl_append]
  exact hhalted

end OneWithdrawal

end BuildYourOwnStuff.MultiThreading.Balance
