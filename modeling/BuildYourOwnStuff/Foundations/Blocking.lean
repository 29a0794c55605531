import BuildYourOwnStuff.Foundations.Threads

/-!
# Blocked threads

A thread is blocked if it sleeps, has finished, or waits for a mutex. If mutexes are
only locked in one order, not all threads wait for each other. If every thread that
makes true what another one sleeps for is then to notify it, none sleeps for something
true when all are blocked.
-/

namespace BuildYourOwnStuff.Foundations.Threads

variable {ι σ μ κ L : Type*} {program : ι → L → Op σ μ κ L} {held : ι → L → Finset μ}

/-- The places that can follow an operation. -/
def Op.Next : Op σ μ κ L → L → Prop
  | done, _ => False
  | lock _ next, l => l = next
  | tryLock _ success failure, l => l = success ∨ l = failure
  | unlock _ next, l => l = next
  | wait _ _ next, l => l = next
  | notifyOne _ next, l => l = next
  | access f, l => ∃ v, l = (f v).2

/-- A thread cannot go on before others do. -/
def Blocked (program : ι → L → Op σ μ κ L) (s : Threads ι σ μ κ L) (i : ι) : Prop :=
  s.asleep i ≠ none ∨ program i (s.place i) = .done ∨
    ∃ m next, program i (s.place i) = .lock m next ∧ s.holder m ≠ none

section Halting

variable [DecidableEq ι] [DecidableEq μ] [Fintype ι] [DecidableEq κ]

/-- No thread changes anything by going on. -/
def Halted (program : ι → L → Op σ μ κ L) (s : Threads ι σ μ κ L) : Prop :=
  ∀ i woken, s.step program (.run i woken) = s

theorem step_of_blocked {s : Threads ι σ μ κ L} {i : ι} (h : s.Blocked program i) (woken : ι) :
    s.step program (.run i woken) = s := by
  simp only [step]
  split
  · rename_i hi
    rcases h with h | h | ⟨m, next, h, hheld⟩
    · exact absurd hi h
    · rw [h]
      rfl
    · rw [h, perform, if_neg hheld]
  · rfl

/-- A thread that goes on leaves the others where they are. -/
theorem place_run_of_ne (s : Threads ι σ μ κ L) {i k : ι} (h : k ≠ i) (woken : ι) :
    (s.step program (.run i woken)).place k = s.place k := by
  simp only [step]
  split
  · cases program i (s.place i) with
    | done => rfl
    | lock m next =>
      rw [perform]
      split_ifs
      · exact Function.update_of_ne h _ _
      · rfl
    | tryLock m success failure =>
      rw [perform]
      split_ifs <;> exact Function.update_of_ne h _ _
    | notifyOne c next =>
      rw [perform, notify]
      split_ifs
      · exact Function.update_of_ne h _ _
      · exact Function.update_of_ne h _ _
      · rfl
    | unlock m next => exact Function.update_of_ne h _ _
    | wait c m next => exact Function.update_of_ne h _ _
    | access f => exact Function.update_of_ne h _ _
  · rfl

/-- What a thread that is not blocked does: with the right choice it goes to a next place. -/
theorem exists_next_of_not_blocked {s : Threads ι σ μ κ L} {i : ι} (h : ¬ s.Blocked program i) :
    ∃ woken, (program i (s.place i)).Next ((s.step program (.run i woken)).place i) := by
  simp only [Blocked, not_or, not_exists, not_and, not_not] at h
  obtain ⟨hi, hdone, hlock⟩ := h
  by_cases hnotify : ∃ c next, program i (s.place i) = .notifyOne c next
  · obtain ⟨c, next, hop⟩ := hnotify
    by_cases hasleep : ∃ k, s.asleep k = some c
    · obtain ⟨k, hk⟩ := hasleep
      refine ⟨k, ?_⟩
      simp [step, hi, hop, perform, notify, hk, Op.Next, goto]
    · refine ⟨i, ?_⟩
      simp only [not_exists] at hasleep
      simp [step, hi, hop, perform, notify, hasleep, Op.Next, goto]
  · refine ⟨i, ?_⟩
    cases hop : program i (s.place i) with
    | done => exact absurd hop hdone
    | lock m next => simp [step, hi, hop, perform, hlock m next hop, Op.Next, goto]
    | tryLock m success failure =>
      by_cases hfree : s.holder m = none
      · simp [step, hi, hop, perform, hfree, Op.Next, goto]
      · simp [step, hi, hop, perform, hfree, Op.Next, goto]
    | unlock m next => simp [step, hi, hop, perform, Op.Next, goto]
    | wait c m next => simp [step, hi, hop, perform, Op.Next, goto]
    | notifyOne c next => exact absurd ⟨c, next, hop⟩ hnotify
    | access f =>
      simp only [step, hi, hop, perform, Op.Next, goto, Function.update_self]
      exact ⟨s.memory, rfl⟩

/-- If no operation leads back to its own place, threads that change nothing are blocked. -/
theorem blocked_of_halted (hloop : ∀ i l, ¬ (program i l).Next l) {s : Threads ι σ μ κ L}
    (h : s.Halted program) (i : ι) : s.Blocked program i := by
  by_contra hblocked
  obtain ⟨woken, hnext⟩ := exists_next_of_not_blocked hblocked
  rw [h i woken] at hnext
  exact hloop i _ hnext

/-- The step changes something, and not because a thread wakes up by itself. -/
def Changes (program : ι → L → Op σ μ κ L) (s : Threads ι σ μ κ L) (a : Action ι) : Prop :=
  (∀ i, a ≠ .wake i) ∧ s.step program a ≠ s

theorem Changes.move {s : Threads ι σ μ κ L} {a : Action ι} (h : Changes program s a) :
    Move program s (s.step program a) := by
  rcases step_cases s a with hsame | ⟨i, hwake, -⟩ | hmove
  · exact absurd hsame h.2
  · exact absurd hwake (h.1 i)
  · exact hmove

/-- If every move uses something up, a run stops changing anything after so many steps. -/
theorem length_le_of_moves {Φ : Threads ι σ μ κ L → ℕ} {I : Threads ι σ μ κ L → Prop}
    (hI : ∀ s s', I s → Move program s s' → I s')
    (hΦ : ∀ s s', I s → Move program s s' → Φ s' < Φ s) {s : Threads ι σ μ κ L} (hs : I s)
    {actions : List (Action ι)} (h : AllSteps (step program) (Changes program) s actions) :
    actions.length ≤ Φ s :=
  length_le_of_allSteps (fun s _ h hchanges => hI s _ h hchanges.move)
    (fun s _ h hchanges => hΦ s _ h hchanges.move) hs h

/-- If every move uses something up, every run can be continued until the threads halt. -/
theorem exists_halted {Φ : Threads ι σ μ κ L → ℕ} {I : Threads ι σ μ κ L → Prop}
    (hI : ∀ s s', I s → Move program s s' → I s')
    (hΦ : ∀ s s', I s → Move program s s' → Φ s' < Φ s) {s : Threads ι σ μ κ L} (hs : I s) :
    ∃ actions, AllSteps (step program) (Changes program) s actions ∧
      (actions.foldl (step program) s).Halted program := by
  have hkept : ∀ s a, I s → (∀ i, a ≠ .wake i) → I (s.step program a) := by
    intro s a hI' hwake
    by_cases hne : s.step program a = s
    · rwa [hne]
    · exact hI s _ hI' (Changes.move ⟨hwake, hne⟩)
  have hlt : ∀ s a, I s → (∀ i, a ≠ .wake i) → s.step program a ≠ s → Φ (s.step program a) < Φ s :=
    fun s a hI' hwake hne => hΦ s _ hI' (Changes.move ⟨hwake, hne⟩)
  obtain ⟨actions, hsteps, hend⟩ := exists_stuck hkept hlt hs
  exact ⟨actions, hsteps, fun i woken => hend _ (by simp)⟩

end Halting

section Order

/-- A thread that locks a mutex has only lower ones. -/
def Op.Ordered (held : L → Finset μ) (rank : μ → ℕ) (l : L) : Op σ μ κ L → Prop
  | lock m _ => ∀ m' ∈ held l, rank m' < rank m
  | _ => True

def Ordered (program : ι → L → Op σ μ κ L) (held : ι → L → Finset μ) (rank : μ → ℕ) : Prop :=
  ∀ i l, (program i l).Ordered (held i) rank l

theorem Ordered.of_op {rank : μ → ℕ} (h : Ordered program held rank) {i : ι} {l : L}
    {op : Op σ μ κ L} (hop : program i l = op) : op.Ordered (held i) rank l :=
  hop ▸ h i l

/-- The rank of the mutex that is to be locked. -/
def Op.lockRank (rank : μ → ℕ) : Op σ μ κ L → ℕ
  | lock m _ => rank m
  | _ => 0

/-- The threads that sleep are at places with `P`. -/
def SleepersAt (P : ι → L → Prop) (s : Threads ι σ μ κ L) : Prop :=
  ∀ i, s.asleep i ≠ none → P i (s.place i)

variable {P : ι → L → Prop} [DecidableEq ι]

theorem asleep_of_rouse {s : Threads ι σ μ κ L} {i j : ι} (h : (s.rouse i).asleep j ≠ none) :
    j ≠ i ∧ s.asleep j = (s.rouse i).asleep j := by
  have hne : j ≠ i := by
    rintro rfl
    exact h (Function.update_self _ _ _)
  exact ⟨hne, (Function.update_of_ne hne _ _).symm⟩

theorem asleep_rouse_of_none {s : Threads ι σ μ κ L} {i j : ι} (h : s.asleep j = none) :
    (s.rouse i).asleep j = none := by
  by_contra hj
  exact hj ((asleep_of_rouse hj).2.symm.trans h)

theorem SleepersAt.rouse {s : Threads ι σ μ κ L} (h : SleepersAt P s) (i : ι) :
    SleepersAt P (s.rouse i) := by
  intro j hj
  refine h j ?_
  rw [(asleep_of_rouse hj).2]
  exact hj

variable [DecidableEq μ]

theorem SleepersAt.move (hwait : ∀ i l c m next, program i l = .wait c m next → P i next)
    {s s' : Threads ι σ μ κ L} (h : SleepersAt P s) (hmove : Move program s s') :
    SleepersAt P s' := by
  -- the thread that moves is awake, and the others stay where they are
  have hgoto : ∀ {s' : Threads ι σ μ κ L} {i : ι} {l : L}, s'.place = s.place →
      (∀ j, s'.asleep j ≠ none → s.asleep j ≠ none) → s.asleep i = none →
      SleepersAt P (s'.goto i l) := by
    intro s' i l hplace hasleep hi j hj
    have hj' := hasleep j hj
    have hne : j ≠ i := by
      rintro rfl
      exact hj' hi
    change P j (Function.update s'.place i l j)
    rw [Function.update_of_ne hne, hplace]
    exact h j hj'
  have hrouse : ∀ i j, (s.rouse i).asleep j ≠ none → s.asleep j ≠ none := by
    intro i j hj
    rw [(asleep_of_rouse hj).2]
    exact hj
  cases hmove with
  | lock hi hop hfree => exact hgoto rfl (fun _ hj => hj) hi
  | fail hi hop => exact hgoto rfl (fun _ hj => hj) hi
  | unlock hi hop => exact hgoto rfl (fun _ hj => hj) hi
  | notifyOne hi hop hwoken => exact hgoto rfl (hrouse _) hi
  | notifyNone hi hop hnone => exact hgoto rfl (fun _ hj => hj) hi
  | access hi hop => exact hgoto rfl (fun _ hj => hj) hi
  | @wait i c m next hi hop =>
    intro j hj
    change P j (Function.update s.place i next j)
    by_cases hji : j = i
    · subst hji
      rw [Function.update_self]
      exact hwait _ _ _ _ _ hop
    · rw [Function.update_of_ne hji]
      refine h j ?_
      change Function.update s.asleep i (some c) j ≠ none at hj
      rwa [Function.update_of_ne hji] at hj

omit [DecidableEq ι] in
/-- If mutexes are locked in one order, blocked threads do not wait for each other. -/
theorem asleep_or_done_of_blocked [Finite ι] {rank : μ → ℕ}
    (hprogram : Discipline program held) (horder : Ordered program held rank)
    {s : Threads ι σ μ κ L} (hexclusive : Exclusive held s)
    (hsleepers : SleepersAt (fun i l => held i l = ∅) s) (hblocked : ∀ i, s.Blocked program i)
    (i : ι) :
    s.asleep i ≠ none ∨ program i (s.place i) = .done := by
  by_contra hi
  -- of the threads that wait, one waits for a highest mutex; its holder waits for a higher one
  let waits (j : ι) : Prop := ∃ m next, program j (s.place j) = .lock m next ∧ s.holder m ≠ none
  have hwaits : {j | waits j}.Nonempty := by
    rcases hblocked i with h | h | h
    · exact absurd (.inl h) hi
    · exact absurd (.inr h) hi
    · exact ⟨i, h⟩
  obtain ⟨j, ⟨m, next, hop, hheld⟩, hmax⟩ := Set.exists_max_image {j | waits j}
    (fun j => (program j (s.place j)).lockRank rank) (Set.toFinite _) hwaits
  obtain ⟨k, hk⟩ := Option.ne_none_iff_exists'.mp hheld
  have hmem : m ∈ held k (s.place k) := (hexclusive m k).mp hk
  rcases hblocked k with h | h | ⟨m', next', hop', hheld'⟩
  · rw [show held k (s.place k) = ∅ from hsleepers k h] at hmem
    cases hmem
  · rw [show held k (s.place k) = ∅ from hprogram.of_op h] at hmem
    cases hmem
  · have hlt := horder.of_op hop' m hmem
    have hle := hmax k ⟨m', next', hop', hheld'⟩
    simp only [hop, hop', Op.lockRank] at hle
    omega

end Order

section Work

variable {A : ι → L → σ → Prop} {R : μ → σ → Prop} (awake asleep : ι → L → ℕ) (store : σ → ℕ)
  (waking : ℕ)

/-- An operation uses up some of the work that a thread has left at its place and that the
memory stands for. To wake a thread costs `waking`. -/
def Op.Pays (A : L → σ → Prop) (awake asleep : L → ℕ) (store : σ → ℕ) (waking : ℕ) (l : L) :
    Op σ μ κ L → Prop
  | done => True
  | lock _ next => awake next < awake l
  | tryLock _ success failure => awake success < awake l ∧ awake failure < awake l
  | unlock _ next => awake next < awake l
  | wait _ _ next => asleep next < awake l
  | notifyOne _ next => awake next + waking < awake l
  | access f => ∀ v, A l v → awake (f v).2 + store (f v).1 < awake l + store v

/-- The work that the threads and the memory have left. -/
def work [Fintype ι] (s : Threads ι σ μ κ L) : ℕ :=
  ∑ i, (if s.asleep i = none then awake i (s.place i) else asleep i (s.place i)) + store s.memory

variable {awake asleep store waking}

/-- A sum in which one term changes, and another one grows by no more than `d`. -/
theorem sum_add_le [Fintype ι] [DecidableEq ι] {f f' : ι → ℕ} {i k : ι} {d : ℕ}
    (h : ∀ j, j ≠ i → f' j ≤ f j + if j = k then d else 0) :
    ∑ j, f' j + f i ≤ ∑ j, f j + f' i + d := by
  have hothers : ∑ j ∈ Finset.univ.erase i, f' j ≤
      ∑ j ∈ Finset.univ.erase i, (f j + if j = k then d else 0) :=
    Finset.sum_le_sum fun j hj => h j (Finset.ne_of_mem_erase hj)
  have hwoken : ∑ j ∈ Finset.univ.erase i, (if j = k then d else 0) ≤ d := by
    rw [Finset.sum_ite_eq']
    split_ifs
    · exact le_rfl
    · exact Nat.zero_le _
  have hold := Finset.add_sum_erase Finset.univ f (Finset.mem_univ i)
  have hnew := Finset.add_sum_erase Finset.univ f' (Finset.mem_univ i)
  rw [Finset.sum_add_distrib] at hothers
  omega

/-- What a thread has left. -/
def left (awake asleep : ι → L → ℕ) (s : Threads ι σ μ κ L) (i : ι) : ℕ :=
  if s.asleep i = none then awake i (s.place i) else asleep i (s.place i)

theorem left_of_awake {s : Threads ι σ μ κ L} {i : ι} (h : s.asleep i = none) :
    s.left awake asleep i = awake i (s.place i) :=
  if_pos h

variable [DecidableEq ι] [Fintype ι]

/-- The work gets less if one thread uses up more than what it gives to another one. -/
theorem work_lt_of_left {s s' : Threads ι σ μ κ L} {i k : ι} {d : ℕ}
    (hothers : ∀ j, j ≠ i → s'.left awake asleep j ≤
      s.left awake asleep j + if j = k then d else 0)
    (hself : s'.left awake asleep i + d + store s'.memory <
      s.left awake asleep i + store s.memory) :
    s'.work awake asleep store < s.work awake asleep store := by
  have hsum := sum_add_le hothers
  change ∑ j, s'.left awake asleep j + store s'.memory <
    ∑ j, s.left awake asleep j + store s.memory
  omega

/-- A thread that is awake goes to a place, and no other thread wakes up. -/
theorem work_goto_lt {s s' : Threads ι σ μ κ L} {i : ι} {l : L} (hplace : s'.place = s.place)
    (hasleep : s'.asleep = s.asleep) (hi : s.asleep i = none)
    (hlt : awake i l + store s'.memory < awake i (s.place i) + store s.memory) :
    (s'.goto i l).work awake asleep store < s.work awake asleep store := by
  refine work_lt_of_left (i := i) (k := i) (d := 0) (fun j hj => ?_) ?_
  · simp [left, goto, hplace, hasleep, hj]
  · rw [left_of_awake hi]
    simpa [left, goto, hasleep, hi] using hlt

theorem work_move_lt [DecidableEq μ]
    (hpays : ∀ i l, (program i l).Pays (A i) (awake i) (asleep i) store waking l)
    {s s' : Threads ι σ μ κ L} (hasserted : Asserted A R s)
    (hsleepers : SleepersAt (fun i l => awake i l ≤ asleep i l + waking) s)
    (hmove : Move program s s') :
    s'.work awake asleep store < s.work awake asleep store := by
  have hop : ∀ {i op}, program i (s.place i) = op →
      op.Pays (A i) (awake i) (asleep i) store waking (s.place i) := fun h => h ▸ hpays _ _
  cases hmove with
  | lock hi h hfree =>
    rcases h with h | ⟨failure, h⟩
    · exact work_goto_lt rfl rfl hi (Nat.add_lt_add_right (hop h) _)
    · exact work_goto_lt rfl rfl hi (Nat.add_lt_add_right (hop h).1 _)
  | fail hi h => exact work_goto_lt rfl rfl hi (Nat.add_lt_add_right (hop h).2 _)
  | unlock hi h => exact work_goto_lt rfl rfl hi (Nat.add_lt_add_right (hop h) _)
  | notifyNone hi h hnone =>
    have hlt := lt_of_le_of_lt (Nat.le_add_right _ _) (hop h)
    exact work_goto_lt rfl rfl hi (Nat.add_lt_add_right hlt _)
  | access hi h => exact work_goto_lt rfl rfl hi (hop h _ (hasserted.place _))
  | @wait i c m next hi h =>
    have hlt : asleep i next < awake i (s.place i) := hop h
    refine work_lt_of_left (i := i) (k := i) (d := 0) (fun j hj => ?_) ?_
    · simp [left, goto, Threads.sleep, Threads.release, hj]
    · rw [left_of_awake hi]
      simpa [left, goto, Threads.sleep, Threads.release] using hlt
  | @notifyOne i woken c next hi h hwoken =>
    have hlt : awake i next + waking < awake i (s.place i) := hop h
    have hwaking := hsleepers woken (by simp [hwoken])
    have hne : i ≠ woken := by
      rintro rfl
      rw [hi] at hwoken
      cases hwoken
    refine work_lt_of_left (i := i) (k := woken) (d := waking) (fun j hj => ?_) ?_
    · by_cases hjw : j = woken
      · subst hjw
        simpa [left, goto, Threads.rouse, hj, hwoken] using hwaking
      · simp [left, goto, Threads.rouse, hj, hjw]
    · rw [left_of_awake hi]
      simpa [left, goto, Threads.rouse, Function.update_of_ne hne, hi] using hlt

end Work

section Kept

variable {A : ι → L → σ → Prop} {R : μ → σ → Prop} {P : ι → L → Prop}

/-- The mutexes at the places of a program, what is asserted there, and where threads sleep. -/
structure Annotated (program : ι → L → Op σ μ κ L) (held : ι → L → Finset μ)
    (A : ι → L → σ → Prop) (R : μ → σ → Prop) (P : ι → L → Prop)
    [DecidableEq μ] : Prop where
  discipline : Discipline program held
  outline : Outline program held A R
  sleeps : ∀ i l c m next, program i l = .wait c m next → P i next

/-- What the annotations of a program say holds. -/
structure Kept (held : ι → L → Finset μ) (A : ι → L → σ → Prop) (R : μ → σ → Prop)
    (P : ι → L → Prop) (s : Threads ι σ μ κ L) : Prop where
  exclusive : Exclusive held s
  asserted : Asserted A R s
  sleepersAt : SleepersAt P s

theorem kept_start {memory : σ} {place : ι → L} (hheld : ∀ i, held i (place i) = ∅)
    (hplace : ∀ i, A i (place i) memory) (hfree : ∀ m, R m memory) :
    Kept held A R P (start memory place : Threads ι σ μ κ L) :=
  ⟨exclusive_start hheld, ⟨hplace, fun m _ => hfree m⟩, fun _ hi => absurd rfl hi⟩

variable [DecidableEq ι] {s s' : Threads ι σ μ κ L}

theorem Kept.rouse (h : Kept held A R P s) (i : ι) : Kept held A R P (s.rouse i) :=
  ⟨h.exclusive, h.asserted.rouse i, h.sleepersAt.rouse i⟩

variable [DecidableEq μ]

theorem Kept.move (hprogram : Annotated program held A R P) (h : Kept held A R P s)
    (hmove : Move program s s') : Kept held A R P s' :=
  ⟨h.exclusive.move hprogram.discipline hmove,
    h.asserted.move hprogram.outline h.exclusive hmove, h.sleepersAt.move hprogram.sleeps hmove⟩

variable [Fintype ι] [DecidableEq κ]

theorem Kept.run (hprogram : Annotated program held A R P) (h : Kept held A R P s)
    (actions : List (Action ι)) : Kept held A R P (actions.foldl (step program) s) :=
  run_invariant (fun _ i h => h.rouse i) (fun _ _ h hmove => h.move hprogram hmove) h actions

/-- Threads that do not go on sleep or have finished, if mutexes are locked in one order. -/
theorem Kept.asleep_or_done (hprogram : Annotated program held A R P) {rank : μ → ℕ}
    (horder : Ordered program held rank) (hsleeps : ∀ i l, P i l → held i l = ∅)
    (hloop : ∀ i l, ¬ (program i l).Next l) (h : Kept held A R P s) (hhalted : s.Halted program)
    (i : ι) : s.asleep i ≠ none ∨ program i (s.place i) = .done :=
  asleep_or_done_of_blocked hprogram.discipline horder h.exclusive
    (fun j hj => hsleeps j _ (h.sleepersAt j hj)) (blocked_of_halted hloop hhalted) i

variable {awake asleep : ι → L → ℕ} {store : σ → ℕ} {waking : ℕ}

omit [DecidableEq κ] in
theorem Kept.work_lt (hpays : ∀ i l, (program i l).Pays (A i) (awake i) (asleep i) store waking l)
    (hsleeps : ∀ i l, P i l → awake i l ≤ asleep i l + waking) (h : Kept held A R P s)
    (hmove : Move program s s') : s'.work awake asleep store < s.work awake asleep store :=
  work_move_lt hpays h.asserted (fun i hi => hsleeps i _ (h.sleepersAt i hi)) hmove

theorem Kept.length_le (hprogram : Annotated program held A R P)
    (hpays : ∀ i l, (program i l).Pays (A i) (awake i) (asleep i) store waking l)
    (hsleeps : ∀ i l, P i l → awake i l ≤ asleep i l + waking) (h : Kept held A R P s)
    {actions : List (Action ι)} (hsteps : AllSteps (step program) (Changes program) s actions) :
    actions.length ≤ s.work awake asleep store :=
  length_le_of_moves (fun _ _ h hmove => h.move hprogram hmove)
    (fun _ _ h hmove => h.work_lt hpays hsleeps hmove) h hsteps

theorem Kept.exists_halted (hprogram : Annotated program held A R P)
    (hpays : ∀ i l, (program i l).Pays (A i) (awake i) (asleep i) store waking l)
    (hsleeps : ∀ i l, P i l → awake i l ≤ asleep i l + waking) (h : Kept held A R P s) :
    ∃ more, AllSteps (step program) (Changes program) s more ∧
      (more.foldl (step program) s).Halted program :=
  Threads.exists_halted (fun _ _ h hmove => h.move hprogram hmove)
    (fun _ _ h hmove => h.work_lt hpays hsleeps hmove) h

end Kept

section Wakeups

variable {A : ι → L → σ → Prop} {R : μ → σ → Prop} {c : κ} {C : ι → σ → Prop}
  {Pending : ι → L → Prop}

/-- A thread falls asleep on `c` only while its condition is false, and one that makes the
condition of another thread true goes on to notify. -/
def Op.Wakes (A : ι → L → σ → Prop) (c : κ) (C : ι → σ → Prop) (Pending : ι → L → Prop) (i : ι)
    (l : L) : Op σ μ κ L → Prop
  | wait c' _ _ => c' = c → ∀ v, A i l v → ¬ C i v
  | access f => ∀ v j, i ≠ j → A i l v → ¬ C j v → C j (f v).1 → Pending i (f v).2
  | _ => True

/-- A thread that is about to notify does this next, or after it unlocks mutexes. -/
def Op.Notifies (c : κ) (Pending : L → Prop) : Op σ μ κ L → Prop
  | unlock _ next => Pending next
  | notifyOne c' _ => c' = c
  | _ => False

structure Wakeups (program : ι → L → Op σ μ κ L) (A : ι → L → σ → Prop) (c : κ)
    (C : ι → σ → Prop) (Pending : ι → L → Prop) : Prop where
  wakes : ∀ i l, (program i l).Wakes A c C Pending i l
  pending : ∀ i l, Pending i l → (program i l).Notifies c (Pending i)

theorem Wakeups.of_op (h : Wakeups program A c C Pending) {i : ι} {l : L} {op : Op σ μ κ L}
    (hop : program i l = op) : op.Wakes A c C Pending i l :=
  hop ▸ h.wakes i l

theorem Wakeups.notifies (h : Wakeups program A c C Pending) {i : ι} {l : L} {op : Op σ μ κ L}
    (hpending : Pending i l) (hop : program i l = op) : op.Notifies c (Pending i) :=
  hop ▸ h.pending i l hpending

/-- If a thread sleeps although its condition is true, some thread is about to notify. -/
def NoneLost (c : κ) (C : ι → σ → Prop) (Pending : ι → L → Prop) (s : Threads ι σ μ κ L) :
    Prop :=
  ∀ i, s.asleep i = some c → C i s.memory → ∃ j, s.asleep j = none ∧ Pending j (s.place j)

theorem NoneLost.rouse [DecidableEq ι] {s : Threads ι σ μ κ L} (h : NoneLost c C Pending s)
    (i : ι) : NoneLost c C Pending (s.rouse i) := by
  intro k hk hC
  have hslept := asleep_of_rouse (s := s) (by rw [hk]; exact Option.some_ne_none c)
  obtain ⟨j, hj, hpending⟩ := h k (hslept.2.trans hk) hC
  exact ⟨j, asleep_rouse_of_none hj, hpending⟩

/-- A thread that is about to notify still is when another one goes on. -/
theorem exists_pending_goto [DecidableEq ι] {s s' : Threads ι σ μ κ L} {i j : ι} {l : L}
    (hplace : s'.place = s.place) (hne : j ≠ i) (hj : s'.asleep j = none)
    (hpending : Pending j (s.place j)) :
    ∃ j, (s'.goto i l).asleep j = none ∧ Pending j ((s'.goto i l).place j) := by
  refine ⟨j, hj, ?_⟩
  change Pending j (Function.update s'.place i l j)
  rwa [Function.update_of_ne hne, hplace]

/-- A thread that is not about to notify goes on. -/
theorem NoneLost.goto [DecidableEq ι] {s s' : Threads ι σ μ κ L} (h : NoneLost c C Pending s)
    (hplace : s'.place = s.place) (hasleep : s'.asleep = s.asleep) (hmemory : s'.memory = s.memory)
    {i : ι} (hi : ¬ Pending i (s.place i)) (l : L) : NoneLost c C Pending (s'.goto i l) := by
  intro k hk hC
  obtain ⟨j, hj, hpending⟩ := h k (hasleep ▸ hk) (hmemory ▸ hC)
  have hne : j ≠ i := by
    rintro rfl
    exact hi hpending
  exact exists_pending_goto hplace hne (hasleep ▸ hj) hpending

/-- A move loses no wakeup if at most one thread sleeps while another is about to notify. -/
theorem NoneLost.move [DecidableEq ι] [DecidableEq μ]
    (hwakeups : Wakeups program A c C Pending) {s s' : Threads ι σ μ κ L}
    (hasserted : Asserted A R s) (h : NoneLost c C Pending s)
    (hsingle : ∀ i j k, s.asleep i = none → Pending i (s.place i) → s.asleep j = some c →
      s.asleep k = some c → j = k)
    (hmove : Move program s s') : NoneLost c C Pending s' := by
  cases hmove with
  | @lock i m next hi hop hfree =>
    refine h.goto rfl rfl rfl (fun hpending => ?_) next
    rcases hop with hop | ⟨failure, hop⟩
    · exact hwakeups.notifies hpending hop
    · exact hwakeups.notifies hpending hop
  | @fail i m success failure hi hop =>
    exact h.goto rfl rfl rfl (fun hpending => hwakeups.notifies hpending hop) failure
  | @unlock i m next hi hop =>
    intro k hk hC
    obtain ⟨j, hj, hpending⟩ := h k hk hC
    by_cases hji : j = i
    · subst hji
      refine ⟨j, hj, ?_⟩
      change Pending j (Function.update s.place j next j)
      rw [Function.update_self]
      exact hwakeups.notifies hpending hop
    · exact exists_pending_goto rfl hji hj hpending
  | @wait i c' m next hi hop =>
    intro k hk hC
    change Function.update s.asleep i (some c') k = some c at hk
    by_cases hki : k = i
    · subst hki
      rw [Function.update_self] at hk
      exact absurd hC (hwakeups.of_op hop (Option.some.inj hk) _ (hasserted.place k))
    · rw [Function.update_of_ne hki] at hk
      obtain ⟨j, hj, hpending⟩ := h k hk hC
      have hji : j ≠ i := by
        rintro rfl
        exact hwakeups.notifies hpending hop
      exact exists_pending_goto rfl hji ((Function.update_of_ne hji _ _).trans hj) hpending
  | @notifyOne i woken c' next hi hop hwoken =>
    intro k hk hC
    have hasleep : (s.rouse woken).asleep k = some c := hk
    obtain ⟨hne, hslept⟩ := asleep_of_rouse (by rw [hasleep]; exact Option.some_ne_none c)
    rw [hasleep] at hslept
    obtain ⟨j, hj, hpending⟩ := h k hslept hC
    have hji : j ≠ i := by
      rintro rfl
      obtain rfl : c' = c := hwakeups.notifies hpending hop
      exact hne (hsingle j k woken hj hpending hslept hwoken)
    exact exists_pending_goto rfl hji (asleep_rouse_of_none hj) hpending
  | @notifyNone i c' next hi hop hnone =>
    intro k hk hC
    obtain ⟨j, hj, hpending⟩ := h k hk hC
    have hji : j ≠ i := by
      rintro rfl
      obtain rfl : c' = c := hwakeups.notifies hpending hop
      exact hnone k hk
    exact exists_pending_goto rfl hji hj hpending
  | @access i f hi hop =>
    intro k hk hC
    have hki : i ≠ k := by
      rintro rfl
      have hasleep : s.asleep i = some c := hk
      rw [hi] at hasleep
      cases hasleep
    by_cases hbefore : C k s.memory
    · obtain ⟨j, hj, hpending⟩ := h k hk hbefore
      refine exists_pending_goto rfl ?_ hj hpending
      rintro rfl
      exact hwakeups.notifies hpending hop
    · refine ⟨i, hi, ?_⟩
      change Pending i (Function.update s.place i _ i)
      rw [Function.update_self]
      exact hwakeups.of_op hop _ k hki (hasserted.place i) hbefore hC

/-- So no run does, if this holds in whatever state there can be. -/
theorem NoneLost.run [DecidableEq ι] [DecidableEq μ] [Fintype ι] [DecidableEq κ]
    {P : ι → L → Prop} (hprogram : Annotated program held A R P)
    (hwakeups : Wakeups program A c C Pending)
    (hsingle : ∀ s : Threads ι σ μ κ L, Kept held A R P s → ∀ i j k, s.asleep i = none →
      Pending i (s.place i) → s.asleep j = some c → s.asleep k = some c → j = k)
    {s : Threads ι σ μ κ L} (hkept : Kept held A R P s) (h : NoneLost c C Pending s)
    (actions : List (Action ι)) : NoneLost c C Pending (actions.foldl (step program) s) := by
  refine (run_invariant (I := fun s => Kept held A R P s ∧ NoneLost c C Pending s)
    (fun s i h => ⟨h.1.rouse i, h.2.rouse i⟩) (fun s s' h hmove => ?_) ⟨hkept, h⟩ actions).2
  exact ⟨h.1.move hprogram hmove, h.2.move hwakeups h.1.asserted (hsingle s h.1) hmove⟩

/-- When all threads are blocked, none sleeps for something that is true. -/
theorem NoneLost.not_of_blocked (hwakeups : Wakeups program A c C Pending)
    {s : Threads ι σ μ κ L} (h : NoneLost c C Pending s)
    (hblocked : ∀ i, s.Blocked program i) {i : ι} (hi : s.asleep i = some c) :
    ¬ C i s.memory := by
  intro hC
  obtain ⟨j, hj, hpending⟩ := h i hi hC
  rcases hblocked j with hasleep | hdone | ⟨m, next, hlock, -⟩
  · exact hasleep hj
  · exact hwakeups.notifies hpending hdone
  · exact hwakeups.notifies hpending hlock

end Wakeups

end BuildYourOwnStuff.Foundations.Threads
