import Mathlib.Tactic

/-!
# Runs of a deterministic system

A system is a function `step` from a state and an input to the next state; a
run feeds it a list of inputs. `AllStates` says what holds in every state a run
visits, `AllSteps` what holds of every state and input at which it takes a
step. An invariant kept by each step holds along the run, and a property that
one step keeps exactly when the step is of the right kind holds in every state
exactly when every step is.
-/

namespace BuildYourOwnStuff.Foundations

variable {σ ι : Type*} (step : σ → ι → σ)

/-- `Q` holds in every state of the run, the first one included. -/
def AllStates (Q : σ → Prop) : σ → List ι → Prop
  | s, [] => Q s
  | s, i :: is => Q s ∧ AllStates Q (step s i) is

/-- `P` holds of every state and input at which the run takes a step. -/
def AllSteps (P : σ → ι → Prop) : σ → List ι → Prop
  | _, [] => True
  | s, i :: is => P s i ∧ AllSteps P (step s i) is

variable {step}

/-- An invariant of every step holds at the end of the run. -/
theorem foldl_invariant {I : σ → Prop} (hstep : ∀ s i, I s → I (step s i)) {s : σ}
    (hs : I s) (is : List ι) : I (is.foldl step s) := by
  induction is generalizing s with
  | nil => exact hs
  | cons i is ih => exact ih (hstep s i hs)

theorem AllStates.head {Q : σ → Prop} {s : σ} {is : List ι} (h : AllStates step Q s is) : Q s := by
  cases is with
  | nil => exact h
  | cons i is => exact h.1

theorem AllStates.last {Q : σ → Prop} {s : σ} {is : List ι} (h : AllStates step Q s is) :
    Q (is.foldl step s) := by
  induction is generalizing s with
  | nil => exact h
  | cons i is ih => exact ih h.2

theorem AllStates.mono {Q R : σ → Prop} (hQR : ∀ s, Q s → R s) {s : σ} {is : List ι}
    (h : AllStates step Q s is) : AllStates step R s is := by
  induction is generalizing s with
  | nil => exact hQR s h
  | cons i is ih => exact ⟨hQR s h.1, ih h.2⟩

/-- What follows from an invariant and from `Q` before and after a step holds of
every step of a run whose states all have `Q`. -/
theorem allSteps_of_allStates {I Q : σ → Prop} {P : σ → ι → Prop}
    (hI : ∀ s i, I s → I (step s i))
    (hP : ∀ s i, I s → Q s → Q (step s i) → P s i) {s : σ} (hs : I s) {is : List ι}
    (h : AllStates step Q s is) : AllSteps step P s is := by
  induction is generalizing s with
  | nil => trivial
  | cons i is ih => exact ⟨hP s i hs h.1 h.2.head, ih (hI s i hs) h.2⟩

/-- A property that follows from an invariant of the steps with `P` holds in every
state of a run whose steps all have `P`. -/
theorem allStates_of_allSteps {I Q : σ → Prop} {P : σ → ι → Prop}
    (hI : ∀ s i, I s → P s i → I (step s i)) (hQ : ∀ s, I s → Q s) {s : σ} (hs : I s)
    {is : List ι} (h : AllSteps step P s is) : AllStates step Q s is := by
  induction is generalizing s with
  | nil => exact hQ s hs
  | cons i is ih => exact ⟨hQ s hs, ih (hI s i hs h.1) h.2⟩

/-- Under an invariant `I` of the system, let a step from a state with `Q` reach
a state with `Q` exactly when `P` holds of it. Then `Q` holds in every state of
a run exactly when `P` holds of every step. -/
theorem allStates_iff_allSteps {I Q : σ → Prop} {P : σ → ι → Prop}
    (hI : ∀ s i, I s → I (step s i))
    (hQ : ∀ s i, I s → Q s → (Q (step s i) ↔ P s i)) {s : σ} (hs : I s) (hq : Q s)
    (is : List ι) : AllStates step Q s is ↔ AllSteps step P s is := by
  induction is generalizing s with
  | nil => exact ⟨fun _ => trivial, fun _ => hq⟩
  | cons i is ih =>
    constructor
    · rintro ⟨_, htail⟩
      have hP := (hQ s i hs hq).mp htail.head
      exact ⟨hP, (ih (hI s i hs) htail.head).mp htail⟩
    · rintro ⟨hP, htail⟩
      exact ⟨hq, (ih (hI s i hs) ((hQ s i hs hq).mpr hP)).mpr htail⟩

theorem AllSteps.mono {P P' : σ → ι → Prop} (hP : ∀ s i, P s i → P' s i) {s : σ} {is : List ι}
    (h : AllSteps step P s is) : AllSteps step P' s is := by
  induction is generalizing s with
  | nil => trivial
  | cons i is ih => exact ⟨hP s i h.1, ih h.2⟩

theorem AllSteps.append {P : σ → ι → Prop} {s : σ} {is js : List ι} (h : AllSteps step P s is)
    (h' : AllSteps step P (is.foldl step s) js) : AllSteps step P s (is ++ js) := by
  induction is generalizing s with
  | nil => exact h'
  | cons i is ih => exact ⟨h.1, ih h.2 h'⟩

/-- If every step with `P` uses something up, there is only so much for them. -/
theorem length_le_of_allSteps {I : σ → Prop} {P : σ → ι → Prop} {Φ : σ → ℕ}
    (hI : ∀ s i, I s → P s i → I (step s i)) (hΦ : ∀ s i, I s → P s i → Φ (step s i) < Φ s)
    {s : σ} (hs : I s) {is : List ι} (h : AllSteps step P s is) : is.length ≤ Φ s := by
  induction is generalizing s with
  | nil => exact Nat.zero_le _
  | cons i is ih => exact (Nat.succ_le_succ (ih (hI s i hs h.1) h.2)).trans (hΦ s i hs h.1)

/-- If every step that changes something uses something up, every run can be continued until
no step with `P` changes anything. -/
theorem exists_stuck {I : σ → Prop} {P : σ → ι → Prop} {Φ : σ → ℕ}
    (hI : ∀ s i, I s → P s i → I (step s i))
    (hΦ : ∀ s i, I s → P s i → step s i ≠ s → Φ (step s i) < Φ s) {s : σ} (hs : I s) :
    ∃ is, AllSteps step (fun s i => P s i ∧ step s i ≠ s) s is ∧
      ∀ i, P (is.foldl step s) i → step (is.foldl step s) i = is.foldl step s := by
  induction hn : Φ s using Nat.strong_induction_on generalizing s with
  | _ n ih =>
    by_cases hstuck : ∀ i, P s i → step s i = s
    · exact ⟨[], trivial, hstuck⟩
    · simp only [not_forall] at hstuck
      obtain ⟨i, hP, hne⟩ := hstuck
      obtain ⟨is, hsteps, hend⟩ := ih _ (hn ▸ hΦ s i hs hP hne) (hI s i hs hP) rfl
      exact ⟨i :: is, ⟨⟨hP, hne⟩, hsteps⟩, hend⟩

section Failing

variable {ε : Type*} {act : σ → ι → Except ε σ} {I : σ → Prop} {P : σ → ι → Prop} {s : σ}
  {is : List ι}

/-- A system whose steps can fail stops at the first failure. -/
def tryStep (act : σ → ι → Except ε σ) (s : Except ε σ) (i : ι) : Except ε σ :=
  s.bind fun s => act s i

theorem foldl_tryStep_error (e : ε) (is : List ι) :
    is.foldl (tryStep act) (.error e) = .error e := by
  induction is with
  | nil => rfl
  | cons i is ih => exact ih

theorem foldl_tryStep_invariant (hI : ∀ s i s', I s → act s i = .ok s' → I s') (hs : I s) {s' : σ}
    (h : is.foldl (tryStep act) (.ok s) = .ok s') : I s' := by
  induction is generalizing s with
  | nil => exact Except.ok.inj h ▸ hs
  | cons i is ih =>
    change is.foldl (tryStep act) (act s i) = .ok s' at h
    cases hact : act s i with
    | error e =>
      rw [hact, foldl_tryStep_error] at h
      cases h
    | ok s₁ =>
      rw [hact] at h
      exact ih (hI s i s₁ hs hact) h

/-- If no step fails, no run does. -/
theorem exists_foldl_tryStep (h : ∀ s i, I s → ∃ s', act s i = .ok s' ∧ I s') (hs : I s)
    (is : List ι) : ∃ s', is.foldl (tryStep act) (.ok s) = .ok s' ∧ I s' := by
  induction is generalizing s with
  | nil => exact ⟨s, rfl, hs⟩
  | cons i is ih =>
    obtain ⟨s₁, hact, hs₁⟩ := h s i hs
    change ∃ s', is.foldl (tryStep act) (act s i) = .ok s' ∧ I s'
    rw [hact]
    exact ih hs₁

/-- If a step fails exactly when it does not have `P`, a run does not fail exactly when all of its
steps have `P`. -/
theorem exists_foldl_tryStep_iff (hI : ∀ s i s', I s → act s i = .ok s' → I s')
    (hP : ∀ s i, I s → ((∃ s', act s i = .ok s') ↔ P s i)) (hs : I s) :
    (∃ s', is.foldl (tryStep act) (.ok s) = .ok s') ↔
      AllSteps (tryStep act) (fun s i => ∀ s', s = .ok s' → P s' i) (.ok s) is := by
  induction is generalizing s with
  | nil => exact iff_of_true ⟨s, rfl⟩ trivial
  | cons i is ih =>
    have hfirst : (∀ s', (.ok s : Except ε σ) = .ok s' → P s' i) ↔ P s i := by simp
    change (∃ s', is.foldl (tryStep act) (act s i) = .ok s') ↔
      (∀ s', (.ok s : Except ε σ) = .ok s' → P s' i) ∧ AllSteps (tryStep act) _ (act s i) is
    rw [hfirst, ← hP s i hs]
    cases hact : act s i with
    | error e => simp [foldl_tryStep_error]
    | ok s₁ =>
      rw [ih (hI s i s₁ hs hact)]
      exact (and_iff_right ⟨s₁, rfl⟩).symm

theorem length_le_of_tryStep {Φ : σ → ℕ}
    (h : ∀ s i, I s → P s i → ∃ s', act s i = .ok s' ∧ I s' ∧ Φ s' < Φ s) (hs : I s)
    (hsteps : AllSteps (tryStep act) (fun s i => ∃ s', s = .ok s' ∧ P s' i) (.ok s) is) :
    is.length ≤ Φ s := by
  induction is generalizing s with
  | nil => exact Nat.zero_le _
  | cons i is ih =>
    obtain ⟨⟨s₀, heq, hP⟩, hrest⟩ := hsteps
    obtain rfl := Except.ok.inj heq
    obtain ⟨s', hact, hs', hlt⟩ := h s i hs hP
    change AllSteps (tryStep act) _ (act s i) is at hrest
    rw [hact] at hrest
    exact (Nat.succ_le_succ (ih hs' hrest)).trans hlt

end Failing

end BuildYourOwnStuff.Foundations
