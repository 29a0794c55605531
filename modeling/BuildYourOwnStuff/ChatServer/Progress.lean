import BuildYourOwnStuff.ChatServer.Threads
import BuildYourOwnStuff.Foundations.Runs

/-!
# The mutex of the server

A handler that has locked the mutex unlocks it without locking it again, so one
thread at a time is inside, and whatever has happened, all handlers can finish. It
calls `send` in between, which is a step that returns, since the clients read on.
-/

namespace BuildYourOwnStuff.ChatServer

open Foundations

/-- A program that ends with the mutex unlocked either has it or has it not. -/
theorem Program.not_balanced_both {p : Program} (h : p.Balanced true) : ¬ p.Balanced false := by
  induction p with
  | done => cases h
  | lock next ih => cases h.1
  | unlock next ih => exact fun h' => Bool.noConfusion h'.1
  | sendMessage client message next ih => exact ih h
  | clients next ih => exact fun h' => ih [] (h []) (h' [])
  | usernames next ih => exact fun h' => ih [] (h []) (h' [])
  | find username next ih => exact fun h' => ih true (h true) (h' true)
  | index username next ih => exact fun h' => ih 0 (h 0) (h' 0)
  | assign username socket next ih => exact ih h
  | remove socket next ih => exact ih h
  | close socket next ih => exact ih h

namespace State

variable {ι : Type} [DecidableEq ι]

/-- The thread with the mutex is the one whose program is to unlock it. -/
structure Locked (s : State ι) : Prop where
  balanced : ∀ i t, s.threads i = some t → t.program.Balanced (decide (s.client_mutex = some i))
  holder : ∀ i, s.client_mutex = some i → (s.threads i).isSome

theorem locked_init : (init : State ι).Locked := ⟨nofun, nofun⟩

/-- A thread goes on and does not lock or unlock the mutex. -/
theorem Locked.setThread {s r : State ι} (h : s.Locked) {i : ι} {t : Thread}
    (hthreads : r.threads = s.threads) (hmutex : r.client_mutex = s.client_mutex)
    (ht : t.program.Balanced (decide (s.client_mutex = some i))) : (r.setThread i t).Locked where
  balanced j u hj := by
    change u.program.Balanced (decide (r.client_mutex = some j))
    rw [hmutex]
    by_cases hji : j = i
    · subst hji
      rw [setThread_self] at hj
      cases hj
      exact ht
    · refine h.balanced j u ?_
      rw [← hthreads]
      simpa [State.setThread, hji] using hj
  holder j hj := by
    change r.client_mutex = some j at hj
    rw [hmutex] at hj
    by_cases hji : j = i
    · subst hji
      rw [setThread_self]
      rfl
    · have := h.holder j hj
      rw [← hthreads] at this
      simpa [State.setThread, hji] using this

theorem Locked.perform {s : State ι} (h : s.Locked) {i : ι} {t : Thread}
    (hi : s.threads i = some t) : (s.perform i t).Locked := by
  have hprogram := h.balanced i t hi
  unfold State.perform
  cases hcases : t.program with
  | done => exact h
  | lock next =>
    rw [hcases] at hprogram
    simp only
    split_ifs with hfree
    · have hnone : s.client_mutex = none := Option.isNone_iff_eq_none.mp hfree
      refine ⟨fun j u hj => ?_, fun j hj => ?_⟩
      · by_cases hji : j = i
        · subst hji
          rw [setThread_self] at hj
          cases hj
          simpa [State.setThread] using hprogram.2
        · have hbefore := h.balanced j u (by simpa [State.setThread, hji] using hj)
          simpa [State.setThread, hnone, Ne.symm hji] using hbefore
      · obtain rfl : i = j := Option.some.inj hj
        rw [setThread_self]
        rfl
    · exact h
  | unlock next =>
    rw [hcases] at hprogram
    have hheld : s.client_mutex = some i := of_decide_eq_true hprogram.1
    refine ⟨fun j u hj => ?_, fun j hj => by cases hj⟩
    by_cases hji : j = i
    · subst hji
      rw [setThread_self] at hj
      cases hj
      simpa [State.setThread] using hprogram.2
    · have hbefore := h.balanced j u (by simpa [State.setThread, hji] using hj)
      simpa [State.setThread, hheld, Ne.symm hji] using hbefore
  | sendMessage client message next =>
    rw [hcases] at hprogram
    exact h.setThread (threads_send s client _) (client_mutex_send s client _) hprogram
  | clients next =>
    rw [hcases] at hprogram
    exact h.setThread rfl rfl (hprogram _)
  | usernames next =>
    rw [hcases] at hprogram
    exact h.setThread rfl rfl (hprogram _)
  | find username next =>
    rw [hcases] at hprogram
    exact h.setThread rfl rfl (hprogram _)
  | index username next =>
    rw [hcases] at hprogram
    exact h.setThread rfl rfl (hprogram _)
  | assign username socket next =>
    rw [hcases] at hprogram
    exact h.setThread rfl rfl hprogram
  | remove socket next =>
    rw [hcases] at hprogram
    exact h.setThread rfl rfl hprogram
  | close socket next =>
    rw [hcases] at hprogram
    exact h.setThread rfl rfl hprogram

/-- An idle thread does not have the mutex. -/
theorem Locked.free_of_idle {s : State ι} (h : s.Locked) {i : ι} {t : Thread}
    (hi : s.threads i = some t) (hidle : t.isIdle = true) : s.client_mutex ≠ some i := by
  have hprogram := h.balanced i t hi
  have hdone : t.program = .done := by
    simp only [Thread.isIdle, Bool.and_eq_true] at hidle
    cases hp : t.program <;> simp [hp, Program.isDone] at hidle ⊢
  rw [hdone] at hprogram
  exact of_decide_eq_false hprogram

theorem Locked.step {s : State ι} (h : s.Locked) (a : Action ι) : (s.step a).Locked := by
  cases a with
  | accept socket =>
    simp only [State.step]
    split_ifs
    · exact ⟨h.balanced, h.holder⟩
    · exact h
  | start i =>
    simp only [State.step]
    split
    · rename_i hmutex
      exact h.setThread rfl rfl (by simp [hmutex, Program.Balanced])
    · exact h
  | receive i message =>
    cases hi : s.threads i with
    | none => simpa only [State.step, hi] using h
    | some t =>
      simp only [State.step, hi]
      split_ifs with hidle
      · refine h.setThread rfl rfl ?_
        rw [decide_eq_false (h.free_of_idle hi hidle)]
        exact Program.balanced_handleMessage t.socket message
      · exact h
  | disconnect i =>
    cases hi : s.threads i with
    | none => simpa only [State.step, hi] using h
    | some t =>
      simp only [State.step, hi]
      split_ifs with hidle
      · refine h.setThread rfl rfl ?_
        rw [decide_eq_false (h.free_of_idle hi hidle)]
        exact Program.balanced_handleLogoutClient t.socket
      · exact h
  | step i =>
    cases hi : s.threads i with
    | none => simpa only [State.step, hi] using h
    | some t =>
      cases ht : t.sending with
      | none =>
        rw [step_of_thread hi ht]
        exact h.perform hi
      | some message =>
        rw [step_of_sending hi ht]
        exact h.setThread (threads_send s _ _) (client_mutex_send s _ _) (h.balanced i t hi)

/-- The thread is between messages, or there is none. -/
def Rests (s : State ι) (i : ι) : Prop :=
  ∀ t, s.threads i = some t → t.sending = none ∧ t.program = .done

theorem Locked.run {s : State ι} (h : s.Locked) (actions : List (Action ι)) :
    (actions.foldl State.step s).Locked :=
  foldl_invariant (fun _ a h => h.step a) h actions

/-- A thread leaves the others as they are. -/
theorem threads_steps_of_ne (s : State ι) {i j : ι} (h : j ≠ i) (n : ℕ) :
    ((List.replicate n (.step i)).foldl step s).threads j = s.threads j := by
  induction n generalizing s with
  | zero => rfl
  | succ n ih =>
    rw [List.replicate_succ, List.foldl_cons, ih]
    cases hi : s.threads i with
    | none => simp only [step, hi]
    | some t =>
      cases ht : t.sending with
      | some message =>
        rw [step_of_sending hi ht, sendBody]
        simp [setThread, h]
      | none =>
        rw [step_of_thread hi ht, perform]
        split <;> try split_ifs
        all_goals simp [setThread, h]

/-- A thread that has the mutex, or finds it free, can finish what it does. -/
theorem Locked.exists_rests {s : State ι} (h : s.Locked) {i : ι}
    (hmutex : s.client_mutex = none ∨ s.client_mutex = some i) :
    ∃ n, ((List.replicate n (.step i)).foldl State.step s).client_mutex = none ∧
      ((List.replicate n (.step i)).foldl State.step s).Rests i := by
  cases hi : s.threads i with
  | none =>
    refine ⟨0, hmutex.resolve_right fun hheld => ?_, fun t ht => ?_⟩
    · have := h.holder i hheld
      rw [hi] at this
      cases this
    · change s.threads i = some t at ht
      rw [hi] at ht
      cases ht
  | some t =>
    -- from a state in which nothing is half sent, the program runs to its end
    have hfinish : ∀ {r : State ι} {u : Thread}, r.client_mutex = s.client_mutex →
        r.threads i = some u → u.sending = none → u.program = t.program →
          ∃ n, ((List.replicate n (.step i)).foldl State.step r).client_mutex = none ∧
            ((List.replicate n (.step i)).foldl State.step r).Rests i := by
      intro r u hr hu hsending hprogram
      have hheld : r.client_mutex =
          if decide (s.client_mutex = some i) then some i else none := by
        rw [hr]
        rcases hmutex with hnone | hsome
        · simp [hnone]
        · simp [hsome]
      obtain ⟨n, hend⟩ := finished_of_uninterrupted (hprogram ▸ h.balanced i t hi) hu hsending
        rfl hheld
      refine ⟨n, hend.client_mutex, fun v hv => ?_⟩
      rw [hend.thread] at hv
      cases hv
      exact ⟨hsending, rfl⟩
    cases ht : t.sending with
    | none => exact hfinish rfl hi ht rfl
    | some message =>
      have hbody := step_of_sending hi ht
      obtain ⟨n, hend⟩ := hfinish (r := s.step (.step i)) (u := { t with sending := none })
        (by rw [hbody]; exact client_mutex_send s _ _)
        (by rw [hbody]; exact setThread_self _ i _) rfl rfl
      exact ⟨n + 1, hend⟩

/-- The steps of threads that finish what they do. -/
def Steps (actions : List (Action ι)) : Prop := ∀ a ∈ actions, ∃ i, a = .step i

omit [DecidableEq ι] in
theorem steps_replicate (n : ℕ) (i : ι) : Steps (List.replicate n (.step i)) :=
  fun _ ha => ⟨i, List.eq_of_mem_replicate ha⟩

/-- The thread that has the mutex can give it back. -/
theorem Locked.exists_free {s : State ι} (h : s.Locked) :
    ∃ more, Steps more ∧ (more.foldl State.step s).client_mutex = none := by
  cases hmutex : s.client_mutex with
  | none => exact ⟨[], nofun, hmutex⟩
  | some i =>
    obtain ⟨n, hfree, -⟩ := h.exists_rests (.inr hmutex)
    exact ⟨_, steps_replicate n i, hfree⟩

theorem Locked.exists_all_rest {s : State ι} (h : s.Locked) (is : Finset ι) :
    ∃ more, Steps more ∧ (more.foldl State.step s).client_mutex = none ∧
      ∀ i ∈ is, (more.foldl State.step s).Rests i := by
  induction is using Finset.induction_on with
  | empty =>
    obtain ⟨more, hsteps, hfree⟩ := h.exists_free
    exact ⟨more, hsteps, hfree, by simp⟩
  | insert i is hi ih =>
    obtain ⟨more, hsteps, hfree, hrest⟩ := ih
    obtain ⟨n, hfree', hrests⟩ := (h.run more).exists_rests (i := i) (.inl hfree)
    refine ⟨more ++ List.replicate n (.step i), ?_, ?_, ?_⟩
    · exact List.forall_mem_append.mpr ⟨hsteps, steps_replicate n i⟩
    · rwa [List.foldl_append]
    · rw [List.foldl_append, Finset.forall_mem_insert]
      refine ⟨hrests, fun j hj t ht => ?_⟩
      rw [threads_steps_of_ne _ (by rintro rfl; exact hi hj)] at ht
      exact hrest j hj t ht

/-- In every run with clients that read on, at most one thread is where it has the mutex, and
whatever the threads have done so far, any number of them can finish what they do by going on,
without a new message. -/
theorem handlers_finish (actions : List (Action ι)) (is : Finset ι) :
    (∀ i j t u, (actions.foldl step init).threads i = some t →
      (actions.foldl step init).threads j = some u →
        t.program.Balanced true → u.program.Balanced true → i = j) ∧
    ∃ more, Steps more ∧ ((actions ++ more).foldl step init).client_mutex = none ∧
      ∀ i ∈ is, ((actions ++ more).foldl step init).Rests i := by
  have hlocked := locked_init.run actions
  constructor
  · have hholder : ∀ i t, (actions.foldl step init).threads i = some t →
        t.program.Balanced true → (actions.foldl step init).client_mutex = some i := by
      intro i t hi ht
      by_contra hne
      have hbalanced := hlocked.balanced i t hi
      rw [decide_eq_false hne] at hbalanced
      exact Program.not_balanced_both ht hbalanced
    intro i j t u hi hj ht hu
    exact Option.some.inj ((hholder i t hi ht).symm.trans (hholder j u hj hu))
  · simp only [List.foldl_append]
    exact hlocked.exists_all_rest is

end State

end BuildYourOwnStuff.ChatServer
