import Mathlib.Data.List.Basic
import Mathlib.Data.Nat.Notation
import Mathlib.Tactic

/-!
# Loops that can fail

A `while` loop whose condition and body can fail, run for a number of turns. A loop
that needs more of them fails, so the result of one that ends is the result of the
code. What a loop over a text consumes is given by one rule.
-/

namespace BuildYourOwnStuff.Foundations

variable {σ ε : Type} {α : Type*} {cond : σ → Except ε Bool} {body : σ → Except ε σ} {unended : ε}

/-- At most `turns` turns of `while (cond) body`. -/
def whileLoop (cond : σ → Except ε Bool) (body : σ → Except ε σ) (unended : ε) :
    ℕ → σ → Except ε σ
  | 0, s => do if ← cond s then throw unended else return s
  | turns + 1, s => do if ← cond s then whileLoop cond body unended turns (← body s) else return s

/-- A sequence of calls returns exactly when each of them does. -/
theorem bind_eq_ok {α β : Type} {x : Except ε α} {f : α → Except ε β} {b : β} :
    x >>= f = .ok b ↔ ∃ a, x = .ok a ∧ f a = .ok b := by
  cases x with
  | error e => simp [bind, Except.bind]
  | ok a => simp [bind, Except.bind]

theorem whileLoop_done {s : σ} (h : cond s = .ok false) (turns : ℕ) :
    whileLoop cond body unended turns s = .ok s := by
  cases turns <;> rw [whileLoop, h] <;> rfl

theorem whileLoop_turn {s s' : σ} (hcond : cond s = .ok true) (hbody : body s = .ok s')
    (turns : ℕ) : whileLoop cond body unended (turns + 1) s =
      whileLoop cond body unended turns s' := by
  rw [whileLoop, hcond]
  simp [bind, Except.bind, hbody]

/-- A loop that takes the next item of a text as long as it satisfies `p` takes all
items before the first one that does not. Here `ahead` is the rest of the text and
`eat` is what taking some items does to the state. -/
theorem whileLoop_eat {ahead : σ → List α} {eat : σ → List α → σ} {p : α → Bool}
    (heat_nil : ∀ s, eat s [] = s) (heat_cons : ∀ s a w, eat (eat s [a]) w = eat s (a :: w))
    (hahead : ∀ s a t, ahead s = a :: t → ahead (eat s [a]) = t)
    (hcond : ∀ s, cond s = .ok ((ahead s).head?.any p))
    (hbody : ∀ s a t, ahead s = a :: t → p a → body s = .ok (eat s [a]))
    {s : σ} {w r : List α} (hs : ahead s = w ++ r) (hw : ∀ a ∈ w, p a)
    (hr : ∀ a ∈ r.head?, ¬ p a) {turns : ℕ} (hturns : w.length ≤ turns) :
    whileLoop cond body unended turns s = .ok (eat s w) := by
  induction w generalizing s turns with
  | nil =>
    rw [heat_nil]
    apply whileLoop_done
    rw [hcond, hs, List.nil_append, Except.ok.injEq, Option.any_eq_false]
    exact fun a ha => Bool.not_eq_true _ ▸ hr a ha
  | cons a w ih =>
    rw [List.forall_mem_cons] at hw
    rw [List.cons_append] at hs
    obtain ⟨turns, rfl⟩ : ∃ n, turns = n + 1 := ⟨turns - 1, by
      rw [List.length_cons] at hturns
      omega⟩
    have htrue : cond s = .ok true := by
      rw [hcond, hs, List.head?_cons, Option.any_some, hw.1]
    rw [whileLoop_turn htrue (hbody s a _ hs hw.1), ← heat_cons s a w]
    exact ih (hahead s a _ hs) hw.2 (Nat.le_of_succ_le_succ hturns)

end BuildYourOwnStuff.Foundations
