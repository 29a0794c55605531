import BuildYourOwnStuff.Jlox.Grammar

/-!
# What is ahead of the scanner

The methods of the scanner that read characters, in terms of the part of the source
that it has not read, and what a loop over it reads.
-/

namespace BuildYourOwnStuff.Jlox.Scanner

open JavaStd Foundations

/-- The part of the source that is not read. -/
def ahead (s : Scanner) : JString := s.source.drop s.current

/-- The scanner when it has read `w`. -/
def eat (s : Scanner) (w : JString) : Scanner :=
  { s with current := s.current + w.length, line := s.line + w.count (chr '\n') }

variable {s : Scanner} {c : JChar} {w r t : JString}

@[simp] theorem eat_nil : s.eat [] = s := rfl

theorem eat_eat (w t : JString) : (s.eat w).eat t = s.eat (w ++ t) := by
  simp [eat, Nat.add_assoc]

theorem eat_cons (c : JChar) (w : JString) : (s.eat [c]).eat w = s.eat (c :: w) :=
  eat_eat [c] w

theorem eat_of_ne_newline {c : JChar} (h : c ≠ chr '\n') :
    { s with current := s.current + 1 } = s.eat [c] := by
  simp [eat, h]

@[simp] theorem start_eat : (s.eat w).start = s.start := rfl

@[simp] theorem source_eat : (s.eat w).source = s.source := rfl

@[simp] theorem current_eat : (s.eat w).current = s.current + w.length := rfl

@[simp] theorem tokens_eat : (s.eat w).tokens = s.tokens := rfl

@[simp] theorem errors_eat : (s.eat w).errors = s.errors := rfl

theorem ahead_eat (h : s.ahead = w ++ t) : (s.eat w).ahead = t := by
  rw [ahead, source_eat, current_eat, ← List.drop_drop, ← ahead, h, List.drop_left]

theorem length_le_of_ahead (h : s.ahead = w ++ t) : w.length ≤ s.source.length := by
  have hlength := congrArg List.length h
  rw [ahead, List.length_drop, List.length_append] at hlength
  omega

theorem current_lt_of_ahead (h : s.ahead = c :: t) : s.current < s.source.length := by
  have hlength := congrArg List.length h
  rw [ahead, List.length_drop, List.length_cons] at hlength
  omega

theorem isAtEnd_eq : s.isAtEnd = s.ahead.isEmpty := by
  rw [isAtEnd, ahead, Bool.eq_iff_iff, decide_eq_true_iff, List.isEmpty_iff, List.drop_eq_nil_iff]

theorem peek_eq : s.peek = .ok (s.ahead.head?.getD (chr '\x00')) := by
  rw [peek, isAtEnd_eq]
  cases h : s.ahead with
  | nil => rfl
  | cons c t => exact charAt_of_drop h

theorem peekNext_eq : s.peekNext = .ok (s.ahead.tail.head?.getD (chr '\x00')) := by
  rw [peekNext, ahead, List.tail_drop]
  cases h : s.source.drop (s.current + 1) with
  | nil =>
    rw [if_pos (List.drop_eq_nil_iff.mp h)]
    rfl
  | cons c t =>
    rw [if_neg fun hle => by simp [List.drop_eq_nil_of_le hle] at h]
    exact charAt_of_drop h

theorem advance_eq (h : s.ahead = c :: t) :
    s.advance = .ok (c, { s with current := s.current + 1 }) := by
  have hc : charAt s.source s.current = .ok c := charAt_of_drop h
  simp [advance, hc, bind, Except.bind, pure, Except.pure]

theorem matchNext_eq (expected : JChar) : s.matchNext expected =
    .ok (if s.ahead.head? = some expected then (true, { s with current := s.current + 1 })
      else (false, s)) := by
  rw [matchNext, isAtEnd_eq]
  cases h : s.ahead with
  | nil => rfl
  | cons c t =>
    have hc : charAt s.source s.current = .ok c := charAt_of_drop h
    by_cases heq : c = expected <;> simp [hc, heq, bind, Except.bind, pure, Except.pure]

/-- A loop that reads the characters that satisfy `p` reads them up to the first other one. -/
theorem loop_eq {cond : Scanner → Except Exception Bool} {body : Scanner → Except Exception Scanner}
    {p : JChar → Bool} (hcond : ∀ s : Scanner, cond s = .ok (s.ahead.head?.any p))
    (hbody : ∀ (s : Scanner) c t, s.ahead = c :: t → p c → body s = .ok (s.eat [c]))
    (hs : s.ahead = w ++ r) (hw : ∀ c ∈ w, p c) (hr : ∀ c ∈ r.head?, ¬ p c) :
    s.loop cond body = .ok (s.eat w) :=
  whileLoop_eat (fun _ => eat_nil) (fun _ c w => eat_cons c w)
    (fun _ _ _ h => ahead_eat h) hcond hbody hs hw hr (length_le_of_ahead hs)

/-- `while (peek() != last && !isAtEnd())` reads up to the next `last` or the end. -/
theorem loop_until {last : JChar} {body : Scanner → Except Exception Scanner}
    (hs : s.ahead = w ++ r) (hw : last ∉ w) (hr : ∀ c ∈ r.head?, c = last)
    (hbody : ∀ (s : Scanner) c t, s.ahead = c :: t → c ≠ last → body s = .ok (s.eat [c])) :
    s.loop (fun s => do return (← s.peek) != last && !s.isAtEnd) body = .ok (s.eat w) := by
  refine loop_eq (p := fun c => c != last) (fun s => ?_)
    (fun s c t h hc => hbody s c t h (bne_iff_ne.mp hc)) hs
    (fun c hc => bne_iff_ne.mpr (ne_of_mem_of_not_mem hc hw)) (fun c hc => ?_)
  · rw [peek_eq, isAtEnd_eq]
    cases s.ahead with
    | nil => exact congrArg Except.ok (Bool.and_false _)
    | cons c t => exact congrArg Except.ok (Bool.and_true _)
  · rw [hr c hc]
    simp

theorem advance_body (h : s.ahead = c :: t) (hc : c ≠ chr '\n') :
    (do return (← s.advance).2) = Except.ok (ε := Exception) (s.eat [c]) := by
  rw [advance_eq h, ← eat_of_ne_newline hc]
  rfl

/-- For a `p` that neither the end mark nor a newline satisfies. -/
theorem advanceWhile_eq {p : JChar → Bool} (hend : p (chr '\x00') = false)
    (hnewline : p (chr '\n') = false) (hs : s.ahead = w ++ r) (hw : ∀ c ∈ w, p c)
    (hr : ∀ c ∈ r.head?, ¬ p c) : s.advanceWhile p = .ok (s.eat w) := by
  refine loop_eq (fun s => ?_) (fun s c t h hp => advance_body h ?_) hs hw hr
  · rw [peek_eq]
    cases s.ahead with
    | nil => exact congrArg Except.ok hend
    | cons c t => rfl
  · rintro rfl
    rw [hnewline] at hp
    cases hp

end BuildYourOwnStuff.Jlox.Scanner
