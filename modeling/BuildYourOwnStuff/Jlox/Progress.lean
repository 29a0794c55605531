import BuildYourOwnStuff.Jlox.Scanning

/-!
# Progress of the scanner

Each call of `scanToken` reads at least one character and stays in the source, and all
indices that it uses are in range, since it returns. So `scanTokens` returns, too.
-/

namespace BuildYourOwnStuff.Jlox

open JavaStd Foundations

/-- Digits, and between two of them at most one point. -/
def Numeral (text : JString) : Prop :=
  ∃ whole frac, whole ≠ [] ∧ (∀ c ∈ whole ++ frac, Digit c) ∧
    (text = whole ∨ frac ≠ [] ∧ text = whole ++ chr '.' :: frac)

theorem numeral_of_number {lexeme rest : JString} (h : Segment .number lexeme rest) :
    Numeral lexeme := by
  obtain ⟨c, whole, hwhole, rfl | ⟨d, frac, hfrac, rfl⟩⟩ := h
  · exact ⟨c :: whole, [], List.cons_ne_nil _ _, by simpa using hwhole, .inl rfl⟩
  · exact ⟨c :: whole, d :: frac, List.cons_ne_nil _ _, List.forall_mem_append.mpr ⟨hwhole, hfrac⟩,
      .inr ⟨List.cons_ne_nil _ _, rfl⟩⟩

namespace Scanner

variable {s : Scanner}

/-- The scanner at the start of a turn of `scanTokens`. -/
def begin (s : Scanner) : Scanner := { s with start := s.current }

theorem ahead_ne_nil (h : s.isAtEnd = false) : s.begin.ahead ≠ [] := by
  rw [isAtEnd_eq, List.isEmpty_eq_false_iff] at h
  exact h

/-- One call of `scanToken`. -/
theorem scanToken_progress (h : s.isAtEnd = false) :
    ∃ s', s.begin.scanToken = .ok s' ∧ s'.source = s.source ∧ s'.start = s.current ∧
      s'.start < s'.current ∧ s'.current ≤ s.source.length := by
  obtain ⟨kind, lexeme, rest, hsplit, hlongest, hscan⟩ :=
    scanToken_longest (s := s.begin) rfl (ahead_ne_nil h)
  have hpos := List.length_pos_of_ne_nil hlongest.segment.ne_nil
  have hlength := congrArg List.length hsplit
  rw [ahead, List.length_drop, List.length_append] at hlength
  have hcurrent : (s.begin.emit kind lexeme).current = s.current + lexeme.length := rfl
  have hsource : s.begin.source = s.source := rfl
  have hbegin : s.begin.current = s.current := rfl
  refine ⟨_, hscan, rfl, rfl, ?_, ?_⟩
  · rw [hcurrent]
    change s.current < s.current + lexeme.length
    omega
  · rw [hcurrent]
    rw [hsource, hbegin] at hlength
    omega

/-- What is parsed when `number` is called. -/
theorem numberEnd_numeral (h : s.isAtEnd = false) {c : JChar} {s₁ : Scanner}
    (hadvance : s.begin.advance = .ok (c, s₁)) (hc : isDigit c = true) :
    ∃ s₂ text, s₁.numberEnd = .ok s₂ ∧
      substring s₂.source s₂.start s₂.current = .ok text ∧ Numeral text := by
  obtain ⟨d, t, hs⟩ := List.exists_cons_of_ne_nil (ahead_ne_nil h)
  rw [advance_eq hs] at hadvance
  cases hadvance
  rw [isDigit_eq, decide_eq_true_iff] at hc
  have hnewline : c ≠ chr '\n' := by
    rintro rfl
    exact absurd hc (by decide)
  -- `substring` starts at the digit that `advance` has read
  obtain ⟨text, rest, hsplit, hlongest, hend⟩ := exists_number hs hc
  rw [eat_of_ne_newline hnewline]
  exact ⟨_, text, hend, substring_lexeme rfl hsplit hlongest.segment.ne_nil,
    numeral_of_number hlongest.segment⟩

/-- The scanner makes progress, parses only numerals and returns. -/
theorem scanTokens_total (source : JString) :
    (∀ s : Scanner, s.source = source → s.isAtEnd = false →
      (∃ s', s.begin.scanToken = .ok s' ∧ s'.source = source ∧ s'.start = s.current ∧
        s'.start < s'.current ∧ s'.current ≤ source.length) ∧
      ∀ c s₁, s.begin.advance = .ok (c, s₁) → isDigit c = true →
        ∃ s₂ text, s₁.numberEnd = .ok s₂ ∧
          substring s₂.source s₂.start s₂.current = .ok text ∧ Numeral text) ∧
    ∃ s, scanTokens source = .ok s := by
  refine ⟨?_, ?_⟩
  · rintro s rfl h
    exact ⟨scanToken_progress h, fun c s₁ => numberEnd_numeral h⟩
  · obtain ⟨segments, h⟩ := exists_segments source
    obtain ⟨s, hs, -⟩ := scanTokens_of_segments h
    exact ⟨s, hs⟩

end Scanner

end BuildYourOwnStuff.Jlox
