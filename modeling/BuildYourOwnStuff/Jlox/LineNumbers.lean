import BuildYourOwnStuff.Jlox.Concatenation

/-!
# Line numbers

The line of a token is that of the end of its lexeme, and the line of an error is
that of the character or, for an open string, that of the end of the source.
-/

namespace BuildYourOwnStuff.Jlox

open JavaStd Foundations

/-- One more than the number of newlines before a place in the source. -/
def lineAt (source : JString) (n : ℕ) : ℕ := 1 + (source.take n).count (chr '\n')

/-- A segment and the number of characters before it. -/
structure Placed where
  start : ℕ
  kind : Kind
  lexeme : JString

/-- The place after a segment. -/
def Placed.stop (p : Placed) : ℕ := p.start + p.lexeme.length

/-- The places of segments that follow each other. -/
def placed (start : ℕ) : List (Kind × JString) → List Placed
  | [] => []
  | (kind, lexeme) :: segments =>
    ⟨start, kind, lexeme⟩ :: placed (start + lexeme.length) segments

/-- The token of a segment, with the line of its end. -/
def Placed.token? (source : JString) (p : Placed) : Option Token :=
  p.kind.token? p.lexeme (lineAt source p.stop)

/-- The error of a segment: for an unexpected character the line is that of the character,
for an open string the last one of the source. -/
def Placed.error? (source : JString) (p : Placed) : Option LoxError :=
  match p.kind with
  | .unexpected => some ⟨lineAt source p.start, "Unexpected character."⟩
  | .unterminated => some ⟨lineAt source source.length, "Unterminated string."⟩
  | _ => none

theorem lineAt_append (pre lexeme rest : JString) :
    lineAt (pre ++ (lexeme ++ rest)) (pre.length + lexeme.length) =
      lineAt (pre ++ (lexeme ++ rest)) pre.length + lexeme.count (chr '\n') := by
  have hpre : (pre ++ (lexeme ++ rest)).take pre.length = pre := List.take_left
  have hboth : (pre ++ (lexeme ++ rest)).take (pre.length + lexeme.length) = pre ++ lexeme := by
    rw [← List.append_assoc, ← List.length_append]
    exact List.take_left
  rw [lineAt, lineAt, hpre, hboth, List.count_append, Nat.add_assoc]

variable {kind : Kind} {lexeme rest text : JString} {segments : List (Kind × JString)}

/-- The segments are where they are placed. -/
theorem placed_spec (pre : JString) (h : Decomposition Segment text segments) :
    ∀ p ∈ placed pre.length segments,
      ∃ before after, pre ++ text = before ++ (p.lexeme ++ after) ∧ before.length = p.start := by
  induction h generalizing pre with
  | nil => exact fun p hp => absurd hp List.not_mem_nil
  | @cons kind lexeme rest segments _ _ ih =>
    intro p hp
    rcases List.mem_cons.mp hp with rfl | hp
    · exact ⟨pre, rest, rfl, rfl⟩
    · rw [← List.append_assoc]
      apply ih (pre ++ lexeme) p
      rwa [List.length_append]

theorem tokensOf_eq_placed (pre : JString) (h : Decomposition Segment text segments) :
    tokensOf (lineAt (pre ++ text) pre.length) segments =
      (placed pre.length segments).filterMap (Placed.token? (pre ++ text)) ++
        [⟨.EOF, [], .null, lineAt (pre ++ text) (pre ++ text).length⟩] := by
  induction h generalizing pre with
  | nil => simp [tokensOf, placed]
  | @cons kind lexeme rest segments _ _ ih =>
    have hnext := ih (pre ++ lexeme)
    rw [List.append_assoc, List.length_append, lineAt_append] at hnext
    rw [tokensOf, hnext, placed, List.filterMap_cons]
    simp only [Placed.token?, Placed.stop, lineAt_append]
    cases kind.token? lexeme (lineAt (pre ++ (lexeme ++ rest)) pre.length +
      lexeme.count (chr '\n')) <;> rfl

/-- The error that is reported for a segment is that of its place. -/
theorem error?_eq_placed (pre : JString) (h : Segment kind lexeme rest) :
    kind.error? (lineAt (pre ++ (lexeme ++ rest)) pre.length + lexeme.count (chr '\n')) =
      Placed.error? (pre ++ (lexeme ++ rest)) ⟨pre.length, kind, lexeme⟩ := by
  cases kind with
  | unexpected =>
    obtain ⟨c, rfl, hc⟩ := h
    have hnewline : c ≠ chr '\n' := by
      rintro rfl
      exact hc (.inl (by decide))
    simp [Kind.error?, Placed.error?, hnewline]
  | unterminated =>
    obtain ⟨body, rfl, -, rfl⟩ := h
    rw [← lineAt_append, ← List.length_append]
    simp only [List.append_nil]
    rfl
  | whitespace => rfl
  | comment => rfl
  | operator type => rfl
  | string => rfl
  | number => rfl
  | word => rfl

theorem errorsOf_eq_placed (pre : JString) (h : Decomposition Segment text segments) :
    errorsOf (lineAt (pre ++ text) pre.length) segments =
      (placed pre.length segments).filterMap (Placed.error? (pre ++ text)) := by
  induction h generalizing pre with
  | nil => rfl
  | @cons kind lexeme rest segments first _ ih =>
    have hnext := ih (pre ++ lexeme)
    rw [List.append_assoc, List.length_append, lineAt_append] at hnext
    rw [errorsOf, hnext, error?_eq_placed pre first.segment, placed, List.filterMap_cons]
    cases Placed.error? (pre ++ (lexeme ++ rest)) ⟨pre.length, kind, lexeme⟩ <;> rfl

namespace Scanner

/-- The scan of a source gives the tokens and errors of its segments, each with the line
of its place; the token for the end has the last line. -/
theorem scanTokens_lines (source : JString) :
    ∃ segments s, Decomposition Segment source segments ∧ scanTokens source = .ok s ∧
      (∀ p ∈ placed 0 segments, ∃ before after,
        source = before ++ (p.lexeme ++ after) ∧ before.length = p.start) ∧
      s.tokens = (placed 0 segments).filterMap (Placed.token? source) ++
        [⟨.EOF, [], .null, lineAt source source.length⟩] ∧
      s.errors = (placed 0 segments).filterMap (Placed.error? source) := by
  obtain ⟨segments, hsegments⟩ := exists_segments source
  obtain ⟨s, hs, htokens, herrors⟩ := scanTokens_of_segments hsegments
  refine ⟨segments, s, hsegments, hs, placed_spec [] hsegments, ?_, ?_⟩
  · rw [htokens]
    exact tokensOf_eq_placed [] hsegments
  · rw [herrors]
    exact errorsOf_eq_placed [] hsegments

end Scanner

end BuildYourOwnStuff.Jlox
