import BuildYourOwnStuff.Jlox.Concatenation

/-!
# Printing the tokens

A space ends every segment that gives a token, wherever the segment was found. So if
the lexemes of a scan are joined by spaces, they are the segments of the joined text.
-/

namespace BuildYourOwnStuff.Jlox

open JavaStd Foundations

/-- What a token says apart from its line. -/
def Token.content (t : Token) : TokenType × JString × Literal := (t.type, t.lexeme, t.literal)

/-- The lexemes of tokens, joined by single spaces. -/
def reprinted (tokens : List Token) : JString :=
  [chr ' '].intercalate (tokens.map Token.lexeme)

/-- The kinds of segments that give a token. -/
def Kind.isToken : Kind → Bool
  | .operator _ | .string | .number | .word => true
  | .whitespace | .comment | .unterminated | .unexpected => false

variable {kind : Kind} {lexeme rest : JString} {segments : List (Kind × JString)}

/-- A segment that gives a token is one before a space or the end, too. -/
theorem isLongest_of_isToken (h : Segment kind lexeme rest) (hkind : kind.isToken = true)
    {after : JString} (hafter : ∀ c ∈ after.head?, c = chr ' ') :
    IsLongest Segment kind lexeme after := by
  have hdigit : ∀ c ∈ after.head?, ¬ Digit c := by
    intro c hc
    rw [hafter c hc]
    decide
  cases kind with
  | operator type =>
    have hspace : ∀ p ∈ str "//" :: operators.map Prod.fst, chr ' ' ∉ p := by decide
    refine isLongest_operator h fun c hc hmem => hspace _ hmem ?_
    rw [hafter c hc]
    exact List.mem_append_right _ List.mem_cons_self
  | string =>
    obtain ⟨body, rfl, hbody⟩ := h
    exact isLongest_string hbody
  | number =>
    obtain ⟨c, whole, hwhole, rfl | ⟨d, frac, hfrac, rfl⟩⟩ := h
    · refine isLongest_whole hwhole hdigit ?_
      rintro d frac rfl
      exact absurd (hafter _ rfl) (by decide)
    · exact isLongest_fraction hwhole hfrac hdigit
  | word =>
    obtain ⟨c, body, rfl, hc, hbody⟩ := h
    refine isLongest_word hc hbody fun d hd => ?_
    rw [hafter d hd]
    decide
  | whitespace => cases hkind
  | comment => cases hkind
  | unterminated => cases hkind
  | unexpected => cases hkind

/-- The segments with a space between them. -/
def spaced (segments : List (Kind × JString)) : List (Kind × JString) :=
  segments.intersperse (.whitespace, [chr ' '])

theorem spaced_cons_cons (p q : Kind × JString) (segments : List (Kind × JString)) :
    spaced (p :: q :: segments) = p :: (.whitespace, [chr ' ']) :: spaced (q :: segments) := rfl

/-- Segments that give tokens are the segments of the text that is made of them and
spaces. -/
theorem decomposition_spaced
    (h : ∀ p ∈ segments, p.1.isToken = true ∧ ∃ rest, Segment p.1 p.2 rest) :
    Decomposition Segment ((spaced segments).flatMap Prod.snd) (spaced segments) := by
  induction segments with
  | nil => exact .nil
  | cons p segments ih =>
    rw [List.forall_mem_cons] at h
    obtain ⟨⟨htoken, rest, hsegment⟩, hrest⟩ := h
    cases segments with
    | nil => exact .cons (isLongest_of_isToken hsegment htoken (by simp)) .nil
    | cons q segments =>
      rw [spaced_cons_cons, List.flatMap_cons, List.flatMap_cons]
      refine .cons (isLongest_of_isToken hsegment htoken ?_)
        (.cons (isLongest_whitespace (by decide)) (ih hrest))
      intro c hc
      exact (Option.some.inj hc).symm

/-- What the tokens of segments say. -/
def contents (segments : List (Kind × JString)) : List (TokenType × JString × Literal) :=
  segments.filterMap fun p => (p.1.token? p.2 1).map Token.content

theorem content_token? (kind : Kind) (lexeme : JString) (line : ℕ) :
    (kind.token? lexeme line).map Token.content = (kind.token? lexeme 1).map Token.content := by
  cases kind <;> rfl

/-- The tokens of a scan are those of the segments and one for the end. -/
theorem exists_tokensOf (line : ℕ) (segments : List (Kind × JString)) :
    ∃ tokens eof, tokensOf line segments = tokens ++ [eof] ∧ eof.type = .EOF ∧
      tokens.map Token.content = contents segments := by
  induction segments generalizing line with
  | nil => exact ⟨[], _, rfl, rfl, rfl⟩
  | cons p segments ih =>
    obtain ⟨tokens, eof, htokens, heof, hcontents⟩ := ih (line + p.2.count (chr '\n'))
    refine ⟨(p.1.token? p.2 (line + p.2.count (chr '\n'))).toList ++ tokens, eof, ?_, heof, ?_⟩
    · rw [tokensOf, htokens, List.append_assoc]
    · have hfirst := content_token? p.1 p.2 (line + p.2.count (chr '\n'))
      rw [List.map_append, hcontents, contents, contents, List.filterMap_cons, ← hfirst]
      cases p.1.token? p.2 (line + p.2.count (chr '\n')) <;> rfl

theorem isToken_eq_isSome (kind : Kind) (lexeme : JString) (line : ℕ) :
    kind.isToken = (kind.token? lexeme line).isSome := by
  cases kind <;> rfl

theorem contents_filter (segments : List (Kind × JString)) :
    contents (segments.filter fun p => p.1.isToken) = contents segments := by
  rw [contents, contents, List.filterMap_filter]
  refine List.filterMap_congr fun p _ => ?_
  rw [isToken_eq_isSome p.1 p.2 1]
  cases p.1.token? p.2 1 <;> rfl

theorem contents_spaced (segments : List (Kind × JString)) :
    contents (spaced segments) = contents segments := by
  induction segments with
  | nil => rfl
  | cons p segments ih =>
    cases segments with
    | nil => rfl
    | cons q segments =>
      rw [spaced_cons_cons]
      simp only [contents, List.filterMap_cons] at ih ⊢
      rw [ih]
      rfl

/-- The lexemes of the tokens are those of their segments. -/
theorem lexemes_of_contents (h : ∀ p ∈ segments, p.1.isToken = true) :
    (contents segments).map (fun c => c.2.1) = segments.map Prod.snd := by
  induction segments with
  | nil => rfl
  | cons p segments ih =>
    rw [List.forall_mem_cons] at h
    have hfirst : (p.1.token? p.2 1).map (fun t => t.content.2.1) = some p.2 := by
      obtain ⟨kind, lexeme⟩ := p
      cases kind <;> first | rfl | cases h.1
    obtain ⟨t, ht, hlexeme⟩ := Option.map_eq_some_iff.mp hfirst
    rw [contents, List.filterMap_cons, ht, Option.map_some, List.map_cons, List.map_cons, hlexeme,
      ← ih h.2, contents]

theorem flatMap_spaced (segments : List (Kind × JString)) :
    (spaced segments).flatMap Prod.snd = [chr ' '].intercalate (segments.map Prod.snd) := by
  induction segments with
  | nil => rfl
  | cons p segments ih =>
    cases segments with
    | nil => rfl
    | cons q segments =>
      rw [spaced_cons_cons, List.flatMap_cons, List.flatMap_cons, ih, List.map_cons, List.map_cons,
        List.map_cons, List.intercalate_cons_cons, List.append_assoc]

theorem error?_of_isToken (h : kind.isToken = true) (line : ℕ) : kind.error? line = none := by
  cases kind <;> first | rfl | cases h

/-- Neither the segments of tokens nor spaces are errors. -/
theorem errorsOf_spaced (line : ℕ) (h : ∀ p ∈ segments, p.1.isToken = true) :
    errorsOf line (spaced segments) = [] := by
  induction segments generalizing line with
  | nil => rfl
  | cons p segments ih =>
    rw [List.forall_mem_cons] at h
    cases segments with
    | nil =>
      change (p.1.error? _).toList ++ [] = []
      rw [error?_of_isToken h.1]
      rfl
    | cons q segments =>
      rw [spaced_cons_cons, errorsOf, errorsOf, error?_of_isToken h.1, ih _ h.2]
      rfl

namespace Scanner

/-- Scanning the lexemes of a scan, joined by spaces, gives no error and the same tokens
up to their lines. -/
theorem scanTokens_reprinted (source : JString) :
    ∃ s tokens eof, scanTokens source = .ok s ∧ s.tokens = tokens ++ [eof] ∧ eof.type = .EOF ∧
      ∃ s' tokens' eof', scanTokens (reprinted tokens) = .ok s' ∧ s'.errors = [] ∧
        s'.tokens = tokens' ++ [eof'] ∧ eof'.type = .EOF ∧
          tokens'.map Token.content = tokens.map Token.content := by
  obtain ⟨segments, hsegments⟩ := exists_segments source
  obtain ⟨s, hs, htokens, -⟩ := scanTokens_of_segments hsegments
  obtain ⟨tokens, eof, hsplit, heof, hcontents⟩ := exists_tokensOf 1 segments
  have hkept : ∀ p ∈ segments.filter fun p => p.1.isToken,
      p.1.isToken = true ∧ ∃ rest, Segment p.1 p.2 rest := by
    intro p hp
    obtain ⟨hmem, htoken⟩ := List.mem_filter.mp hp
    exact ⟨htoken, hsegments.segment_of_mem hmem⟩
  have hlexemes : tokens.map Token.lexeme =
      (segments.filter fun p => p.1.isToken).map Prod.snd := by
    rw [← lexemes_of_contents fun p hp => (hkept p hp).1, contents_filter, ← hcontents,
      List.map_map]
    rfl
  have hdec := decomposition_spaced hkept
  rw [flatMap_spaced, ← hlexemes] at hdec
  obtain ⟨s', hs', htokens', herrors'⟩ := scanTokens_of_segments hdec
  obtain ⟨tokens', eof', hsplit', heof', hcontents'⟩ :=
    exists_tokensOf 1 (spaced (segments.filter fun p => p.1.isToken))
  refine ⟨s, tokens, eof, hs, htokens.trans hsplit, heof, s', tokens', eof', hs', ?_,
    htokens'.trans hsplit', heof', ?_⟩
  · rw [herrors', errorsOf_spaced 1 fun p hp => (hkept p hp).1]
  · rw [hcontents', contents_spaced, contents_filter, hcontents]

end Scanner

end BuildYourOwnStuff.Jlox
