import BuildYourOwnStuff.JavaStd.Readers
import BuildYourOwnStuff.Jlox.Concatenation

/-!
# File mode and prompt mode

A file is scanned as a whole and the prompt one line at a time. If no string is open
at the end of a line, both print the same tokens.
-/

namespace BuildYourOwnStuff.Jlox

open JavaStd Foundations

/-- What a token is printed with: all of it but the line. -/
def Token.printed (t : Token) : TokenType × JString × Literal := (t.type, t.lexeme, t.literal)

/-- The field `hadError`, and what has been printed and reported. -/
structure Lox where
  hadError : Bool := false
  tokens : List Token := []
  errors : List LoxError := []
  deriving DecidableEq, Repr

namespace Lox

def run (lox : Lox) (source : JString) : Except Exception Lox := do
  let scanner ← Scanner.scanTokens source
  return {
    hadError := lox.hadError || !scanner.errors.isEmpty
    tokens := lox.tokens ++ scanner.tokens
    errors := lox.errors ++ scanner.errors }

/-- The contents of a file, and the status with which the program exits. -/
def runFile (source : JString) : Except Exception (Lox × ℕ) := do
  let lox ← run {} source
  return (lox, if lox.hadError then 65 else 0)

/-- The loop of `runPrompt` over the lines of its input. -/
def promptLines (lox : Lox) : List JString → Except Exception Lox
  | [] => return lox
  | line :: ls => do
    let lox ← lox.run line
    promptLines { lox with hadError := false } ls

def runPrompt (input : JString) : Except Exception Lox := promptLines {} (readLines false input)

end Lox

/-- The tokens with the ends of all lines but the last left out. -/
def withoutInnerEOFs (tokens : List Token) : List Token :=
  (tokens.dropLast.filter fun t => t.type ≠ .EOF) ++ tokens.getLast?.toList

theorem withoutInnerEOFs_append (tokens : List Token) {tokens' : List Token} (h : tokens' ≠ []) :
    withoutInnerEOFs (tokens ++ tokens') =
      (tokens.filter fun t => t.type ≠ .EOF) ++ withoutInnerEOFs tokens' := by
  rw [withoutInnerEOFs, List.dropLast_append_of_ne_nil h, List.filter_append, List.append_assoc,
    List.getLast?_append_of_ne_nil _ h, withoutInnerEOFs]

/-- Only the end of a source gives an EOF token. -/
theorem Segment.type_ne_EOF {kind : Kind} {lexeme rest : JString} {line : ℕ} {t : Token}
    (h : Segment kind lexeme rest) (ht : kind.token? lexeme line = some t) : t.type ≠ .EOF := by
  cases kind with
  | operator type =>
    have hnone : ∀ p ∈ operators, p.2 ≠ .EOF := by decide
    cases ht
    exact hnone _ h
  | word =>
    have hnone : ∀ p ∈ keywords, p.2 ≠ .EOF := by decide
    obtain rfl := Option.some.inj ht
    dsimp only
    cases hlookup : keywords.lookup lexeme with
    | none => simp
    | some type =>
      obtain ⟨before, after, hsplit, -⟩ := List.lookup_eq_some_iff.mp hlookup
      exact hnone (lexeme, type) (by rw [hsplit]; simp)
  | string => cases ht; simp
  | number => cases ht; simp
  | whitespace => cases ht
  | comment => cases ht
  | unterminated => cases ht
  | unexpected => cases ht

section Segments

variable {segments : List (Kind × JString)}

theorem tokensOf_eq_concat (line : ℕ) (segments : List (Kind × JString)) :
    tokensOf line segments =
      (tokensOf line segments).dropLast ++ [⟨.EOF, [], .null, endLine line segments⟩] := by
  induction segments generalizing line with
  | nil => rfl
  | cons segment segments ih =>
    rw [tokensOf, List.dropLast_append_of_ne_nil (tokensOf_ne_nil _ _), List.append_assoc,
      endLine_cons, ← ih]

theorem type_ne_EOF_of_mem_dropLast {source : JString} (h : Decomposition Segment source segments)
    {line : ℕ} {t : Token} (ht : t ∈ (tokensOf line segments).dropLast) : t.type ≠ .EOF := by
  have hall : ∀ p ∈ segments, ∃ r, Segment p.1 p.2 r := fun p => h.segment_of_mem
  clear h
  induction segments generalizing line with
  | nil => cases ht
  | cons segment segments ih =>
    rw [List.forall_mem_cons] at hall
    rw [tokensOf, List.dropLast_append_of_ne_nil (tokensOf_ne_nil _ _), List.mem_append,
      Option.mem_toList] at ht
    rcases ht with ht | ht
    · obtain ⟨r, hr⟩ := hall.1
      exact hr.type_ne_EOF ht
    · exact ih ht hall.2

theorem filter_dropLast_tokensOf {source : JString} (h : Decomposition Segment source segments)
    (line : ℕ) : ((tokensOf line segments).dropLast.filter fun t => t.type ≠ .EOF) =
      (tokensOf line segments).dropLast := by
  rw [List.filter_eq_self]
  intro t ht
  simpa using type_ne_EOF_of_mem_dropLast h ht

/-- The tokens of a source without the one for its end. -/
theorem filter_tokensOf {source : JString} (h : Decomposition Segment source segments) (line : ℕ) :
    (tokensOf line segments).filter (fun t => t.type ≠ .EOF) =
      (tokensOf line segments).dropLast := by
  rw [tokensOf_eq_concat, List.filter_append, List.dropLast_concat, filter_dropLast_tokensOf h]
  simp

theorem withoutInnerEOFs_tokensOf {source : JString} (h : Decomposition Segment source segments)
    (line : ℕ) : withoutInnerEOFs (tokensOf line segments) = tokensOf line segments := by
  have hne := tokensOf_ne_nil line segments
  rw [withoutInnerEOFs, filter_dropLast_tokensOf h, List.getLast?_eq_some_getLast hne]
  exact List.dropLast_append_getLast hne

/-- No string is open at the end of a line. -/
def LineByLine (segments : List (Kind × JString)) : Prop :=
  ∀ p ∈ segments, ¬ (p.1 = .unterminated ∨ (p.1 = .string ∧ chr '\n' ∈ p.2))

/-- If no string is open at the end of a line of the whole, the first source, the newline
and the second source have their segments one after another. -/
theorem LineByLine.split {a b : JString} {segmentsA segmentsB : List (Kind × JString)}
    (h : LineByLine segments) (hdec : Decomposition Segment (a ++ chr '\n' :: b) segments)
    (ha : Decomposition Segment a segmentsA) (hb : Decomposition Segment b segmentsB) :
    segments = segmentsA ++ (.whitespace, [chr '\n']) :: segmentsB ∧ LineByLine segmentsB := by
  have hclosed : ∀ p ∈ segmentsA, p.1 ≠ .unterminated := by
    intro p hp hopen
    obtain ⟨segments', hdec', q, hq, hspan⟩ := exists_open_append_newline ha ⟨p, hp, hopen⟩ b
    rw [Scanner.segments_unique hdec' hdec] at hq
    exact h q hq hspan
  have hsame := Scanner.segments_unique hdec (decomposition_append_newline ha hb hclosed)
  refine ⟨hsame, fun p hp => h p ?_⟩
  rw [hsame]
  exact List.mem_append_right _ (List.mem_cons_of_mem _ hp)

end Segments

/-- The segments of a source. -/
noncomputable def segmentsOf (source : JString) : List (Kind × JString) :=
  (Scanner.exists_segments source).choose

theorem decomposition_segmentsOf (source : JString) :
    Decomposition Segment source (segmentsOf source) :=
  (Scanner.exists_segments source).choose_spec

/-- The tokens of a source that starts in line 1. -/
noncomputable def tokens (source : JString) : List Token := tokensOf 1 (segmentsOf source)

theorem printed_shift (n : ℕ) (ts : List Token) :
    (ts.map (Token.shift n)).map Token.printed = ts.map Token.printed := by
  rw [List.map_map]
  rfl

theorem map_withoutInnerEOFs_append (source : JString) {ts : List Token} (h : ts ≠ []) :
    (withoutInnerEOFs (tokens source ++ ts)).map Token.printed =
      (tokens source).dropLast.map Token.printed ++ (withoutInnerEOFs ts).map Token.printed := by
  rw [withoutInnerEOFs_append _ h, tokens, filter_tokensOf (decomposition_segmentsOf source),
    List.map_append]

theorem flatMap_tokens_ne_nil {ls : List JString} (h : ls ≠ []) : ls.flatMap tokens ≠ [] := by
  obtain ⟨l, ls, rfl⟩ := List.exists_cons_of_ne_nil h
  exact List.append_ne_nil_of_left_ne_nil (tokensOf_ne_nil 1 _) _

theorem tokens_append_newline {a b : JString} (h : segmentsOf (a ++ chr '\n' :: b) =
    segmentsOf a ++ (.whitespace, [chr '\n']) :: segmentsOf b) :
    tokens (a ++ chr '\n' :: b) =
      (tokens a).dropLast ++ (tokens b).map (Token.shift (endLine 1 (segmentsOf a))) := by
  rw [tokens, h, tokensOf_append_newline, Nat.add_comm, tokensOf_shift]
  rfl

/-- Line by line, the tokens of a source are those of its lines. -/
theorem printed_lines {source : JString} (h : LineByLine (segmentsOf source)) :
    (withoutInnerEOFs ((lines (chr '\n') (source ++ [chr '\n'])).flatMap tokens)).map
      Token.printed = (tokens source).map Token.printed := by
  induction hn : source.length using Nat.strong_induction_on generalizing source with
  | _ n ih =>
    obtain ⟨w, r, rfl, hw, hr⟩ := exists_boundary (fun c => c ≠ chr '\n') source
    have hnot : chr '\n' ∉ w := fun hmem => hw _ hmem rfl
    rcases r with _ | ⟨c, b⟩
    · rw [List.append_nil, lines_append_sep hnot, lines_nil, List.flatMap_cons, List.flatMap_nil,
        List.append_nil, tokens, withoutInnerEOFs_tokensOf (decomposition_segmentsOf w)]
    · obtain rfl : c = chr '\n' := by simpa using hr c rfl
      obtain ⟨hsame, hb⟩ := h.split (decomposition_segmentsOf _) (decomposition_segmentsOf w)
        (decomposition_segmentsOf b)
      have hlt : b.length < n := by
        rw [← hn, List.length_append, List.length_cons]
        omega
      have hne : (lines (chr '\n') (b ++ [chr '\n'])).flatMap tokens ≠ [] :=
        flatMap_tokens_ne_nil (lines_ne_nil (by simp))
      rw [List.append_assoc, List.cons_append, lines_append_sep hnot, List.flatMap_cons,
        map_withoutInnerEOFs_append w hne, ih b.length hlt hb rfl, tokens_append_newline hsame,
        List.map_append, printed_shift]

namespace Lox

theorem exists_run (lox : Lox) (source : JString) :
    ∃ lox', lox.run source = .ok lox' ∧ lox'.tokens = lox.tokens ++ Jlox.tokens source := by
  obtain ⟨s, hs, htokens, -⟩ :=
    Scanner.scanTokens_of_segments (decomposition_segmentsOf source)
  simp only [run, hs, bind, Except.bind]
  exact ⟨_, rfl, congrArg (lox.tokens ++ ·) htokens⟩

theorem exists_promptLines (lox : Lox) (ls : List JString) :
    ∃ lox', lox.promptLines ls = .ok lox' ∧
      lox'.tokens = lox.tokens ++ ls.flatMap Jlox.tokens := by
  induction ls generalizing lox with
  | nil => exact ⟨lox, rfl, (List.append_nil _).symm⟩
  | cons line ls ih =>
    obtain ⟨lox₁, hrun, htokens₁⟩ := lox.exists_run line
    obtain ⟨lox₂, hls, htokens₂⟩ := ih { lox₁ with hadError := false }
    refine ⟨lox₂, ?_, ?_⟩
    · simp only [promptLines, hrun, bind, Except.bind, hls]
    · rw [htokens₂, List.flatMap_cons, ← List.append_assoc, ← htokens₁]

end Lox

/-- The tokens and the errors of a scan tell whether a string is open at the end of a line. -/
theorem lineByLine_of_scan {source : JString} {s : Scanner}
    (hs : Scanner.scanTokens source = .ok s)
    (hstring : ∀ t ∈ s.tokens, t.type = .STRING → chr '\n' ∉ t.lexeme)
    (hclosed : ∀ e ∈ s.errors, e.message ≠ "Unterminated string.") :
    LineByLine (segmentsOf source) := by
  obtain ⟨s', hs', htokens, herrors⟩ :=
    Scanner.scanTokens_of_segments (decomposition_segmentsOf source)
  obtain rfl : s = s' := Except.ok.inj (hs.symm.trans hs')
  rintro ⟨kind, lexeme⟩ hp (rfl | ⟨rfl, hnewline⟩)
  · obtain ⟨e, he, hmessage⟩ := unterminated_mem_errorsOf 1 hp
    exact hclosed e (herrors ▸ he) hmessage
  · obtain ⟨t, ht, htype, rfl⟩ := string_mem_tokensOf 1 hp
    exact hstring t (htokens ▸ ht) htype hnewline

theorem printed_file_eq_prompt {source : JString} (hreturn : chr '\r' ∉ source)
    (hlines : LineByLine (segmentsOf source)) : ∃ file status prompt,
      Lox.runFile source = .ok (file, status) ∧
      Lox.runPrompt (source ++ [chr '\n']) = .ok prompt ∧
      file.tokens.map Token.printed = (withoutInnerEOFs prompt.tokens).map Token.printed := by
  obtain ⟨file, hfile, hfiletokens⟩ := Lox.exists_run {} source
  obtain ⟨prompt, hprompt, hprompttokens⟩ :=
    Lox.exists_promptLines {} (lines (chr '\n') (source ++ [chr '\n']))
  have hinput : chr '\r' ∉ source ++ [chr '\n'] := by
    rw [List.mem_append, not_or]
    exact ⟨hreturn, by decide⟩
  rw [← readLines_eq_lines hinput] at hprompt
  refine ⟨file, if file.hadError then 65 else 0, prompt, ?_, hprompt, ?_⟩
  · simp only [Lox.runFile, hfile, bind, Except.bind, pure, Except.pure]
  · rw [hfiletokens, hprompttokens]
    exact (printed_lines hlines).symm

/-- A newline between two sources separates their tokens and errors, so a file is printed
as its lines are at the prompt. -/
theorem file_and_prompt_agree :
    (∀ a b sa sb, Scanner.scanTokens a = .ok sa → Scanner.scanTokens b = .ok sb →
      (∀ e ∈ sa.errors, e.message ≠ "Unterminated string.") →
      ∃ s, Scanner.scanTokens (a ++ chr '\n' :: b) = .ok s ∧
        s.tokens = sa.tokens.dropLast ++ sb.tokens.map (Token.shift (a.count (chr '\n') + 1)) ∧
        s.errors = sa.errors ++ sb.errors.map (LoxError.shift (a.count (chr '\n') + 1))) ∧
    ∀ source s, Scanner.scanTokens source = .ok s → chr '\r' ∉ source →
      (∀ t ∈ s.tokens, t.type = .STRING → chr '\n' ∉ t.lexeme) →
      (∀ e ∈ s.errors, e.message ≠ "Unterminated string.") →
      ∃ file status prompt, Lox.runFile source = .ok (file, status) ∧
        Lox.runPrompt (source ++ [chr '\n']) = .ok prompt ∧
        file.tokens.map Token.printed = (withoutInnerEOFs prompt.tokens).map Token.printed :=
  ⟨fun a b _ _ ha hb hclosed => Scanner.scanTokens_append_newline a b ha hb hclosed,
    fun _ _ hs hreturn hstring hclosed =>
      printed_file_eq_prompt hreturn (lineByLine_of_scan hs hstring hclosed)⟩

/-- Two lines, and in the first part a character that is not expected in the second of them. -/
theorem file_and_prompt_agree_two_lines :
    (∃ s, Scanner.scanTokens (str "a\nb#") = .ok s ∧
      s.tokens = [⟨.IDENTIFIER, str "a", .null, 1⟩, ⟨.IDENTIFIER, str "b", .null, 2⟩,
        ⟨.EOF, [], .null, 2⟩] ∧
      s.errors = [⟨2, "Unexpected character."⟩]) ∧
    ∃ file status prompt, Lox.runFile (str "a\nb") = .ok (file, status) ∧
      Lox.runPrompt (str "a\nb\n") = .ok prompt ∧
      file.tokens.map Token.printed = (withoutInnerEOFs prompt.tokens).map Token.printed := by
  have ha : Scanner.scanTokens (str "a") = .ok {
      source := str "a"
      tokens := [⟨.IDENTIFIER, str "a", .null, 1⟩, ⟨.EOF, [], .null, 1⟩]
      start := 0
      current := 1 } := by decide +kernel
  have hb : Scanner.scanTokens (str "b#") = .ok {
      source := str "b#"
      tokens := [⟨.IDENTIFIER, str "b", .null, 1⟩, ⟨.EOF, [], .null, 1⟩]
      start := 1
      current := 2
      errors := [⟨1, "Unexpected character."⟩] } := by decide +kernel
  have hs : Scanner.scanTokens (str "a\nb") = .ok {
      source := str "a\nb"
      tokens := [⟨.IDENTIFIER, str "a", .null, 1⟩, ⟨.IDENTIFIER, str "b", .null, 2⟩,
        ⟨.EOF, [], .null, 2⟩]
      start := 2
      current := 3
      line := 2 } := by decide +kernel
  constructor
  · obtain ⟨s, hscan, htokens, herrors⟩ := file_and_prompt_agree.1 _ _ _ _ ha hb (by decide)
    exact ⟨s, hscan, htokens.trans (by decide), herrors.trans (by decide)⟩
  · exact file_and_prompt_agree.2 _ _ hs (by decide) (by decide) (by decide)

end BuildYourOwnStuff.Jlox
