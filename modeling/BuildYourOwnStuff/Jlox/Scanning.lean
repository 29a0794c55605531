import BuildYourOwnStuff.Jlox.Ahead

/-!
# The scanner implements the grammar

One call of `scanToken` reads the longest segment ahead and reports its token or
error, so `scanTokens` gives the tokens and errors of the decomposition of the
source.
-/

namespace BuildYourOwnStuff.Jlox.Scanner

open JavaStd Foundations

/-- The scanner when it has read a segment. -/
def emit (s : Scanner) (kind : Kind) (lexeme : JString) : Scanner :=
  let s := s.eat lexeme
  { s with
    tokens := s.tokens ++ (kind.token? lexeme s.line).toList
    errors := s.errors ++ (kind.error? s.line).toList }

variable {s : Scanner} {c : JChar} {w r t : JString}

theorem emit_of_none {kind : Kind} (htoken : ∀ line, kind.token? w line = none)
    (herror : ∀ line, kind.error? line = none) : s.emit kind w = s.eat w := by
  simp only [emit, htoken, herror, Option.toList_none, List.append_nil]

theorem isDigit_eq (c : JChar) : isDigit c = decide (Digit c) := by
  rw [isDigit, Bool.eq_iff_iff, Bool.and_eq_true, decide_eq_true_iff, decide_eq_true_iff,
    decide_eq_true_iff]
  rfl

theorem isAlpha_eq (c : JChar) : isAlpha c = decide (Letter c) := by
  rw [Bool.eq_iff_iff, decide_eq_true_iff]
  simp only [isAlpha, Letter, Bool.or_eq_true, Bool.and_eq_true, decide_eq_true_iff, beq_iff_eq,
    or_assoc]

theorem isAlphaNumeric_eq (c : JChar) : isAlphaNumeric c = decide (Letter c ∨ Digit c) := by
  rw [isAlphaNumeric, isAlpha_eq, isDigit_eq, Bool.decide_or]

/-- What is read since the start is the lexeme. -/
theorem substring_lexeme (hstart : s.start = s.current) (hs : s.ahead = w ++ r) (hw : w ≠ []) :
    substring (s.eat w).source (s.eat w).start (s.eat w).current = .ok w := by
  obtain ⟨c, w, rfl⟩ := List.exists_cons_of_ne_nil hw
  rw [source_eat, start_eat, current_eat, hstart]
  exact substring_of_drop hs (current_lt_of_ahead hs).le

/-- `addToken` reports the segment if its kind gives that token and no error. -/
theorem addToken_eq {kind : Kind} {type : TokenType} {literal : Literal}
    (htoken : ∀ line, kind.token? w line = some ⟨type, w, literal, line⟩)
    (herror : ∀ line, kind.error? line = none) (hstart : s.start = s.current)
    (hs : s.ahead = w ++ r) (hw : w ≠ []) :
    (s.eat w).addToken type literal = .ok (s.emit kind w) := by
  rw [addToken, substring_lexeme hstart hs hw]
  simp [emit, htoken, herror, bind, Except.bind, pure, Except.pure]

/-- The scanner when `number` has read the digits and the fraction. -/
def numberEnd (s : Scanner) : Except Exception Scanner := do
  let s ← s.advanceWhile isDigit
  s.fraction

/-- What `number` parses is the text up to there. -/
theorem number_eq_numberEnd (s : Scanner) : s.number = (do
    let s ← s.numberEnd
    let value ← parseDouble (← substring s.source s.start s.current)
    s.addToken .NUMBER (.number value)) :=
  (bind_assoc _ _ _).symm

/-- A character that is no label of the `switch`. -/
theorem switch_default (h : c ∉ whitespaceChars ++ chr '"' :: operators.filterMap (·.1.head?)) :
    s.switch c =
      if isDigit c then s.number
      else if isAlpha c then s.identifier
      else .ok (s.error "Unexpected character.") := by
  simp [whitespaceChars, operators, singles, doubles, str] at h
  simp [switch, h]
  rfl

theorem switch_single : ∀ p ∈ singles, s.switch p.1 = s.addToken p.2 := by
  simp only [singles, List.forall_mem_cons]
  exact ⟨rfl, rfl, rfl, rfl, rfl, rfl, rfl, rfl, rfl, rfl, by simp⟩

theorem switch_double : ∀ p ∈ doubles, s.switch p.1 = s.oneOrTwo p.2.1 p.2.2 := by
  simp only [doubles, List.forall_mem_cons]
  exact ⟨rfl, rfl, rfl, rfl, by simp⟩

/-! Each method on the characters of its segment, after the first one is read. -/

section Methods

variable (hstart : s.start = s.current)

include hstart

theorem addToken_operator {type : TokenType} (hs : s.ahead = w ++ r) (hw : w ≠ []) :
    (s.eat w).addToken type = .ok (s.emit (.operator type) w) := by
  exact addToken_eq (fun _ => rfl) (fun _ => rfl) hstart hs hw

theorem oneOrTwo_two {one two : TokenType} (hs : s.ahead = c :: chr '=' :: r) :
    (s.eat [c]).oneOrTwo one two = .ok (s.emit (.operator two) [c, chr '=']) := by
  have hnext : (s.eat [c]).ahead = chr '=' :: r := ahead_eat (w := [c]) hs
  rw [oneOrTwo, matchNext_eq, hnext, List.head?_cons, if_pos rfl,
    eat_of_ne_newline (c := chr '=') (by decide), eat_eat]
  exact addToken_operator hstart (w := [c, chr '=']) hs (by simp)

theorem oneOrTwo_one {one two : TokenType} (hs : s.ahead = c :: r) (hr : r.head? ≠ some (chr '=')) :
    (s.eat [c]).oneOrTwo one two = .ok (s.emit (.operator one) [c]) := by
  have hnext : (s.eat [c]).ahead = r := ahead_eat (w := [c]) hs
  rw [oneOrTwo, matchNext_eq, hnext, if_neg hr]
  exact addToken_operator hstart (w := [c]) hs (by simp)

theorem slash_operator (hs : s.ahead = chr '/' :: r) (hr : r.head? ≠ some (chr '/')) :
    (s.eat [chr '/']).slash = .ok (s.emit (.operator .SLASH) (str "/")) := by
  have hnext : (s.eat [chr '/']).ahead = r := ahead_eat (w := [chr '/']) hs
  rw [slash, matchNext_eq, hnext, if_neg hr]
  exact addToken_operator hstart (w := [chr '/']) hs (by simp)

omit hstart in
theorem slash_comment (hs : s.ahead = chr '/' :: chr '/' :: w ++ r) (hw : chr '\n' ∉ w)
    (hr : ∀ c ∈ r.head?, c = chr '\n') :
    (s.eat [chr '/']).slash = .ok (s.emit .comment (chr '/' :: chr '/' :: w)) := by
  have hnext : (s.eat [chr '/']).ahead = chr '/' :: (w ++ r) := ahead_eat (w := [chr '/']) hs
  have hbody : (s.eat [chr '/', chr '/']).ahead = w ++ r := ahead_eat (w := [chr '/', chr '/']) hs
  rw [slash, matchNext_eq, hnext, List.head?_cons, if_pos rfl,
    eat_of_ne_newline (c := chr '/') (by decide), eat_eat,
    emit_of_none (fun _ => rfl) (fun _ => rfl)]
  exact (loop_until hbody hw hr fun s c t h hc => advance_body h hc).trans
    (congrArg Except.ok (eat_eat _ w))

theorem identifier_eq (hs : s.ahead = c :: w ++ r) (hw : ∀ d ∈ w, Letter d ∨ Digit d)
    (hr : ∀ d ∈ r.head?, ¬ (Letter d ∨ Digit d)) :
    (s.eat [c]).identifier = .ok (s.emit .word (c :: w)) := by
  have hnext : (s.eat [c]).ahead = w ++ r := ahead_eat (w := [c]) hs
  have hloop : (s.eat [c]).advanceWhile isAlphaNumeric = .ok (s.eat (c :: w)) := by
    rw [advanceWhile_eq rfl rfl hnext, eat_cons]
    · simpa only [isAlphaNumeric_eq, decide_eq_true_iff] using hw
    · simpa only [isAlphaNumeric_eq, decide_eq_true_iff] using hr
  have htext := substring_lexeme hstart hs (List.cons_ne_nil c w)
  rw [identifier, hloop]
  simp only [bind, Except.bind]
  rw [htext]
  exact addToken_eq (fun _ => rfl) (fun _ => rfl) hstart hs (List.cons_ne_nil c w)

omit hstart in
theorem fraction_of_not_digit
    (hpoint : ∀ d frac, s.ahead = chr '.' :: d :: frac → ¬ Digit d) : s.fraction = .ok s := by
  rw [fraction, peek_eq]
  rcases hs : s.ahead with _ | ⟨c, t⟩
  · rfl
  · by_cases hc : c = chr '.'
    · subst hc
      have hnext : isDigit (t.head?.getD (chr '\x00')) = false := by
        rcases t with _ | ⟨d, frac⟩
        · rfl
        · simpa [isDigit_eq] using hpoint d frac hs
      simp [bind, Except.bind, peekNext_eq, hs, hnext, pure, Except.pure]
    · simp [bind, Except.bind, hc, pure, Except.pure]

omit hstart in
theorem fraction_of_digits {d : JChar} {frac : JString}
    (hs : s.ahead = chr '.' :: d :: frac ++ r) (hfrac : ∀ e ∈ d :: frac, Digit e)
    (hr : ∀ e ∈ r.head?, ¬ Digit e) : s.fraction = .ok (s.eat (chr '.' :: d :: frac)) := by
  have hdigit : isDigit d = true := by
    rw [isDigit_eq, decide_eq_true_iff]
    exact hfrac d List.mem_cons_self
  have hnext : (s.eat [chr '.']).ahead = d :: frac ++ r := ahead_eat (w := [chr '.']) hs
  have hloop : (s.eat [chr '.']).advanceWhile isDigit = .ok (s.eat (chr '.' :: d :: frac)) := by
    rw [advanceWhile_eq rfl rfl hnext, eat_cons]
    · simpa only [isDigit_eq, decide_eq_true_iff] using hfrac
    · simpa only [isDigit_eq, decide_eq_true_iff] using hr
  rw [fraction, peek_eq, peekNext_eq, advance_eq hs, eat_of_ne_newline (c := chr '.') (by decide)]
  simp [bind, Except.bind, hs, hdigit, hloop]

omit hstart in
theorem numberEnd_eq {whole : JString} (hs : s.ahead = c :: whole ++ (t ++ r))
    (hwhole : ∀ d ∈ c :: whole, Digit d) (ht : ∀ d ∈ (t ++ r).head?, ¬ Digit d)
    (hfraction : (s.eat (c :: whole)).fraction = .ok ((s.eat (c :: whole)).eat t)) :
    (s.eat [c]).numberEnd = .ok (s.eat (c :: whole ++ t)) := by
  have hnext : (s.eat [c]).ahead = whole ++ (t ++ r) := ahead_eat (w := [c]) hs
  have hloop : (s.eat [c]).advanceWhile isDigit = .ok (s.eat (c :: whole)) := by
    rw [advanceWhile_eq rfl rfl hnext, eat_cons]
    · simpa only [isDigit_eq, decide_eq_true_iff] using (List.forall_mem_cons.mp hwhole).2
    · simpa only [isDigit_eq, decide_eq_true_iff] using ht
  rw [numberEnd, hloop]
  simp only [bind, Except.bind]
  rw [hfraction, eat_eat]

omit hstart in
/-- The longest number ahead is what `number` reads. -/
theorem exists_number (hs : s.ahead = c :: t) (hc : Digit c) :
    ∃ text rest, s.ahead = text ++ rest ∧ IsLongest Segment .number text rest ∧
      (s.eat [c]).numberEnd = .ok (s.eat text) := by
  obtain ⟨w, r, rfl, hw, hr⟩ := exists_boundary Digit t
  have hwhole : ∀ d ∈ c :: w, Digit d := List.forall_mem_cons.mpr ⟨hc, hw⟩
  by_cases hpoint : ∃ d frac, r = chr '.' :: d :: frac ∧ Digit d
  · obtain ⟨d, frac, rfl, hd⟩ := hpoint
    obtain ⟨f, r, rfl, hf, hr'⟩ := exists_boundary Digit frac
    have hfrac : ∀ e ∈ d :: f, Digit e := List.forall_mem_cons.mpr ⟨hd, hf⟩
    refine ⟨c :: w ++ chr '.' :: d :: f, r, by simp [hs], isLongest_fraction hwhole hfrac hr', ?_⟩
    refine numberEnd_eq (t := chr '.' :: d :: f) (r := r) hs hwhole hr ?_
    exact fraction_of_digits (ahead_eat hs) hfrac hr'
  · have hrest : ∀ d frac, r = chr '.' :: d :: frac → ¬ Digit d := fun d frac h hd =>
      hpoint ⟨d, frac, h, hd⟩
    refine ⟨c :: w, r, hs, isLongest_whole hwhole hr hrest, ?_⟩
    rw [← List.append_nil (c :: w)]
    refine numberEnd_eq (t := []) (r := r) hs hwhole hr ?_
    apply fraction_of_not_digit
    rw [ahead_eat hs]
    exact hrest

omit hstart in
theorem stringChar_eq (hs : s.ahead = c :: t) : s.stringChar = .ok (s.eat [c]) := by
  rw [stringChar, peek_eq, hs]
  by_cases hc : c = chr '\n'
  · subst hc
    have hs' : ({ s with line := s.line + 1 } : Scanner).ahead = chr '\n' :: t := hs
    simp [bind, Except.bind, pure, Except.pure, advance_eq hs', eat]
  · have hne : (c == chr '\n') = false := beq_eq_false_iff_ne.mpr hc
    simp [bind, Except.bind, pure, Except.pure, hne, advance_eq hs, eat_of_ne_newline hc]

theorem string_eq (hs : s.ahead = chr '"' :: w ++ chr '"' :: r) (hw : chr '"' ∉ w) :
    (s.eat [chr '"']).string = .ok (s.emit .string (chr '"' :: w ++ [chr '"'])) := by
  have hnext : (s.eat [chr '"']).ahead = w ++ chr '"' :: r := ahead_eat (w := [chr '"']) hs
  have hlast : (s.eat (chr '"' :: w)).ahead = chr '"' :: r := ahead_eat hs
  have hwhole : s.ahead = (chr '"' :: w ++ [chr '"']) ++ r := by
    rw [hs]
    simp
  have hvalue : substring (s.eat (chr '"' :: w ++ [chr '"'])).source (s.start + 1)
      ((s.eat (chr '"' :: w ++ [chr '"'])).current - 1) = .ok w := by
    have hcurrent : (s.eat (chr '"' :: w ++ [chr '"'])).current - 1 =
        (s.eat [chr '"']).current + w.length := by
      simp
      omega
    rw [hcurrent, source_eat, hstart]
    exact substring_of_drop hnext (current_lt_of_ahead hs)
  rw [string, loop_until hnext hw (by simp) fun s c t h _ => stringChar_eq h, eat_cons]
  simp only [bind, Except.bind]
  rw [if_neg (by simp [isAtEnd_eq, hlast]), advance_eq hlast,
    eat_of_ne_newline (c := chr '"') (by decide), eat_eat]
  simp only [start_eat, hvalue]
  exact addToken_eq (fun _ => by simp [Kind.token?]) (fun _ => rfl) hstart hwhole (by simp)

omit hstart in
theorem string_unterminated (hs : s.ahead = chr '"' :: w) (hw : chr '"' ∉ w) :
    (s.eat [chr '"']).string = .ok (s.emit .unterminated (chr '"' :: w)) := by
  have hnext : (s.eat [chr '"']).ahead = w ++ [] := ahead_eat (w := [chr '"']) (by simpa using hs)
  have hlast : (s.eat (chr '"' :: w)).ahead = [] := ahead_eat (by simpa using hs)
  rw [string, loop_until hnext hw (by simp) fun s c t h _ => stringChar_eq h, eat_cons]
  simp only [bind, Except.bind]
  rw [if_pos (by simp [isAtEnd_eq, hlast])]
  simp [emit, Kind.token?, Kind.error?, error, pure, Except.pure]

end Methods

theorem scanToken_eq (hs : s.ahead = c :: t) (hc : c ≠ chr '\n') :
    s.scanToken = (s.eat [c]).switch c := by
  rw [scanToken, advance_eq hs, eat_of_ne_newline hc]
  rfl

theorem scanToken_whitespace (hs : s.ahead = c :: t) (hc : c ∈ whitespaceChars) :
    s.scanToken = .ok (s.emit .whitespace [c]) := by
  rw [emit_of_none (fun _ => rfl) (fun _ => rfl)]
  simp only [whitespaceChars, List.mem_cons, List.not_mem_nil, or_false] at hc
  rcases hc with rfl | rfl | rfl | rfl
  · exact scanToken_eq hs (by decide)
  · exact scanToken_eq hs (by decide)
  · exact scanToken_eq hs (by decide)
  · rw [scanToken, advance_eq hs]
    rfl

/-- The scanner reads the longest segment ahead, and reports its token or error. -/
def ScansLongest (s : Scanner) : Prop :=
  ∃ kind lexeme rest, s.ahead = lexeme ++ rest ∧ IsLongest Segment kind lexeme rest ∧
    s.scanToken = .ok (s.emit kind lexeme)

section Step

variable (hstart : s.start = s.current)

include hstart

theorem scansLongest_quote (hs : s.ahead = chr '"' :: t) : s.ScansLongest := by
  have hswitch := scanToken_eq hs (by decide)
  by_cases hquote : chr '"' ∈ t
  · obtain ⟨w, r, rfl, hw⟩ := List.eq_append_cons_of_mem hquote
    refine ⟨.string, chr '"' :: w ++ [chr '"'], r, by simp [hs], isLongest_string hw, ?_⟩
    exact hswitch.trans (string_eq hstart hs hw)
  · refine ⟨.unterminated, chr '"' :: t, [], by simp [hs], isLongest_unterminated hquote, ?_⟩
    exact hswitch.trans (string_unterminated hs hquote)

theorem scansLongest_slash (hs : s.ahead = chr '/' :: t) : s.ScansLongest := by
  have hswitch := scanToken_eq hs (by decide)
  by_cases hslash : t.head? = some (chr '/')
  · obtain ⟨t, rfl⟩ := List.head?_eq_some_iff.mp hslash
    obtain ⟨w, r, rfl, hw, hr⟩ := exists_boundary (fun c => c ≠ chr '\n') t
    have hbody : chr '\n' ∉ w := fun hmem => hw _ hmem rfl
    have hrest : ∀ c ∈ r.head?, c = chr '\n' := fun c hc => not_not.mp (hr c hc)
    refine ⟨.comment, chr '/' :: chr '/' :: w, r, hs, isLongest_comment hbody hrest, ?_⟩
    exact hswitch.trans (slash_comment hs hbody hrest)
  · refine ⟨.operator .SLASH, str "/", t, hs, isLongest_slash hslash, ?_⟩
    exact hswitch.trans (slash_operator hstart hs hslash)

theorem scansLongest_operator (hs : s.ahead = c :: t)
    (hc : c ∈ operators.filterMap (·.1.head?)) : s.ScansLongest := by
  have hcases : ∀ c ∈ operators.filterMap (·.1.head?),
      c ≠ chr '\n' ∧ (c = chr '/' ∨ c ∈ singles.map Prod.fst ∨ c ∈ doubles.map Prod.fst) := by
    decide
  obtain ⟨hnewline, rfl | hsingle | hdouble⟩ := hcases c hc
  · exact scansLongest_slash hstart hs
  · obtain ⟨⟨_, type⟩, hmem, rfl⟩ := List.mem_map.mp hsingle
    refine ⟨.operator type, [_], t, hs, isLongest_single hmem, ?_⟩
    rw [scanToken_eq hs hnewline, switch_single _ hmem]
    exact addToken_operator hstart (w := [_]) hs (List.cons_ne_nil _ _)
  · obtain ⟨⟨_, one, two⟩, hmem, rfl⟩ := List.mem_map.mp hdouble
    have hswitch := (scanToken_eq hs hnewline).trans (switch_double _ hmem)
    by_cases hequal : t.head? = some (chr '=')
    · obtain ⟨t, rfl⟩ := List.head?_eq_some_iff.mp hequal
      refine ⟨.operator two, [_, chr '='], t, hs, (isLongest_double hmem).1, ?_⟩
      exact hswitch.trans (oneOrTwo_two hstart hs)
    · refine ⟨.operator one, [_], t, hs, (isLongest_double hmem).2 hequal, ?_⟩
      exact hswitch.trans (oneOrTwo_one hstart hs hequal)

theorem scansLongest_digit (hs : s.ahead = c :: t) (hc : Digit c)
    (hnumber : s.scanToken = (s.eat [c]).number) : s.ScansLongest := by
  obtain ⟨text, rest, hsplit, hlongest, hend⟩ := exists_number hs hc
  have hne := hlongest.segment.ne_nil
  refine ⟨.number, text, rest, hsplit, hlongest, ?_⟩
  rw [hnumber, number_eq_numberEnd, hend]
  simp only [bind, Except.bind, substring_lexeme hstart hsplit hne,
    parseDouble_of_isDecimal (isDecimal_of_number hlongest.segment)]
  exact addToken_eq (fun _ => rfl) (fun _ => rfl) hstart hsplit hne

theorem scansLongest_letter (hs : s.ahead = c :: t) (hc : Letter c)
    (hword : s.scanToken = (s.eat [c]).identifier) : s.ScansLongest := by
  obtain ⟨w, r, rfl, hw, hr⟩ := exists_boundary (fun d => Letter d ∨ Digit d) t
  refine ⟨.word, c :: w, r, hs, isLongest_word hc hw hr, ?_⟩
  rw [hword]
  exact identifier_eq hstart hs hw hr

/-- One call of `scanToken`. -/
theorem scanToken_longest (hne : s.ahead ≠ []) : s.ScansLongest := by
  obtain ⟨c, t, hs⟩ := List.exists_cons_of_ne_nil hne
  by_cases hwhitespace : c ∈ whitespaceChars
  · exact ⟨.whitespace, [c], t, hs, isLongest_whitespace hwhitespace,
      scanToken_whitespace hs hwhitespace⟩
  by_cases hquote : c = chr '"'
  · subst hquote
    exact scansLongest_quote hstart hs
  by_cases hoperator : c ∈ operators.filterMap (·.1.head?)
  · exact scansLongest_operator hstart hs hoperator
  -- the remaining characters are no labels
  have hnewline : c ≠ chr '\n' := by
    rintro rfl
    exact hwhitespace (by decide)
  have hlabel : c ∉ whitespaceChars ++ chr '"' :: operators.filterMap (·.1.head?) := by
    simp [hwhitespace, hquote, hoperator]
  have hswitch := (scanToken_eq hs hnewline).trans (switch_default hlabel)
  rw [isDigit_eq, isAlpha_eq] at hswitch
  by_cases hdigit : Digit c
  · exact scansLongest_digit hstart hs hdigit (by simpa [hdigit] using hswitch)
  by_cases hletter : Letter c
  · exact scansLongest_letter hstart hs hletter (by simpa [hdigit, hletter] using hswitch)
  · have hunexpected : ¬ Expected c := by
      simp [Expected, hwhitespace, hquote, hoperator, hdigit, hletter]
    refine ⟨.unexpected, [c], t, hs, isLongest_unexpected hunexpected, ?_⟩
    rw [hswitch]
    simp [hdigit, hletter, emit, Kind.token?, Kind.error?, error, eat]

end Step

/-- The scanner when it has read segments. -/
def emitAll (s : Scanner) (segments : List (Kind × JString)) : Scanner :=
  segments.foldl (fun s segment => { s with start := s.current }.emit segment.1 segment.2) s

theorem tokens_emitAll (s : Scanner) (segments : List (Kind × JString)) :
    (s.emitAll segments).tokens ++ [⟨.EOF, [], .null, (s.emitAll segments).line⟩] =
      s.tokens ++ tokensOf s.line segments := by
  induction segments generalizing s with
  | nil => rfl
  | cons segment segments ih =>
    rw [emitAll, List.foldl_cons, ← emitAll, ih, tokensOf, ← List.append_assoc]
    rfl

theorem errors_emitAll (s : Scanner) (segments : List (Kind × JString)) :
    (s.emitAll segments).errors = s.errors ++ errorsOf s.line segments := by
  induction segments generalizing s with
  | nil => exact (List.append_nil _).symm
  | cons segment segments ih =>
    rw [emitAll, List.foldl_cons, ← emitAll, ih, errorsOf, ← List.append_assoc]
    rfl

/-- The loop of `scanTokens` reads the segments of what is ahead. -/
theorem loop_decomposition {text : JString} {segments : List (Kind × JString)}
    (h : Decomposition Segment text segments) (hs : s.ahead = text) {turns : ℕ}
    (hturns : text.length ≤ turns) :
    whileLoop (fun s => return !s.isAtEnd) (fun s => { s with start := s.current }.scanToken)
      .unended turns s = .ok (s.emitAll segments) := by
  induction h generalizing s turns with
  | nil =>
    apply whileLoop_done
    rw [isAtEnd_eq, hs]
    rfl
  | @cons kind lexeme rest segments first _ ih =>
    have hpos := List.length_pos_iff.mpr first.segment.ne_nil
    rw [List.length_append] at hturns
    obtain ⟨turns, rfl⟩ : ∃ n, turns = n + 1 := ⟨turns - 1, by omega⟩
    have hne : s.ahead ≠ [] := by
      rw [hs]
      exact List.append_ne_nil_of_left_ne_nil first.segment.ne_nil rest
    obtain ⟨kind', lexeme', rest', hsplit, hlongest, hscan⟩ :=
      scanToken_longest (s := { s with start := s.current }) rfl hne
    obtain ⟨rfl, rfl, rfl⟩ := first.unique (fun _ _ _ _ h h' => h.kind_unique h') hlongest
      (hs.symm.trans hsplit)
    have hnext : ({ s with start := s.current }.emit kind lexeme).ahead = rest := ahead_eat hs
    refine Eq.trans (whileLoop_turn ?_ ?_ turns) (ih hnext ?_)
    · rw [isAtEnd_eq, List.isEmpty_eq_false_iff.mpr hne]
      rfl
    · exact hscan
    · omega

theorem exists_segments (source : JString) : ∃ segments, Decomposition Segment source segments := by
  refine exists_decomposition (fun _ _ _ h => h.ne_nil) (fun text htext => ?_) source
  obtain ⟨kind, lexeme, rest, hsplit, hlongest, -⟩ :=
    scanToken_longest (s := { source := text }) rfl htext
  exact ⟨kind, lexeme, rest, hsplit, hlongest⟩

theorem segments_unique {source : JString} {segments segments' : List (Kind × JString)}
    (h : Decomposition Segment source segments) (h' : Decomposition Segment source segments') :
    segments = segments' :=
  h.unique (fun _ _ _ h => h.ne_nil) (fun _ _ _ _ h h' => h.kind_unique h') h'

theorem scanTokens_of_segments {source : JString} {segments : List (Kind × JString)}
    (h : Decomposition Segment source segments) : ∃ s, scanTokens source = .ok s ∧
      s.tokens = tokensOf 1 segments ∧ s.errors = errorsOf 1 segments := by
  have hloop := loop_decomposition (s := { source }) h rfl le_rfl
  rw [scanTokens, loop, hloop]
  exact ⟨_, rfl, tokens_emitAll { source } segments, errors_emitAll { source } segments⟩

/-- Every source has one decomposition into longest segments, and `scanTokens` returns
with its tokens and has reported its errors. -/
theorem scanTokens_decomposition (source : JString) :
    (∃! segments, Decomposition Segment source segments) ∧
      ∀ segments, Decomposition Segment source segments → ∃ s, scanTokens source = .ok s ∧
        s.tokens = tokensOf 1 segments ∧ s.errors = errorsOf 1 segments := by
  obtain ⟨segments, h⟩ := exists_segments source
  exact ⟨⟨segments, h, fun _ h' => segments_unique h' h⟩, fun _ => scanTokens_of_segments⟩

-- a point that no digit follows is not part of the number
example : (scanTokens (str "1.x")).toOption.map (fun s => s.tokens.map Token.lexeme) =
    some [str "1", str ".", str "x", []] := by decide +kernel

end BuildYourOwnStuff.Jlox.Scanner
