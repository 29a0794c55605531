import BuildYourOwnStuff.Foundations.LongestMatch
import BuildYourOwnStuff.Jlox.Scanner

/-!
# The lexical grammar

The segments that a Lox source is made of, which of them give a token or an error,
and for each kind a condition under which a segment is the longest one.
-/

namespace BuildYourOwnStuff.Jlox

open JavaStd Foundations

inductive Kind
  | whitespace
  | comment
  | operator (type : TokenType)
  | string
  | number
  | word
  | unterminated
  | unexpected
  deriving DecidableEq, Repr

def whitespaceChars : List JChar := [chr ' ', chr '\r', chr '\t', chr '\n']

/-- Operators of one character that is the start of no other segment. -/
def singles : List (JChar × TokenType) :=
  [(chr '(', .LEFT_PAREN), (chr ')', .RIGHT_PAREN), (chr '{', .LEFT_BRACE),
    (chr '}', .RIGHT_BRACE), (chr ',', .COMMA), (chr '.', .DOT), (chr '-', .MINUS),
    (chr '+', .PLUS), (chr ';', .SEMICOLON), (chr '*', .STAR)]

/-- Characters that are an operator alone and one with an equals sign. -/
def doubles : List (JChar × TokenType × TokenType) :=
  [(chr '!', .BANG, .BANG_EQUAL), (chr '=', .EQUAL, .EQUAL_EQUAL), (chr '<', .LESS, .LESS_EQUAL),
    (chr '>', .GREATER, .GREATER_EQUAL)]

def operators : List (JString × TokenType) :=
  (str "/", .SLASH) :: singles.map (fun (c, type) => ([c], type)) ++
    doubles.flatMap fun (c, one, two) => [([c], one), ([c, chr '='], two)]

def Letter (c : JChar) : Prop :=
  (chr 'A' ≤ c ∧ c ≤ chr 'Z') ∨ (chr 'a' ≤ c ∧ c ≤ chr 'z') ∨ c = chr '_'

instance (c : JChar) : Decidable (Letter c) := inferInstanceAs (Decidable (_ ∨ _))

/-- Some segment other than an unexpected character starts with it. -/
def Expected (c : JChar) : Prop :=
  c ∈ whitespaceChars ∨ c = chr '"' ∨ Digit c ∨ Letter c ∨ c ∈ operators.filterMap (·.1.head?)

instance (c : JChar) : Decidable (Expected c) := inferInstanceAs (Decidable (_ ∨ _))

/-- The lexeme is a segment of the kind when `rest` comes after it. -/
def Segment (kind : Kind) (lexeme rest : JString) : Prop :=
  match kind with
  | .whitespace => ∃ c ∈ whitespaceChars, lexeme = [c]
  | .comment => ∃ body, lexeme = chr '/' :: chr '/' :: body ∧ chr '\n' ∉ body ∧
      ∀ c ∈ rest.head?, c = chr '\n'
  | .operator type => (lexeme, type) ∈ operators
  | .string => ∃ body, lexeme = chr '"' :: body ++ [chr '"'] ∧ chr '"' ∉ body
  | .number => ∃ c whole, (∀ d ∈ c :: whole, Digit d) ∧ (lexeme = c :: whole ∨
      ∃ d frac, (∀ e ∈ d :: frac, Digit e) ∧ lexeme = c :: whole ++ chr '.' :: d :: frac)
  | .word => ∃ c body, lexeme = c :: body ∧ Letter c ∧ ∀ d ∈ body, Letter d ∨ Digit d
  | .unterminated => ∃ body, lexeme = chr '"' :: body ∧ chr '"' ∉ body ∧ rest = []
  | .unexpected => ∃ c, lexeme = [c] ∧ ¬ Expected c

/-- The token of a segment that ends in the line. -/
def Kind.token? (kind : Kind) (lexeme : JString) (line : ℕ) : Option Token :=
  match kind with
  | .operator type => some ⟨type, lexeme, .null, line⟩
  | .string => some ⟨.STRING, lexeme, .string lexeme.tail.dropLast, line⟩
  | .number => some ⟨.NUMBER, lexeme, .number (decimal lexeme), line⟩
  | .word => some ⟨(keywords.lookup lexeme).getD .IDENTIFIER, lexeme, .null, line⟩
  | .whitespace | .comment | .unterminated | .unexpected => none

/-- The error of a segment that ends in the line. -/
def Kind.error? (kind : Kind) (line : ℕ) : Option LoxError :=
  match kind with
  | .unterminated => some ⟨line, "Unterminated string."⟩
  | .unexpected => some ⟨line, "Unexpected character."⟩
  | .whitespace | .comment | .operator _ | .string | .number | .word => none

/-- The tokens of segments that start in the line, with the one for the end. -/
def tokensOf (line : ℕ) : List (Kind × JString) → List Token
  | [] => [⟨.EOF, [], .null, line⟩]
  | (kind, lexeme) :: segments =>
    let line := line + lexeme.count (chr '\n')
    (kind.token? lexeme line).toList ++ tokensOf line segments

/-- The errors of segments that start in the line. -/
def errorsOf (line : ℕ) : List (Kind × JString) → List LoxError
  | [] => []
  | (kind, lexeme) :: segments =>
    let line := line + lexeme.count (chr '\n')
    (kind.error? line).toList ++ errorsOf line segments

/-! The first character tells the kinds apart, up to the two pairs that share one. -/

/-- What a first character is the start of. -/
inductive Start
  | blank | quote | digit | letter | sign | other
  deriving DecidableEq

def Kind.start : Kind → Start
  | .whitespace => .blank
  | .comment | .operator _ => .sign
  | .string | .unterminated => .quote
  | .number => .digit
  | .word => .letter
  | .unexpected => .other

def startOf (c : JChar) : Start :=
  if c ∈ whitespaceChars then .blank
  else if c = chr '"' then .quote
  else if c ∈ operators.filterMap (·.1.head?) then .sign
  else if Digit c then .digit
  else if Letter c then .letter
  else .other

theorem operators_unique : ∀ p ∈ operators, ∀ q ∈ operators, p.1 = q.1 → p = q := by decide

theorem operators_start : ∀ p ∈ operators,
    p.1.head?.map startOf = some .sign ∧ p.1.length ≤ 2 ∧ p.1.take 2 ≠ str "//" := by decide

theorem not_digit_of_letter {c : JChar} (h : Letter c) : ¬ Digit c := by
  intro hdigit
  rcases h with ⟨h, -⟩ | ⟨h, -⟩ | rfl
  · exact absurd (JChar.le_trans h hdigit.2) (by decide)
  · exact absurd (JChar.le_trans h hdigit.2) (by decide)
  · exact absurd hdigit (by decide)

theorem startOf_digit {c : JChar} (h : Digit c) : startOf c = .digit := by
  have hother : ∀ d ∈ whitespaceChars ++ chr '"' :: operators.filterMap (·.1.head?),
      ¬ Digit d := by decide
  have hc := mt (hother c) (not_not_intro h)
  rw [List.mem_append, List.mem_cons, not_or, not_or] at hc
  rw [startOf, if_neg hc.1, if_neg hc.2.1, if_neg hc.2.2, if_pos h]

theorem startOf_letter {c : JChar} (h : Letter c) : startOf c = .letter := by
  have hother : ∀ d ∈ whitespaceChars ++ chr '"' :: operators.filterMap (·.1.head?),
      ¬ Letter d := by decide
  have hc := mt (hother c) (not_not_intro h)
  rw [List.mem_append, List.mem_cons, not_or, not_or] at hc
  rw [startOf, if_neg hc.1, if_neg hc.2.1, if_neg hc.2.2, if_neg (not_digit_of_letter h), if_pos h]

theorem startOf_of_not_expected {c : JChar} (h : ¬ Expected c) : startOf c = .other := by
  simp only [Expected, not_or] at h
  rw [startOf, if_neg h.1, if_neg h.2.1, if_neg h.2.2.2.2, if_neg h.2.2.1, if_neg h.2.2.2.1]

variable {kind kind' : Kind} {lexeme rest : JString}

theorem Segment.start (h : Segment kind lexeme rest) :
    ∃ c body, lexeme = c :: body ∧ startOf c = kind.start := by
  cases kind with
  | whitespace =>
    obtain ⟨c, hc, rfl⟩ := h
    exact ⟨c, [], rfl, if_pos hc⟩
  | comment =>
    obtain ⟨body, rfl, -⟩ := h
    exact ⟨_, _, rfl, by decide⟩
  | operator type =>
    have hhead := (operators_start _ h).1
    obtain ⟨c, hc, hstart⟩ := Option.map_eq_some_iff.mp hhead
    obtain ⟨body, rfl⟩ := List.head?_eq_some_iff.mp hc
    exact ⟨c, body, rfl, hstart⟩
  | string =>
    obtain ⟨body, rfl, -⟩ := h
    exact ⟨_, _, rfl, by decide⟩
  | number =>
    obtain ⟨c, whole, hdigits, rfl | ⟨d, frac, -, rfl⟩⟩ := h
    · exact ⟨c, _, rfl, startOf_digit (hdigits c List.mem_cons_self)⟩
    · exact ⟨c, _, rfl, startOf_digit (hdigits c List.mem_cons_self)⟩
  | word =>
    obtain ⟨c, body, rfl, hc, -⟩ := h
    exact ⟨c, body, rfl, startOf_letter hc⟩
  | unterminated =>
    obtain ⟨body, rfl, -⟩ := h
    exact ⟨_, _, rfl, by decide⟩
  | unexpected =>
    obtain ⟨c, rfl, hc⟩ := h
    exact ⟨c, [], rfl, startOf_of_not_expected hc⟩

theorem Segment.ne_nil (h : Segment kind lexeme rest) : lexeme ≠ [] := by
  obtain ⟨c, body, rfl, -⟩ := h.start
  exact List.cons_ne_nil c body

/-- Segments at one place start alike. -/
theorem Segment.start_eq {lexeme' rest' : JString} (h : Segment kind lexeme rest)
    (h' : Segment kind' lexeme' rest') (htext : lexeme' ++ rest' = lexeme ++ rest) :
    kind'.start = kind.start := by
  obtain ⟨c, body, rfl, hc⟩ := h.start
  obtain ⟨c', body', rfl, hc'⟩ := h'.start
  obtain rfl : c' = c := (List.cons.inj htext).1
  rw [← hc, hc']

/-- A segment has one kind. -/
theorem Segment.kind_unique (h : Segment kind lexeme rest) (h' : Segment kind' lexeme rest) :
    kind = kind' := by
  have hstart := h'.start_eq h rfl
  have hcomment : ∀ type, Segment .comment lexeme rest →
      ¬ Segment (.operator type) lexeme rest := by
    rintro type ⟨body, rfl, -⟩ hoperator
    exact (operators_start _ hoperator).2.2 rfl
  have hquote : Segment .string lexeme rest → ¬ Segment .unterminated lexeme rest := by
    rintro ⟨body, rfl, -⟩ ⟨body', hbody, hnot, -⟩
    apply hnot
    rw [← (List.cons.inj hbody).2]
    exact List.mem_append_right _ List.mem_cons_self
  cases kind <;> cases kind' <;> try first | rfl | cases hstart
  · exact absurd h' (hcomment _ h)
  · exact absurd h (hcomment _ h')
  · rw [(Prod.mk.inj (operators_unique _ h _ h' rfl)).2]
  · exact absurd h' (hquote h)
  · exact absurd h (hquote h')

theorem not_digit_point : ¬ Digit (chr '.') := by decide

/-- The texts of numbers can be parsed. -/
theorem isDecimal_of_number (h : Segment .number lexeme rest) : IsDecimal lexeme := by
  have hcount : ∀ {w : JString}, (∀ d ∈ w, Digit d) → w.count (chr '.') = 0 := fun hw =>
    List.count_eq_zero.mpr fun hmem => not_digit_point (hw _ hmem)
  obtain ⟨c, whole, hwhole, rfl | ⟨d, frac, hfrac, rfl⟩⟩ := h
  · exact ⟨fun e he => .inl (hwhole e he), (hcount hwhole).trans_le zero_le_one,
      c, List.mem_cons_self, hwhole c List.mem_cons_self⟩
  · refine ⟨fun e he => ?_, ?_, c, List.mem_cons_self, hwhole c List.mem_cons_self⟩
    · rcases List.mem_append.mp he with he | he
      · exact .inl (hwhole e he)
      · rcases List.mem_cons.mp he with rfl | he
        · exact .inr rfl
        · exact .inl (hfrac e he)
    · rw [List.count_append, hcount hwhole, List.count_cons_self, hcount hfrac]

/-! A segment is the longest one if the next character does not go on with it. -/

theorem isLongest_of_start (h : Segment kind lexeme rest)
    (hlongest : ∀ kind' lexeme' rest', lexeme' ++ rest' = lexeme ++ rest →
      Segment kind' lexeme' rest' → kind'.start = kind.start → lexeme'.length ≤ lexeme.length) :
    IsLongest Segment kind lexeme rest :=
  ⟨h, fun kind' lexeme' rest' htext h' =>
    hlongest kind' lexeme' rest' htext h' (h.start_eq h' htext)⟩

theorem isLongest_whitespace {c : JChar} (hc : c ∈ whitespaceChars) :
    IsLongest Segment .whitespace [c] rest := by
  refine isLongest_of_start ⟨c, hc, rfl⟩ fun kind' lexeme' rest' _ h' hstart => ?_
  cases kind' <;> try cases hstart
  obtain ⟨d, -, rfl⟩ := h'
  exact le_rfl

theorem isLongest_unexpected {c : JChar} (hc : ¬ Expected c) :
    IsLongest Segment .unexpected [c] rest := by
  refine isLongest_of_start ⟨c, rfl, hc⟩ fun kind' lexeme' rest' _ h' hstart => ?_
  cases kind' <;> try cases hstart
  obtain ⟨d, rfl, -⟩ := h'
  exact le_rfl

theorem isLongest_comment {body : JString} (hbody : chr '\n' ∉ body)
    (hrest : ∀ c ∈ rest.head?, c = chr '\n') :
    IsLongest Segment .comment (chr '/' :: chr '/' :: body) rest := by
  refine isLongest_of_start ⟨body, rfl, hbody, hrest⟩ fun kind' lexeme' rest' htext h' hstart => ?_
  cases kind' <;> try cases hstart
  · obtain ⟨body', rfl, hbody', -⟩ := h'
    simp only [List.cons_append, List.cons.injEq, true_and] at htext
    simp only [List.length_cons, Nat.add_le_add_iff_right]
    refine length_le_of_boundary (p := fun c => c ≠ chr '\n') htext ?_ ?_
    · rintro c hc rfl
      exact hbody' hc
    · exact fun c hc hne => hne (hrest c hc)
  · exact ((operators_start _ h').2.1).trans (by simp)

theorem isLongest_operator {type : TokenType} (h : (lexeme, type) ∈ operators)
    (hlonger : ∀ c ∈ rest.head?, lexeme ++ [c] ∉ str "//" :: operators.map Prod.fst) :
    IsLongest Segment (.operator type) lexeme rest := by
  have hsegment : Segment (.operator type) lexeme rest := h
  refine isLongest_of_start hsegment fun kind' lexeme' rest' htext h' hstart => ?_
  by_contra hlt
  rcases List.append_eq_append_iff.mp htext with ⟨t, rfl, -⟩ | ⟨t, rfl, ht⟩
  · rw [List.length_append] at hlt
    omega
  rcases t with _ | ⟨c, t⟩
  · rw [List.append_nil] at hlt
    exact hlt le_rfl
  have hc : c ∈ rest.head? := by
    rw [ht]
    rfl
  apply hlonger c hc
  have hpos := List.length_pos_iff.mpr hsegment.ne_nil
  cases kind' <;> try cases hstart
  · -- an operator is no start of a comment, so the lexeme is one slash
    obtain ⟨body, hbody, -⟩ := h'
    have htwo := congrArg (List.take 2) hbody
    have hone : lexeme.length = 1 := by
      by_contra hne
      have hle := (operators_start _ h).2.1
      rw [List.take_append_of_le_length (by omega)] at htwo
      exact (operators_start _ h).2.2 htwo
    obtain ⟨d, rfl⟩ := List.length_eq_one_iff.mp hone
    rw [show [d] ++ [c] = str "//" from htwo]
    exact List.mem_cons_self
  · have hle := (operators_start _ h').2.1
    rw [List.length_append, List.length_cons] at hle
    obtain rfl : t = [] := List.length_eq_zero_iff.mp (by omega)
    exact List.mem_cons_of_mem _ (List.mem_map_of_mem h')

theorem isLongest_single {c : JChar} {type : TokenType} (h : (c, type) ∈ singles) :
    IsLongest Segment (.operator type) [c] rest := by
  have hsigns : ∀ p ∈ singles, ([p.1], p.2) ∈ operators ∧
      ∀ q ∈ str "//" :: operators.map Prod.fst, q.length = 2 → q.head? ≠ some p.1 := by decide
  obtain ⟨hmem, hlonger⟩ := hsigns _ h
  exact isLongest_operator hmem fun d _ hd => hlonger _ hd rfl rfl

theorem isLongest_double {c : JChar} {one two : TokenType} (h : (c, one, two) ∈ doubles) :
    IsLongest Segment (.operator two) [c, chr '='] rest ∧
      (rest.head? ≠ some (chr '=') → IsLongest Segment (.operator one) [c] rest) := by
  have hsigns : ∀ p ∈ doubles, ([p.1, chr '='], p.2.2) ∈ operators ∧ ([p.1], p.2.1) ∈ operators ∧
      ∀ q ∈ str "//" :: operators.map Prod.fst, q.length ≤ 2 ∧
        (q.head? = some p.1 → q.tail ⊆ [chr '=']) := by decide
  obtain ⟨htwo, hone, hlonger⟩ := hsigns _ h
  refine ⟨isLongest_operator htwo fun d _ hd => ?_, fun hrest => isLongest_operator hone
    fun d hd hmem => ?_⟩
  · exact absurd (hlonger _ hd).1 (by simp)
  · apply hrest
    have hlast := (hlonger _ hmem).2 rfl (List.mem_cons_self : d ∈ [d])
    rw [← List.mem_singleton.mp hlast]
    exact hd

theorem isLongest_slash (h : rest.head? ≠ some (chr '/')) :
    IsLongest Segment (.operator .SLASH) (str "/") rest := by
  have hsigns : ∀ q ∈ str "//" :: operators.map Prod.fst,
      q.head? = some (chr '/') → q.tail ⊆ [chr '/'] := by decide
  refine isLongest_operator List.mem_cons_self fun d hd hmem => h ?_
  have hlast := hsigns _ hmem rfl (List.mem_cons_self : d ∈ [d])
  rw [← List.mem_singleton.mp hlast]
  exact hd

theorem isLongest_string {body : JString} (hbody : chr '"' ∉ body) :
    IsLongest Segment .string (chr '"' :: body ++ [chr '"']) rest := by
  refine isLongest_of_start ⟨body, rfl, hbody⟩ fun kind' lexeme' rest' htext h' hstart => ?_
  cases kind' <;> try cases hstart
  · obtain ⟨body', rfl, hbody'⟩ := h'
    have hquotes : body' ++ (chr '"' :: rest') = body ++ (chr '"' :: rest) := by simpa using htext
    obtain ⟨rfl, -⟩ := append_inj_of_boundary (p := fun c => c ≠ chr '"') hquotes
      (fun c hc => ne_of_mem_of_not_mem hc hbody) (fun c hc => ne_of_mem_of_not_mem hc hbody')
      (by simp) (by simp)
    exact le_rfl
  · obtain ⟨body', rfl, hbody', rfl⟩ := h'
    have hquotes : body' = body ++ (chr '"' :: rest) := by simpa using htext
    rw [hquotes] at hbody'
    simp at hbody'

theorem isLongest_unterminated {body : JString} (hbody : chr '"' ∉ body) :
    IsLongest Segment .unterminated (chr '"' :: body) [] := by
  refine isLongest_of_start ⟨body, rfl, hbody, rfl⟩ fun kind' lexeme' rest' htext _ _ => ?_
  rw [List.append_nil] at htext
  rw [← htext, List.length_append]
  omega

theorem isLongest_word {c : JChar} {body : JString} (hc : Letter c)
    (hbody : ∀ d ∈ body, Letter d ∨ Digit d) (hrest : ∀ d ∈ rest.head?, ¬ (Letter d ∨ Digit d)) :
    IsLongest Segment .word (c :: body) rest := by
  refine isLongest_of_start ⟨c, body, rfl, hc, hbody⟩ fun kind' lexeme' rest' htext h' hstart => ?_
  cases kind' <;> try cases hstart
  obtain ⟨c', body', rfl, hc', hbody'⟩ := h'
  have hall : ∀ d ∈ c' :: body', Letter d ∨ Digit d := List.forall_mem_cons.mpr ⟨.inl hc', hbody'⟩
  exact length_le_of_boundary htext hall hrest

section Numbers

theorem not_digit_of_point {text : JString} : ∀ d ∈ (chr '.' :: text).head?, ¬ Digit d := by
  rintro d hd
  obtain rfl := Option.some.inj hd
  exact not_digit_point

variable {c : JChar} {whole : JString} (hwhole : ∀ d ∈ c :: whole, Digit d)

include hwhole

theorem isLongest_whole (hrest : ∀ d ∈ rest.head?, ¬ Digit d)
    (hpoint : ∀ d frac, rest = chr '.' :: d :: frac → ¬ Digit d) :
    IsLongest Segment .number (c :: whole) rest := by
  refine isLongest_of_start ⟨c, whole, hwhole, .inl rfl⟩
    fun kind' lexeme' rest' htext h' hstart => ?_
  cases kind' <;> try cases hstart
  obtain ⟨c', whole', hwhole', rfl | ⟨d, frac, hfrac, rfl⟩⟩ := h'
  · exact length_le_of_boundary htext hwhole' hrest
  · rw [List.append_assoc] at htext
    obtain ⟨-, rfl⟩ := append_inj_of_boundary htext hwhole hwhole' hrest not_digit_of_point
    exact absurd (hfrac d List.mem_cons_self) (hpoint d _ rfl)

theorem isLongest_fraction {d : JChar} {frac : JString} (hfrac : ∀ e ∈ d :: frac, Digit e)
    (hrest : ∀ e ∈ rest.head?, ¬ Digit e) :
    IsLongest Segment .number (c :: whole ++ chr '.' :: d :: frac) rest := by
  refine isLongest_of_start ⟨c, whole, hwhole, .inr ⟨d, frac, hfrac, rfl⟩⟩
    fun kind' lexeme' rest' htext h' hstart => ?_
  cases kind' <;> try cases hstart
  rw [List.append_assoc] at htext
  obtain ⟨c', whole', hwhole', rfl | ⟨d', frac', hfrac', rfl⟩⟩ := h'
  · have hle := length_le_of_boundary htext hwhole' not_digit_of_point
    rw [List.length_append]
    omega
  · rw [List.append_assoc] at htext
    obtain ⟨hsame, hpoint⟩ := append_inj_of_boundary htext hwhole hwhole' not_digit_of_point
      not_digit_of_point
    have hle := length_le_of_boundary (List.cons.inj hpoint).2 hfrac' hrest
    rw [hsame, List.length_append, List.length_append]
    simpa using hle

end Numbers

end BuildYourOwnStuff.Jlox
