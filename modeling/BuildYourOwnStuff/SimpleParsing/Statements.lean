import BuildYourOwnStuff.SimpleParsing.Recognition

/-!
# Texts that are statements

What the parser prints about a text, by the tokens of its longest lexemes. Exactly the
texts without a syntax error are statements, if characters that no rule wants are
skipped.
-/

namespace BuildYourOwnStuff.SimpleParsing

open Foundations GoStd

def kinds (lexemes : List (Rule × Bytes)) : List TokenKind :=
  lexemes.filterMap fun lexeme => lexeme.1.token?

def identifiers (lexemes : List (Rule × Bytes)) : List Bytes :=
  lexemes.filterMap fun lexeme => if lexeme.1 = .identifier then some lexeme.2 else none

/-- What is printed about characters that no rule wants. -/
def messages (lexemes : List (Rule × Bytes)) : List Bytes := lexemes.filterMap message?

def IsStatement (lexemes : List (Rule × Bytes)) (a b : Bytes) : Prop :=
  kinds lexemes = sentence ∧ identifiers lexemes = [a, b]

/-- The lexemes of the text are the tokens of a statement with two identifiers, and
blanks and unknown characters between them. -/
def Statement (input a b : Bytes) : Prop :=
  ∃ lexemes, Decomposition Segment input lexemes ∧ IsStatement lexemes a b

/-- A statement without unknown characters. -/
def PlainStatement (input a b : Bytes) : Prop :=
  ∃ lexemes, Decomposition Segment input lexemes ∧ IsStatement lexemes a b ∧
    ∀ lexeme ∈ lexemes, lexeme.1 ≠ .any

/-- The tokens go on after those of a statement. -/
def GoesOn (input : Bytes) : Prop :=
  ∃ lexemes rest, Decomposition Segment input lexemes ∧ rest ≠ [] ∧
    kinds lexemes = sentence ++ rest

/-- What is printed agrees with what the statements are. -/
structure Accepts (IsSentence : Bytes → Bytes → Prop) (out : List Bytes) : Prop where
  valid : sqlIsValid ∈ out ↔ ∃ a b, IsSentence a b
  report : ∀ a b, report a b <:+: out ↔ IsSentence a b
  error : syntaxError ∈ out ↔ ¬ ∃ a b, IsSentence a b

theorem map_yychar_calls (lexemes : List (Rule × Bytes)) :
    (calls lexemes).map Call.yychar = kinds lexemes ++ [.YYEOF] := by
  induction lexemes with
  | nil => rfl
  | cons lexeme lexemes ih =>
    rw [calls, kinds, List.filterMap_cons, ← kinds]
    rcases lexeme.1.token? with _ | yychar
    · rw [← ih]
      cases calls lexemes <;> rfl
    · rw [List.cons_append, ← ih]
      rfl

theorem identifiers_calls (lexemes : List (Rule × Bytes)) :
    (calls lexemes).filterMap Call.identifier? = identifiers lexemes := by
  induction lexemes with
  | nil => rfl
  | cons lexeme lexemes ih =>
    obtain ⟨rule, yytext⟩ := lexeme
    rw [calls, identifiers, List.filterMap_cons, ← identifiers, ← ih]
    cases rule with
    | blanks | any => cases calls lexemes <;> rfl
    | _ => rfl

theorem printed_calls (lexemes : List (Rule × Bytes)) :
    (calls lexemes).flatMap Call.printed = messages lexemes := by
  induction lexemes with
  | nil => rfl
  | cons lexeme lexemes ih =>
    obtain ⟨rule, yytext⟩ := lexeme
    have hne : calls lexemes ≠ [] := by
      intro hnil
      have hmap := map_yychar_calls lexemes
      rw [hnil] at hmap
      exact absurd hmap.symm (List.append_ne_nil_of_right_ne_nil _ (List.cons_ne_nil _ _))
    obtain ⟨c, cs, hcs⟩ := List.exists_cons_of_ne_nil hne
    rw [calls, messages, List.filterMap_cons, ← messages, ← ih, hcs]
    cases rule <;> rfl

/-- Text about an unknown character, by its first letter. -/
def isMessage (text : Bytes) : Bool := text.head? == some 0x55

theorem isMessage_of_mem {lexemes : List (Rule × Bytes)} {text : Bytes}
    (h : text ∈ messages lexemes) : isMessage text = true := by
  obtain ⟨lexeme, -, htext⟩ := List.mem_filterMap.mp h
  rw [message?] at htext
  split_ifs at htext with hany
  obtain rfl := Option.some_injective _ htext
  rfl

theorem isMessage_report {a b text : Bytes} (h : text ∈ report a b) : isMessage text = false := by
  rcases List.mem_cons.mp h with rfl | h
  · rfl
  rcases List.mem_cons.mp h with rfl | h
  · rfl
  · rw [List.mem_singleton.mp h]
    rfl

theorem report_injective {a b a' b' : Bytes} (h : report a b = report a' b') :
    a = a' ∧ b = b' := by
  obtain ⟨-, hcolumn, htable⟩ : sqlIsValid = sqlIsValid ∧ column (some a) = column (some a') ∧
      table (some b) = table (some b') := by
    simpa [report] using h
  exact ⟨List.append_cancel_left (List.append_cancel_right hcolumn),
    List.append_cancel_left (List.append_cancel_right htable)⟩

/-- What can be printed about a text with the lexemes. -/
inductive Outcome (lexemes : List (Rule × Bytes)) : List Bytes → Prop
  | valid {a b : Bytes} {before after : List Bytes} (hstatement : IsStatement lexemes a b)
      (hmessages : before ++ after = messages lexemes) :
      Outcome lexemes (before ++ report a b ++ after)
  | goesOn {a b : Bytes} {rest : List TokenKind} {before after : List Bytes} (hrest : rest ≠ [])
      (hkinds : kinds lexemes = sentence ++ rest)
      (hmessages : ∀ text ∈ before ++ after, text ∈ messages lexemes) :
      Outcome lexemes (before ++ report a b ++ after ++ [syntaxError])
  | error {before : List Bytes} (hkinds : ¬ sentence <+: kinds lexemes)
      (hmessages : ∀ text ∈ before, text ∈ messages lexemes) :
      Outcome lexemes (before ++ [syntaxError])

theorem exists_outcome {input : Bytes} {lexemes : List (Rule × Bytes)}
    (h : Decomposition Segment input lexemes) :
    ∃ out, Outcome lexemes out ∧ ∀ turns, 8 ≤ turns → yyparse turns input = some out := by
  have hkinds := map_yychar_calls lexemes
  have hmessages := printed_calls lexemes
  rcases yyparse_of_supplies (supplies_calls h) with
    ⟨shifted, call, others, a, b, hcalls, hsentence, hidentifiers, hend, hparse⟩ |
    ⟨hnot, read, hread, hparse⟩
  · rw [hcalls, List.map_append, List.map_cons, hsentence] at hkinds
    rw [hcalls, List.flatMap_append, List.flatMap_cons] at hmessages
    by_cases heof : call.yychar = .YYEOF
    · obtain rfl := hend heof
      have hids := identifiers_calls lexemes
      rw [hcalls, List.filterMap_append, hidentifiers] at hids
      have hstatement : IsStatement lexemes a b := by
        refine ⟨(List.append_inj' hkinds rfl).1.symm, ?_⟩
        rw [← hids, List.filterMap_cons, Call.identifier?, heof]
        rfl
      refine ⟨_, .valid hstatement (by simpa using hmessages), fun turns hle => ?_⟩
      rw [hparse turns hle, if_pos heof, List.append_nil]
    · rcases List.eq_nil_or_concat (call.yychar :: others.map Call.yychar) with hnil |
        ⟨rest, last, hlast⟩
      · cases hnil
      · rw [hlast, List.concat_eq_append, ← List.append_assoc] at hkinds
        obtain ⟨hkinds, hlast'⟩ := List.append_inj' hkinds rfl
        have hrest : rest ≠ [] := by
          rintro rfl
          rw [List.singleton_inj.mp hlast'] at hlast
          exact heof (List.cons.inj hlast).1
        have hout : ∀ turns, 8 ≤ turns → yyparse turns input = some
            (shifted.flatMap Call.printed ++ report a b ++ call.printed ++ [syntaxError]) := by
          intro turns hle
          rw [hparse turns hle, if_neg heof]
        refine ⟨_, .goesOn hrest hkinds.symm ?_, hout⟩
        intro text htext
        rw [← hmessages, ← List.append_assoc]
        exact List.mem_append_left _ htext
  · refine ⟨_, .error ?_ ?_, hparse⟩
    · intro hpref
      apply hnot
      rw [hkinds]
      exact hpref.trans (List.prefix_append _ _)
    · intro text htext
      obtain ⟨c, hc, htext⟩ := List.mem_flatMap.mp htext
      rw [← hmessages]
      exact List.mem_flatMap.mpr ⟨c, hread.subset hc, htext⟩

/-- What is not about unknown characters. -/
def others (out : List Bytes) : List Bytes := out.filter fun text => !isMessage text

theorem others_messages {texts : List Bytes} (h : ∀ text ∈ texts, isMessage text = true) :
    others texts = [] := by
  rw [others, List.filter_eq_nil_iff]
  intro text htext
  simp [h text htext]

theorem others_report (a b : Bytes) : others (report a b) = report a b := by
  rw [others, List.filter_eq_self]
  intro text htext
  simp [isMessage_report htext]

theorem mem_others_iff {out : List Bytes} {text : Bytes} (h : isMessage text = false) :
    text ∈ others out ↔ text ∈ out := by
  simp [others, h]

theorem others_append (texts texts' : List Bytes) :
    others (texts ++ texts') = others texts ++ others texts' := List.filter_append _ _

/-- A report that is printed is printed with nothing else between its lines. -/
theorem infix_others_of_report {out : List Bytes} {a b : Bytes} (h : report a b <:+: out) :
    report a b <:+: others out := by
  rw [← others_report a b]
  exact h.filter _

theorem syntaxError_notMem_report (a b : Bytes) : syntaxError ∉ report a b := by
  intro h
  rcases List.mem_cons.mp h with h | h
  · exact absurd h (by decide)
  rcases List.mem_cons.mp h with h | h
  · have hhead : some (0x53 : UInt8) = some 0x43 := congrArg List.head? h
    exact absurd hhead (by decide)
  · have hhead : some (0x53 : UInt8) = some 0x54 :=
      congrArg List.head? (List.mem_singleton.mp h)
    exact absurd hhead (by decide)

theorem statement_iff {input a b : Bytes} {lexemes : List (Rule × Bytes)}
    (h : Decomposition Segment input lexemes) :
    Statement input a b ↔ IsStatement lexemes a b := by
  constructor
  · rintro ⟨lexemes', h', hstatement⟩
    rwa [rule_decomposition_unique h h']
  · exact fun hstatement => ⟨lexemes, h, hstatement⟩

theorem not_statement_of_kinds_ne {input : Bytes} {lexemes : List (Rule × Bytes)}
    (h : Decomposition Segment input lexemes) (hne : kinds lexemes ≠ sentence) :
    ¬ ∃ a b, Statement input a b := by
  rintro ⟨a, b, hstatement⟩
  exact hne ((statement_iff h).mp hstatement).1

/-- What is printed agrees with the statements, unless the tokens go on, and unknown
characters in a statement are reported. -/
structure Recognises (input : Bytes) (out : List Bytes) : Prop where
  error : syntaxError ∈ out ↔ ¬ ∃ a b, Statement input a b
  accepts : ¬ GoesOn input → Accepts (Statement input) out
  reported : ∀ lexemes a b, Decomposition Segment input lexemes → IsStatement lexemes a b →
    out.filter isMessage = messages lexemes

theorem recognises_valid {input a b : Bytes} {lexemes : List (Rule × Bytes)}
    (h : Decomposition Segment input lexemes) (hstatement : IsStatement lexemes a b)
    {before after : List Bytes} (hmessages : before ++ after = messages lexemes) :
    Recognises input (before ++ report a b ++ after) := by
  have hmem : ∀ text ∈ before ++ after, isMessage text = true := by
    intro text htext
    rw [hmessages] at htext
    exact isMessage_of_mem htext
  rw [List.forall_mem_append] at hmem
  have hothers : others (before ++ report a b ++ after) = report a b := by
    rw [others_append, others_append, others_messages hmem.1, others_messages hmem.2,
      others_report, List.nil_append, List.append_nil]
  have hexists : ∃ a b, Statement input a b := ⟨a, b, (statement_iff h).mpr hstatement⟩
  have herror : syntaxError ∈ before ++ report a b ++ after ↔ ¬ ∃ a b, Statement input a b := by
    rw [← mem_others_iff rfl, hothers]
    exact iff_of_false (syntaxError_notMem_report a b) (not_not_intro hexists)
  refine ⟨herror, fun _ => ⟨?_, fun a' b' => ?_, herror⟩, fun lexemes' a' b' h' _ => ?_⟩
  · rw [← mem_others_iff rfl, hothers]
    exact iff_of_true List.mem_cons_self hexists
  · rw [statement_iff h]
    constructor
    · intro hinfix
      have hreport := infix_others_of_report hinfix
      rw [hothers] at hreport
      obtain ⟨rfl, rfl⟩ := report_injective (hreport.eq_of_length rfl)
      exact hstatement
    · intro hstatement'
      have heq := hstatement.2.symm.trans hstatement'.2
      obtain ⟨rfl, rfl⟩ : a = a' ∧ b = b' := by simpa using heq
      exact List.infix_append _ _ _
  · have hreport : (report a b).filter isMessage = [] := by
      rw [List.filter_eq_nil_iff]
      intro text htext
      simp [isMessage_report htext]
    rw [rule_decomposition_unique h' h, ← hmessages, List.filter_append, List.filter_append,
      List.filter_eq_self.mpr hmem.1, List.filter_eq_self.mpr hmem.2, hreport, List.append_nil]

/-- After a syntax error without a statement only the parts about statements count. -/
theorem recognises_of_kinds_ne {input : Bytes} {lexemes : List (Rule × Bytes)} {out : List Bytes}
    (h : Decomposition Segment input lexemes) (hne : kinds lexemes ≠ sentence)
    (herror : syntaxError ∈ out) (hothers : ¬ GoesOn input → others out = [syntaxError]) :
    Recognises input out := by
  have hnone := not_statement_of_kinds_ne h hne
  have herror' : syntaxError ∈ out ↔ ¬ ∃ a b, Statement input a b := iff_of_true herror hnone
  refine ⟨herror', fun hends => ⟨?_, fun a b => ?_, herror'⟩, fun lexemes' a b h' hstatement => ?_⟩
  · rw [← mem_others_iff rfl, hothers hends]
    exact iff_of_false (by decide) hnone
  · refine iff_of_false (fun hinfix => ?_) fun hstatement => hnone ⟨a, b, hstatement⟩
    have hlength := (infix_others_of_report hinfix).length_le
    rw [hothers hends] at hlength
    have hle : 3 ≤ 1 := hlength
    exact absurd hle (by decide)
  · exact absurd ⟨a, b, lexemes', h', hstatement⟩ hnone

theorem Outcome.recognises {input : Bytes} {lexemes : List (Rule × Bytes)} {out : List Bytes}
    (h : Decomposition Segment input lexemes) (hout : Outcome lexemes out) :
    Recognises input out := by
  cases hout with
  | valid hstatement hmessages => exact recognises_valid h hstatement hmessages
  | @goesOn a b rest before after hrest hkinds hmessages =>
    apply recognises_of_kinds_ne h
    · rw [hkinds]
      simpa using hrest
    · exact List.mem_append_right _ List.mem_cons_self
    · intro hends
      exact absurd ⟨lexemes, rest, h, hrest, hkinds⟩ hends
  | @error before hkinds hmessages =>
    apply recognises_of_kinds_ne h
    · intro heq
      exact hkinds (heq ▸ List.prefix_rfl)
    · exact List.mem_append_right _ List.mem_cons_self
    · intro _
      rw [others_append, others_messages fun text htext => isMessage_of_mem (hmessages text htext)]
      rfl

/-- The parser returns, and what it has printed tells whether the text is a statement. -/
theorem yyparse_recognises (input : Bytes) :
    ∃ out, (∀ turns, 8 ≤ turns → yyparse turns input = some out) ∧ Recognises input out := by
  obtain ⟨lexemes, h⟩ := exists_lexemes input
  obtain ⟨out, hout, hparse⟩ := exists_outcome h
  exact ⟨out, hparse, hout.recognises h⟩

theorem Outcome.mem_messages {lexemes : List (Rule × Bytes)} {out : List Bytes}
    (hout : Outcome lexemes out) {text : Bytes} (htext : text ∈ out)
    (hmessage : isMessage text = true) : text ∈ messages lexemes := by
  have hreport (a b : Bytes) : text ∉ report a b := by
    intro hmem
    rw [isMessage_report hmem] at hmessage
    cases hmessage
  have herror : text ≠ syntaxError := by
    rintro rfl
    cases hmessage
  cases hout with
  | @valid a b before after _ hmessages =>
    rw [← hmessages]
    simpa [hreport a b] using htext
  | @goesOn a b _ before after _ _ hmessages =>
    apply hmessages
    simpa [hreport a b, herror] using htext
  | @error before _ hmessages =>
    apply hmessages
    simpa [herror] using htext

/-- The parser accepts a statement with an unknown character. -/
theorem unknown_accepted : ¬ ∀ input, ∃ out,
    (∀ turns, 8 ≤ turns → yyparse turns input = some out) ∧ Accepts (PlainStatement input) out := by
  intro h
  obtain ⟨out, hparse, haccepts⟩ := h (ascii "SELECT a# FROM b;")
  have hout : yyparse 8 (ascii "SELECT a# FROM b;") =
      some (unknownCharacter (ascii "#") :: report (ascii "a") (ascii "b")) := by
    decide
  obtain rfl := Option.some_injective _ ((hparse 8 le_rfl).symm.trans hout)
  obtain ⟨a, b, lexemes, hlexemes, -, hplain⟩ :=
    haccepts.valid.mp (List.mem_cons_of_mem _ List.mem_cons_self)
  obtain ⟨out', hout', hparse'⟩ := exists_outcome hlexemes
  obtain rfl := Option.some_injective _ ((hparse' 8 le_rfl).symm.trans hout)
  obtain ⟨lexeme, hmem, hmessage⟩ :=
    List.mem_filterMap.mp (hout'.mem_messages List.mem_cons_self rfl)
  rw [message?, if_neg (hplain lexeme hmem)] at hmessage
  cases hmessage

end BuildYourOwnStuff.SimpleParsing
