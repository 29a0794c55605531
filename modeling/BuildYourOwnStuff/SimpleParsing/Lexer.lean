import BuildYourOwnStuff.CppStd.CString
import BuildYourOwnStuff.Foundations.LexRules
import Mathlib.Data.Fintype.Defs

/-!
# The lexer

The rules of `lexer.l`, in their order, and the function `yylex` that they make.
-/

namespace BuildYourOwnStuff.SimpleParsing

open Foundations CppStd GoStd

inductive Rule
  | SELECT
  | FROM
  | semicolon
  | identifier
  | blanks
  | any
  deriving DecidableEq

def rules : List Rule := [.SELECT, .FROM, .semicolon, .identifier, .blanks, .any]

def isLetter (c : UInt8) : Bool :=
  (0x61 ≤ c && c ≤ 0x7A) || (0x41 ≤ c && c ≤ 0x5A) || c == 0x5F

def isBlank (c : UInt8) : Bool := c == 0x20 || c == 0x09 || c == 0x0D || c == 0x0A

/-- The texts that the pattern of a rule stands for. -/
def pattern : Rule → Bytes → Bool
  | .SELECT, yytext => yytext == ascii "SELECT"
  | .FROM, yytext => yytext == ascii "FROM"
  | .semicolon, yytext => yytext == ascii ";"
  | .identifier, c :: rest => isLetter c && rest.all fun c => isLetter c || isDigit c
  | .identifier, [] => false
  | .blanks, yytext => yytext != [] && yytext.all isBlank
  | .any, [c] => c != 0x0A
  | .any, _ => false

/-- The tokens of `parser.tab.h`, and the end of the input. -/
inductive TokenKind
  | YYEOF
  | SELECT
  | FROM
  | SEMICOLON
  | IDENTIFIER
  deriving DecidableEq

instance : Fintype TokenKind where
  elems := {.YYEOF, .SELECT, .FROM, .SEMICOLON, .IDENTIFIER}
  complete k := by cases k <;> decide

/-- What `printf` writes for a pointer to a string. -/
def unknownCharacter (yytext : Bytes) : Bytes :=
  ascii "Unknown character: " ++ cString yytext ++ ascii "\n"

/-- The result of a call of `yylex`, the texts that it has printed, the value of `yylval`
after it and the input that is left. -/
structure Scanned where
  printed : List Bytes
  yychar : TokenKind
  yylval : Option Bytes
  input : Bytes

/-- The actions are performed until one returns, or until the input is empty. -/
def actions (yylval : Option Bytes) : ℕ → Bytes → Scanned
  | 0, input => ⟨[], .YYEOF, yylval, input⟩
  | turns + 1, input =>
    match nextLexeme rules pattern input with
    | none => ⟨[], .YYEOF, yylval, input⟩
    | some (.SELECT, _, rest) => ⟨[], .SELECT, yylval, rest⟩
    | some (.FROM, _, rest) => ⟨[], .FROM, yylval, rest⟩
    | some (.semicolon, _, rest) => ⟨[], .SEMICOLON, yylval, rest⟩
    | some (.identifier, yytext, rest) => ⟨[], .IDENTIFIER, some yytext, rest⟩
    | some (.blanks, _, rest) => actions yylval turns rest
    | some (.any, yytext, rest) =>
      let scanned := actions yylval turns rest
      { scanned with printed := unknownCharacter yytext :: scanned.printed }

/-- No lexeme is empty, so the turns are enough. -/
def yylex (yylval : Option Bytes) (input : Bytes) : Scanned :=
  actions yylval input.length input

abbrev Segment : Rule → Bytes → Bytes → Prop := RuleSegment rules pattern

theorem exists_rule_of_singleton (c : UInt8) : ∃ k ∈ rules, pattern k [c] := by
  by_cases hc : c = 0x0A
  · exact ⟨.blanks, by decide, by simp [pattern, isBlank, hc]⟩
  · exact ⟨.any, by decide, by simp [pattern, hc]⟩

/-- The lexemes of an input. -/
theorem exists_lexemes (input : Bytes) : ∃ lexemes, Decomposition Segment input lexemes :=
  exists_rule_decomposition exists_rule_of_singleton input

/-- A call of `yylex`: what it prints, what it returns and the text of an identifier. -/
structure Call where
  printed : List Bytes
  yychar : TokenKind
  yytext : Bytes

def Call.yylval (c : Call) (yylval : Option Bytes) : Option Bytes :=
  if c.yychar = .IDENTIFIER then some c.yytext else yylval

/-- The calls of `yylex` until the end of the input. -/
inductive Supplies : Bytes → List Call → Prop
  | eof {input : Bytes} {c : Call} (heof : c.yychar = .YYEOF)
      (hcall : ∀ yylval, yylex yylval input = ⟨c.printed, c.yychar, yylval, []⟩) :
      Supplies input [c]
  | token {input rest : Bytes} {c : Call} {calls : List Call} (htoken : c.yychar ≠ .YYEOF)
      (hcall : ∀ yylval, yylex yylval input = ⟨c.printed, c.yychar, c.yylval yylval, rest⟩)
      (hrest : Supplies rest calls) : Supplies input (c :: calls)

def Rule.token? : Rule → Option TokenKind
  | .SELECT => some .SELECT
  | .FROM => some .FROM
  | .semicolon => some .SEMICOLON
  | .identifier => some .IDENTIFIER
  | .blanks | .any => none

/-- The message about a lexeme that no other rule wants. -/
def message? (lexeme : Rule × Bytes) : Option Bytes :=
  if lexeme.1 = .any then some (unknownCharacter lexeme.2) else none

/-- The calls that an input with these lexemes leads to. -/
def calls : List (Rule × Bytes) → List Call
  | [] => [⟨[], .YYEOF, []⟩]
  | lexeme :: lexemes =>
    match lexeme.1.token? with
    | some yychar => ⟨[], yychar, lexeme.2⟩ :: calls lexemes
    | none => (calls lexemes).modifyHead fun c =>
        { c with printed := (message? lexeme).toList ++ c.printed }

theorem actions_succ {k : Rule} {w r : Bytes} (h : IsLongest Segment k w r)
    (yylval : Option Bytes) (turns : ℕ) :
    actions yylval (turns + 1) (w ++ r) =
      match k.token? with
      | some yychar => ⟨[], yychar, Call.yylval ⟨[], yychar, w⟩ yylval, r⟩
      | none =>
        let scanned := actions yylval turns r
        { scanned with printed := (message? (k, w)).toList ++ scanned.printed } := by
  rw [actions, nextLexeme_of_isLongest h]
  cases k <;> rfl

theorem actions_of_le {input : Bytes} {lexemes : List (Rule × Bytes)}
    (h : Decomposition Segment input lexemes) (yylval : Option Bytes) {turns : ℕ}
    (hturns : input.length ≤ turns) : actions yylval turns input = yylex yylval input := by
  unfold yylex
  induction h generalizing turns with
  | nil => cases turns <;> rfl
  | @cons k w r _ first _ ih =>
    have hpos : 1 ≤ w.length := List.length_pos_iff.mpr first.segment.1
    rw [List.length_append] at hturns ⊢
    obtain ⟨m, rfl⟩ : ∃ m, turns = m + 1 := ⟨turns - 1, by omega⟩
    obtain ⟨n, hn⟩ : ∃ n, w.length + r.length = n + 1 := ⟨w.length + r.length - 1, by omega⟩
    have hm : r.length ≤ m := by omega
    have hn' : r.length ≤ n := by omega
    rw [hn, actions_succ first, actions_succ first, ih hm, ih hn']

theorem yylex_append {k : Rule} {w r : Bytes} {lexemes : List (Rule × Bytes)}
    (h : IsLongest Segment k w r) (hrest : Decomposition Segment r lexemes)
    (yylval : Option Bytes) :
    yylex yylval (w ++ r) =
      match k.token? with
      | some yychar => ⟨[], yychar, Call.yylval ⟨[], yychar, w⟩ yylval, r⟩
      | none =>
        let scanned := yylex yylval r
        { scanned with printed := (message? (k, w)).toList ++ scanned.printed } := by
  have hpos : 1 ≤ w.length := List.length_pos_iff.mpr h.segment.1
  rw [← actions_of_le (.cons h hrest) yylval (Nat.le_succ _), actions_succ h,
    actions_of_le hrest yylval (by rw [List.length_append]; omega)]

/-- Texts printed in front of the first call. -/
theorem Supplies.modifyHead {input input' : Bytes} {calls : List Call} {texts : List Bytes}
    (h : Supplies input calls)
    (hcall : ∀ yylval, yylex yylval input' =
      { yylex yylval input with printed := texts ++ (yylex yylval input).printed }) :
    Supplies input' (calls.modifyHead fun c => { c with printed := texts ++ c.printed }) := by
  cases h with
  | eof heof hcall' =>
    refine .eof heof fun yylval => ?_
    rw [hcall, hcall']
  | token htoken hcall' hrest =>
    refine .token htoken (fun yylval => ?_) hrest
    rw [hcall, hcall']
    rfl

theorem Supplies.first {input : Bytes} {calls : List Call} (h : Supplies input calls) :
    ∃ c rest calls', calls = c :: calls' ∧
      (∀ yylval, yylex yylval input = ⟨c.printed, c.yychar, c.yylval yylval, rest⟩) ∧
      if c.yychar = .YYEOF then calls' = [] else Supplies rest calls' := by
  cases h with
  | @eof _ c heof hcall =>
    refine ⟨c, [], [], rfl, fun yylval => ?_, by rw [if_pos heof]⟩
    rw [hcall, Call.yylval, heof]
    rfl
  | @token _ rest c calls' htoken hcall hrest =>
    exact ⟨c, rest, calls', rfl, hcall, by rwa [if_neg htoken]⟩

theorem supplies_calls {input : Bytes} {lexemes : List (Rule × Bytes)}
    (h : Decomposition Segment input lexemes) : Supplies input (calls lexemes) := by
  induction h with
  | nil => exact .eof rfl fun _ => rfl
  | @cons k w r lexemes first rest ih =>
    have hcall := yylex_append first rest
    rw [calls]
    rcases htoken : k.token? with _ | yychar
    · simp only [htoken] at hcall
      exact ih.modifyHead hcall
    · simp only [htoken] at hcall
      refine .token ?_ hcall ih
      intro heof
      cases k <;> cases htoken <;> cases heof

end BuildYourOwnStuff.SimpleParsing
