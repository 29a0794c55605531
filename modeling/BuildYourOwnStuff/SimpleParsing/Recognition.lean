import BuildYourOwnStuff.SimpleParsing.Parser

/-!
# Recognised statements

The states of the parser expect the tokens of the statement one after another. A
character that no rule wants is reported and takes no part in this. The action is
performed right after the semicolon, and the end of the input is expected then.
-/

namespace BuildYourOwnStuff.SimpleParsing

open Foundations GoStd

/-- What the action of a statement prints. -/
def report (a b : Bytes) : List Bytes := [sqlIsValid, column (some a), table (some b)]

namespace Config

/-- The state shifts one token, and any other is an error. -/
structure Expects (yystate : ℕ) (yychar : TokenKind) (next : ℕ) : Prop where
  not_final : yystate ≠ YYFINAL
  not_default : yypact yystate ≠ YYPACT_NINF
  error : yydefact yystate = 0
  pos : 0 < next
  entry_eq : ∀ k, entry yystate k.yytoken = if k = yychar then some (next : ℤ) else none

instance (yystate : ℕ) (yychar : TokenKind) (next : ℕ) : Decidable (Expects yystate yychar next) :=
  decidable_of_iff (yystate ≠ YYFINAL ∧ yypact yystate ≠ YYPACT_NINF ∧ yydefact yystate = 0 ∧
      0 < next ∧ ∀ k : TokenKind,
        entry yystate k.yytoken = if k = yychar then some (next : ℤ) else none)
    ⟨fun ⟨h₁, h₂, h₃, h₄, h₅⟩ => ⟨h₁, h₂, h₃, h₄, h₅⟩,
      fun ⟨h₁, h₂, h₃, h₄, h₅⟩ => ⟨h₁, h₂, h₃, h₄, h₅⟩⟩

theorem yyerrlab1_eq (c : Config) {yyss : List ℕ} (h : ∀ s ∈ yyss, shiftsError s = none)
    (yyvs : List (Option Bytes)) : c.yyerrlab1 yyss yyvs = .returned 1 c.printed := by
  induction yyss generalizing yyvs with
  | nil => rfl
  | cons s yyss ih =>
    rw [List.forall_mem_cons] at h
    rw [yyerrlab1, h.1]
    exact ih h.2 yyvs.tail

/-- No state shifts the error token. -/
theorem yyerrlab_eq (c : Config) (herr : c.yyerrstatus = 0)
    (h : ∀ s ∈ c.yyss, shiftsError s = none) :
    c.yyerrlab = .returned 1 (c.printed ++ [syntaxError]) := by
  rw [yyerrlab, herr]
  exact yyerrlab1_eq _ h _

/-- After a call of `yylex` whose token is shifted. -/
def shifted (c : Config) (next : ℕ) (call : Call) (rest : Bytes) : Config where
  yyss := next :: c.yyss
  yyvs := call.yylval c.yylval :: c.yyvs
  yychar := none
  yylval := call.yylval c.yylval
  yyerrstatus := 0
  input := rest
  printed := c.printed ++ call.printed

/-- A state is set, no token has been read ahead, and there has been no error. -/
structure Ready (c : Config) : Prop where
  empty : c.yychar = none
  noError : c.yyerrstatus = 0
  abort : ∀ s ∈ c.yyss, shiftsError s = none

theorem Ready.shifted {c : Config} (h : c.Ready) {next : ℕ} (hnext : shiftsError next = none)
    (call : Call) (rest : Bytes) : (c.shifted next call rest).Ready where
  empty := rfl
  noError := rfl
  abort := List.forall_mem_cons.mpr ⟨hnext, h.abort⟩

theorem step_of_expects {c : Config} (h : c.Ready) {k : TokenKind} {next : ℕ}
    (hexpects : Expects c.yystate k next) {call : Call} {rest : Bytes}
    (hcall : yylex c.yylval c.input = ⟨call.printed, call.yychar, call.yylval c.yylval, rest⟩) :
    c.step = if call.yychar = k then .next (c.shifted next call rest)
      else .returned 1 (c.printed ++ call.printed ++ [syntaxError]) := by
  have hahead : c.lookahead = { c with
      yychar := some call.yychar, yylval := call.yylval c.yylval, input := rest,
      printed := c.printed ++ call.printed } := by
    rw [lookahead, h.empty, hcall]
  have hstate : c.lookahead.yystate = c.yystate := by rw [hahead]; rfl
  have hentry := hexpects.entry_eq call.yychar
  rw [step, if_neg hexpects.not_final, if_neg hexpects.not_default]
  simp only [hstate]
  have hchar : c.lookahead.yychar.getD .YYEOF = call.yychar := by rw [hahead]; rfl
  rw [hchar, hentry]
  by_cases hk : call.yychar = k
  · rw [if_pos hk, if_pos hk]
    have hpos : ¬ ((next : ℤ) ≤ 0) := by
      have hpos := hexpects.pos
      omega
    simp only [if_neg hpos, Int.toNat_natCast, hahead, shift, shifted, h.noError]
  · rw [if_neg hk, if_neg hk]
    change c.lookahead.yydefault = _
    rw [yydefault, hstate, if_pos hexpects.error, yyerrlab_eq, hahead]
    · rw [hahead]
      exact h.noError
    · rw [hahead]
      exact h.abort

/-- States that expect these tokens, each followed by the state it leads to. -/
inductive Chain : ℕ → List (TokenKind × ℕ) → Prop
  | nil (s : ℕ) : Chain s []
  | cons {s next : ℕ} {k : TokenKind} {l : List (TokenKind × ℕ)} (hexpects : Expects s k next)
      (htoken : k ≠ .YYEOF) (hnext : shiftsError next = none) (hrest : Chain next l) :
      Chain s ((k, next) :: l)

/-- The calls whose tokens were shifted, as a relation between two configurations. -/
inductive Shifts : Config → List ℕ → List Call → Config → Prop
  | nil (c : Config) : Shifts c [] [] c
  | cons {c c' : Config} {next : ℕ} {call : Call} {rest : Bytes} {states : List ℕ}
      {calls : List Call} (hrest : Shifts (c.shifted next call rest) states calls c') :
      Shifts c (next :: states) (call :: calls) c'

theorem run_next {c c' : Config} (h : c.step = .next c') (turns : ℕ) :
    run (turns + 1) c = run turns c' := by
  rw [run, h]

/-- The tokens of a chain are shifted, or the first other token is an error. -/
theorem run_chain {s : ℕ} {l : List (TokenKind × ℕ)} (h : Chain s l) {c : Config}
    (hs : c.yystate = s) (hready : c.Ready) {calls : List Call}
    (hsupply : Supplies c.input calls) :
    (∃ shifted rest c', calls = shifted ++ rest ∧ shifted.map Call.yychar = l.map Prod.fst ∧
        Shifts c (l.map Prod.snd) shifted c' ∧ c'.Ready ∧ Supplies c'.input rest ∧
        ∀ turns, run (turns + l.length) c = run turns c') ∨
      ¬ l.map Prod.fst <+: calls.map Call.yychar ∧ ∃ read, read <+: calls ∧
        ∀ turns, l.length ≤ turns →
          run turns c = some (c.printed ++ read.flatMap Call.printed ++ [syntaxError]) := by
  induction h generalizing c calls with
  | nil => exact .inl ⟨[], calls, c, rfl, rfl, .nil c, hready, hsupply, fun _ => rfl⟩
  | @cons s next k l hexpects htoken hnext hrest ih =>
    obtain ⟨call, rest, calls', rfl, hcall, hthen⟩ := hsupply.first
    have hstep := step_of_expects hready (hs ▸ hexpects) (hcall c.yylval)
    by_cases hk : call.yychar = k
    · rw [if_pos hk] at hstep
      rw [if_neg (hk ▸ htoken)] at hthen
      rcases ih rfl (hready.shifted hnext call rest) hthen with
        ⟨shifted, others, c', rfl, hmap, hshifts, hready', hsupply', hrun⟩ |
        ⟨hnot, read, hread, hrun⟩
      · refine .inl ⟨call :: shifted, others, c', rfl, ?_, .cons hshifts, hready', hsupply', ?_⟩
        · rw [List.map_cons, List.map_cons, hk, hmap]
        · intro turns
          rw [List.length_cons, ← add_assoc, run_next hstep, hrun]
      · refine .inr ⟨?_, call :: read, List.cons_prefix_cons.mpr ⟨rfl, hread⟩, ?_⟩
        · rw [List.map_cons, List.map_cons, List.cons_prefix_cons]
          exact fun hpref => hnot hpref.2
        · intro turns hle
          obtain ⟨turns, rfl⟩ : ∃ n, turns = n + 1 := ⟨turns - 1, by
            rw [List.length_cons] at hle
            omega⟩
          rw [run_next hstep, hrun turns (Nat.le_of_succ_le_succ hle), List.flatMap_cons]
          simp only [Config.shifted, List.append_assoc]
    · rw [if_neg hk] at hstep
      refine .inr ⟨?_, [call], List.cons_prefix_cons.mpr ⟨rfl, List.nil_prefix⟩, ?_⟩
      · rw [List.map_cons, List.map_cons, List.cons_prefix_cons]
        exact fun hpref => hk hpref.1.symm
      · intro turns hle
        obtain ⟨turns, rfl⟩ : ∃ n, turns = n + 1 := ⟨turns - 1, by
          rw [List.length_cons] at hle
          omega⟩
        rw [run, hstep, List.flatMap_singleton]

/-- The states of a statement. -/
theorem chain_statement : Chain 0
    [(.SELECT, 1), (.IDENTIFIER, 3), (.FROM, 5), (.IDENTIFIER, 6), (.SEMICOLON, 7)] :=
  .cons (by decide) (by decide) (by decide) <|
  .cons (by decide) (by decide) (by decide) <|
  .cons (by decide) (by decide) (by decide) <|
  .cons (by decide) (by decide) (by decide) <|
  .cons (by decide) (by decide) (by decide) (.nil 7)

theorem expects_eof : Expects 2 .YYEOF 4 := by decide

/-- After the reduction of a statement. -/
def reduced (c : Config) (a b : Bytes) : Config :=
  { c with yyss := [2, 0], yyvs := c.yyvs.drop 4, printed := c.printed ++ report a b }

/-- The reduction is made without a look at the next token. -/
theorem step_reduce {c : Config} {a b : Bytes} {v w x : Option Bytes}
    (hss : c.yyss = [7, 6, 5, 3, 1, 0]) (hvs : c.yyvs = [v, some b, w, some a, x]) :
    c.step = .next (c.reduced a b) := by
  obtain ⟨yyss, yyvs, yychar, yylval, yyerrstatus, input, printed⟩ := c
  subst hss hvs
  rfl

theorem Ready.reduced {c : Config} (h : c.Ready) (a b : Bytes) : (c.reduced a b).Ready where
  empty := h.empty
  noError := h.noError
  abort := by
    change ∀ s ∈ [2, 0], shiftsError s = none
    decide

theorem ready_start (input : Bytes) : (start input).Ready where
  empty := rfl
  noError := rfl
  abort := by
    change ∀ s ∈ [0], shiftsError s = none
    decide

/-- The state after a statement expects the end of the input. -/
theorem run_end {c : Config} (hready : c.Ready) (hss : c.yyss = [2, 0]) {call : Call} {rest : Bytes}
    (hcall : yylex c.yylval c.input = ⟨call.printed, call.yychar, call.yylval c.yylval, rest⟩)
    (turns : ℕ) : run (turns + 2) c =
      some (c.printed ++ call.printed ++ if call.yychar = .YYEOF then [] else [syntaxError]) := by
  have hstate : c.yystate = 2 := by rw [yystate, hss]; rfl
  have hstep := step_of_expects hready (hstate ▸ expects_eof) hcall
  by_cases heof : call.yychar = .YYEOF
  · rw [if_pos heof] at hstep
    rw [if_pos heof, List.append_nil, run_next hstep]
    rfl
  · rw [if_neg heof] at hstep
    rw [if_neg heof, run, hstep]

/-- The values of `yylval` after each of the calls. -/
def yylvals (yylval : Option Bytes) : List Call → List (Option Bytes)
  | [] => []
  | call :: calls => call.yylval yylval :: yylvals (call.yylval yylval) calls

theorem yyvs_of_shifts {c c' : Config} {states : List ℕ} {calls : List Call}
    (h : Shifts c states calls c') :
    c'.yyss = states.reverse ++ c.yyss ∧
      c'.yyvs = (yylvals c.yylval calls).reverse ++ c.yyvs ∧
      c'.printed = c.printed ++ calls.flatMap Call.printed := by
  induction h with
  | nil => simp [yylvals]
  | cons _ ih => simpa [shifted, yylvals] using ih

end Config

/-- The tokens of a statement. -/
def sentence : List TokenKind := [.SELECT, .IDENTIFIER, .FROM, .IDENTIFIER, .SEMICOLON]

def Call.identifier? (c : Call) : Option Bytes :=
  if c.yychar = .IDENTIFIER then some c.yytext else none

theorem values_of_sentence {calls : List Call} (h : calls.map Call.yychar = sentence)
    (yylval : Option Bytes) : ∃ a b, calls.filterMap Call.identifier? = [a, b] ∧
      Config.yylvals yylval calls = [yylval, some a, some a, some b, some b] := by
  obtain ⟨c₁, calls, rfl, h₁, h⟩ := List.map_eq_cons_iff.mp h
  obtain ⟨c₂, calls, rfl, h₂, h⟩ := List.map_eq_cons_iff.mp h
  obtain ⟨c₃, calls, rfl, h₃, h⟩ := List.map_eq_cons_iff.mp h
  obtain ⟨c₄, calls, rfl, h₄, h⟩ := List.map_eq_cons_iff.mp h
  obtain ⟨c₅, calls, rfl, h₅, h⟩ := List.map_eq_cons_iff.mp h
  rw [List.map_eq_nil_iff] at h
  subst h
  refine ⟨c₂.yytext, c₄.yytext, ?_, ?_⟩
  · simp [Call.identifier?, h₁, h₂, h₃, h₄, h₅]
  · simp [Config.yylvals, Call.yylval, h₁, h₂, h₃, h₄, h₅]

/-- A statement is reported before the next token is read, and this token is an error
unless the input ends. -/
theorem yyparse_of_supplies {input : Bytes} {calls : List Call} (h : Supplies input calls) :
    (∃ shifted call others a b, calls = shifted ++ call :: others ∧
        shifted.map Call.yychar = sentence ∧ shifted.filterMap Call.identifier? = [a, b] ∧
        (call.yychar = .YYEOF → others = []) ∧
        ∀ turns, 8 ≤ turns → yyparse turns input = some (shifted.flatMap Call.printed ++
          report a b ++ call.printed ++ if call.yychar = .YYEOF then [] else [syntaxError])) ∨
      ¬ sentence <+: calls.map Call.yychar ∧ ∃ read, read <+: calls ∧
        ∀ turns, 8 ≤ turns →
          yyparse turns input = some (read.flatMap Call.printed ++ [syntaxError]) := by
  rcases Config.run_chain Config.chain_statement rfl (Config.ready_start input) h with
    ⟨shifted, rest, c, rfl, hkinds, hshifts, hready, hsupply, hrun⟩ |
    ⟨hnot, read, hread, hrun⟩
  · obtain ⟨a, b, hidentifiers, hvalues⟩ := values_of_sentence hkinds (Config.start input).yylval
    obtain ⟨hss, hvs, hprinted⟩ := Config.yyvs_of_shifts hshifts
    rw [hvalues] at hvs
    obtain ⟨call, rest', others, rfl, hcall, hthen⟩ := hsupply.first
    refine .inl ⟨shifted, call, others, a, b, rfl, hkinds, hidentifiers, ?_, ?_⟩
    · intro heof
      rwa [if_pos heof] at hthen
    · intro turns hle
      obtain ⟨turns, rfl⟩ : ∃ n, turns = n + 8 := ⟨turns - 8, by omega⟩
      have hend := Config.run_end (hready.reduced a b) rfl (hcall c.yylval)
      have hshifted : Config.run (turns + 8) (.start input) = Config.run (turns + 3) c :=
        hrun (turns + 3)
      rw [yyparse, hshifted, Config.run_next (Config.step_reduce hss hvs), hend, Config.reduced,
        hprinted]
      rfl
  · refine .inr ⟨hnot, read, hread, fun turns hle => ?_⟩
    exact hrun turns (Nat.le_trans (by decide) hle)

end BuildYourOwnStuff.SimpleParsing
