import BuildYourOwnStuff.SimpleParsing.Lexer

/-!
# The parser

The function `yyparse` of `parser.tab.c` with its tables. A step is what happens between
two times that a state is set.
-/

namespace BuildYourOwnStuff.SimpleParsing

open Foundations GoStd

/-- `YYTRANSLATE`. -/
def TokenKind.yytoken : TokenKind → ℤ
  | .YYEOF => 0
  | .SELECT => 3
  | .FROM => 4
  | .SEMICOLON => 5
  | .IDENTIFIER => 6

def YYSYMBOL_YYerror : ℤ := 1

def YYFINAL : ℕ := 4

def YYLAST : ℤ := 5

def YYNTOKENS : ℕ := 7

def YYPACT_NINF : ℤ := -6

def yypact (yystate : ℕ) : ℤ := [-3, -5, 2, -1, -6, -2, 0, -6].getD yystate 0

def yydefact (yystate : ℕ) : ℕ := [0, 0, 0, 0, 1, 0, 0, 2].getD yystate 0

def yypgoto (yylhs : ℕ) : ℤ := [-6, -6].getD yylhs 0

def yydefgoto (yylhs : ℕ) : ℕ := [0, 2].getD yylhs 0

def yytable (yyn : ℤ) : ℤ := [1, 3, 4, 5, 6, 7].getD yyn.toNat 0

def yycheck (yyn : ℤ) : ℤ := [3, 6, 0, 4, 6, 5].getD yyn.toNat 0

def yyr1 (yyn : ℕ) : ℕ := [0, 7, 8].getD yyn 0

def yyr2 (yyn : ℕ) : ℕ := [0, 2, 5].getD yyn 0

/-- The entry of `yytable` for a state and a symbol, if there is one. -/
def entry (yystate : ℕ) (yytoken : ℤ) : Option ℤ :=
  let yyn := yypact yystate + yytoken
  if yyn < 0 ∨ YYLAST < yyn ∨ yycheck yyn ≠ yytoken then none else some (yytable yyn)

def syntaxError : Bytes := ascii "Syntax Error!\n"

def sqlIsValid : Bytes := ascii "SQL is Valid!\n"

def column (str : Option Bytes) : Bytes :=
  ascii "Column = " ++ str.getD (ascii "(null)") ++ ascii "\n"

def table (str : Option Bytes) : Bytes :=
  ascii "Table = " ++ str.getD (ascii "(null)") ++ ascii "\n"

/-- The stacks with their tops first, the lookahead, unless it is `YYEMPTY`, and what
has been printed. There is no value for the first state. -/
structure Config where
  yyss : List ℕ
  yyvs : List (Option Bytes)
  yychar : Option TokenKind
  yylval : Option Bytes
  yyerrstatus : ℕ
  input : Bytes
  printed : List Bytes

inductive Step
  | next (c : Config)
  | returned (yyresult : ℕ) (printed : List Bytes)

namespace Config

def yystate (c : Config) : ℕ := c.yyss.headD 0

/-- Read a lookahead token unless there is one. -/
def lookahead (c : Config) : Config :=
  match c.yychar with
  | some _ => c
  | none =>
    let scanned := yylex c.yylval c.input
    { c with
      yychar := some scanned.yychar, yylval := scanned.yylval, input := scanned.input,
      printed := c.printed ++ scanned.printed }

def shift (c : Config) (yyn : ℕ) : Config :=
  { c with
    yyss := yyn :: c.yyss, yyvs := c.yylval :: c.yyvs, yychar := none,
    yyerrstatus := c.yyerrstatus - 1 }

/-- The action of a rule; here `$2` and `$4` are at the places 3 and 1 of the stack. -/
def action (yyn : ℕ) (yyvs : List (Option Bytes)) : List Bytes :=
  if yyn = 2 then [sqlIsValid, column (yyvs.getD 3 none), table (yyvs.getD 1 none)] else []

def yyreduce (c : Config) (yyn : ℕ) : Config :=
  let yylen := yyr2 yyn
  let yyval := c.yyvs.getD (yylen - 1) none
  let yyss := c.yyss.drop yylen
  let yylhs := yyr1 yyn - YYNTOKENS
  let yyi := yypgoto yylhs + (yyss.headD 0 : ℤ)
  let yystate :=
    if 0 ≤ yyi ∧ yyi ≤ YYLAST ∧ yycheck yyi = (yyss.headD 0 : ℤ) then (yytable yyi).toNat
    else yydefgoto yylhs
  { c with
    yyss := yystate :: yyss, yyvs := yyval :: c.yyvs.drop yylen,
    printed := c.printed ++ action yyn c.yyvs }

/-- The state to which a state shifts the error token. -/
def shiftsError (yystate : ℕ) : Option ℤ :=
  if yypact yystate = YYPACT_NINF then none
  else (entry yystate YYSYMBOL_YYerror).filter fun yyn => 0 < yyn

/-- Pop states until one shifts the error token. -/
def yyerrlab1 (c : Config) : List ℕ → List (Option Bytes) → Step
  | [], _ => .returned 1 c.printed
  | yystate :: yyss, yyvs =>
    match shiftsError yystate with
    | some yyn =>
      .next { c with
        yyss := yyn.toNat :: yystate :: yyss, yyvs := c.yylval :: yyvs, yyerrstatus := 3 }
    | none => yyerrlab1 c yyss yyvs.tail

def yyerrlab (c : Config) : Step :=
  let printed := if c.yyerrstatus = 0 then c.printed ++ [syntaxError] else c.printed
  if c.yyerrstatus = 3 then
    if c.yychar = some .YYEOF then .returned 1 printed
    else yyerrlab1 { c with printed := printed, yychar := none } c.yyss c.yyvs
  else yyerrlab1 { c with printed := printed } c.yyss c.yyvs

def yydefault (c : Config) : Step :=
  if yydefact c.yystate = 0 then c.yyerrlab else .next (c.yyreduce (yydefact c.yystate))

def step (c : Config) : Step :=
  if c.yystate = YYFINAL then .returned 0 c.printed
  else if yypact c.yystate = YYPACT_NINF then c.yydefault
  else
    let c := c.lookahead
    match entry c.yystate (c.yychar.getD .YYEOF).yytoken with
    | none => c.yydefault
    | some yyn => .next (if yyn ≤ 0 then c.yyreduce (-yyn).toNat else c.shift yyn.toNat)

/-- What `yyparse` has printed when it returns, if it does so within the turns. -/
def run : ℕ → Config → Option (List Bytes)
  | 0, _ => none
  | turns + 1, c =>
    match c.step with
    | .next c => run turns c
    | .returned _ printed => some printed

def start (input : Bytes) : Config := ⟨[0], [], none, none, 0, input, []⟩

end Config

def yyparse (turns : ℕ) (input : Bytes) : Option (List Bytes) :=
  Config.run turns (.start input)

end BuildYourOwnStuff.SimpleParsing
