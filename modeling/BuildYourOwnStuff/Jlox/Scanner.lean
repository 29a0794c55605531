import BuildYourOwnStuff.Foundations.Loops
import BuildYourOwnStuff.Jlox.Token

/-!
# The scanner

Each method takes the scanner and returns it, or fails with the exception that the
code would throw. A loop gets as many turns as the source has characters.
-/

namespace BuildYourOwnStuff.Jlox

open JavaStd Foundations

/-- A call of `Lox.error`. -/
structure LoxError where
  line : ℕ
  message : String
  deriving DecidableEq, Repr

/-- The fields of a scanner, and the errors that it has reported. -/
structure Scanner where
  source : JString
  tokens : List Token := []
  start : ℕ := 0
  current : ℕ := 0
  line : ℕ := 1
  errors : List LoxError := []
  deriving DecidableEq, Repr

namespace Scanner

def isDigit (c : JChar) : Bool := c ≥ chr '0' && c ≤ chr '9'

def isAlpha (c : JChar) : Bool :=
  (c ≥ chr 'A' && c ≤ chr 'Z') || (c ≥ chr 'a' && c ≤ chr 'z') || c == chr '_'

def isAlphaNumeric (c : JChar) : Bool := isAlpha c || isDigit c

def isAtEnd (s : Scanner) : Bool := s.current ≥ s.source.length

def error (s : Scanner) (message : String) : Scanner :=
  { s with errors := s.errors ++ [⟨s.line, message⟩] }

def advance (s : Scanner) : Except Exception (JChar × Scanner) := do
  let s := { s with current := s.current + 1 }
  let c ← charAt s.source (s.current - 1)
  return (c, s)

def peek (s : Scanner) : Except Exception JChar :=
  if s.isAtEnd then return chr '\x00' else charAt s.source s.current

def peekNext (s : Scanner) : Except Exception JChar :=
  if s.current + 1 ≥ s.source.length then return chr '\x00' else charAt s.source (s.current + 1)

/-- The method `match`. -/
def matchNext (s : Scanner) (expected : JChar) : Except Exception (Bool × Scanner) := do
  if s.isAtEnd then return (false, s)
  if (← charAt s.source s.current) != expected then return (false, s)
  return (true, { s with current := s.current + 1 })

def addToken (s : Scanner) (type : TokenType) (literal : Literal := .null) :
    Except Exception Scanner := do
  let text ← substring s.source s.start s.current
  return { s with tokens := s.tokens ++ [⟨type, text, literal, s.line⟩] }

/-- A loop over the characters ahead. -/
def loop (s : Scanner) (cond : Scanner → Except Exception Bool)
    (body : Scanner → Except Exception Scanner) : Except Exception Scanner :=
  whileLoop cond body .unended s.source.length s

/-- `while (p(peek())) advance();` -/
def advanceWhile (p : JChar → Bool) (s : Scanner) : Except Exception Scanner :=
  s.loop (fun s => return p (← s.peek)) (fun s => return (← s.advance).2)

def identifier (s : Scanner) : Except Exception Scanner := do
  let s ← s.advanceWhile isAlphaNumeric
  let text ← substring s.source s.start s.current
  s.addToken ((keywords.lookup text).getD .IDENTIFIER)

/-- The optional part of a number from its point on. -/
def fraction (s : Scanner) : Except Exception Scanner := do
  if (← s.peek) == chr '.' then
    if isDigit (← s.peekNext) then
      let (_, s) ← s.advance
      s.advanceWhile isDigit
    else return s
  else return s

def number (s : Scanner) : Except Exception Scanner := do
  let s ← s.advanceWhile isDigit
  let s ← s.fraction
  let value ← parseDouble (← substring s.source s.start s.current)
  s.addToken .NUMBER (.number value)

/-- One turn of the loop of `string`. -/
def stringChar (s : Scanner) : Except Exception Scanner := do
  let s := if (← s.peek) == chr '\n' then { s with line := s.line + 1 } else s
  return (← s.advance).2

def string (s : Scanner) : Except Exception Scanner := do
  let s ← s.loop (fun s => return (← s.peek) != chr '"' && !s.isAtEnd) stringChar
  if s.isAtEnd then return s.error "Unterminated string."
  let (_, s) ← s.advance
  let value ← substring s.source (s.start + 1) (s.current - 1)
  s.addToken .STRING (.string value)

/-- `addToken(match('=') ? two : one)` -/
def oneOrTwo (s : Scanner) (one two : TokenType) : Except Exception Scanner := do
  let (matched, s) ← s.matchNext (chr '=')
  s.addToken (if matched then two else one)

def slash (s : Scanner) : Except Exception Scanner := do
  let (matched, s) ← s.matchNext (chr '/')
  if matched then
    s.loop (fun s => return (← s.peek) != chr '\n' && !s.isAtEnd) (fun s => return (← s.advance).2)
  else s.addToken .SLASH

/-- The `switch` of `scanToken`. -/
def switch (s : Scanner) (c : JChar) : Except Exception Scanner :=
  if c = chr '(' then s.addToken .LEFT_PAREN
  else if c = chr ')' then s.addToken .RIGHT_PAREN
  else if c = chr '{' then s.addToken .LEFT_BRACE
  else if c = chr '}' then s.addToken .RIGHT_BRACE
  else if c = chr ',' then s.addToken .COMMA
  else if c = chr '.' then s.addToken .DOT
  else if c = chr '-' then s.addToken .MINUS
  else if c = chr '+' then s.addToken .PLUS
  else if c = chr ';' then s.addToken .SEMICOLON
  else if c = chr '*' then s.addToken .STAR
  else if c = chr '!' then s.oneOrTwo .BANG .BANG_EQUAL
  else if c = chr '=' then s.oneOrTwo .EQUAL .EQUAL_EQUAL
  else if c = chr '<' then s.oneOrTwo .LESS .LESS_EQUAL
  else if c = chr '>' then s.oneOrTwo .GREATER .GREATER_EQUAL
  else if c = chr '/' then s.slash
  else if c = chr ' ' ∨ c = chr '\r' ∨ c = chr '\t' then return s
  else if c = chr '\n' then return { s with line := s.line + 1 }
  else if c = chr '"' then s.string
  else if isDigit c then s.number
  else if isAlpha c then s.identifier
  else return s.error "Unexpected character."

def scanToken (s : Scanner) : Except Exception Scanner := do
  let (c, s) ← s.advance
  s.switch c

/-- The scanner after `scanTokens`. -/
def scanTokens (source : JString) : Except Exception Scanner := do
  let s : Scanner := { source }
  let s ← s.loop (fun s => return !s.isAtEnd) (fun s => { s with start := s.current }.scanToken)
  return { s with tokens := s.tokens ++ [⟨.EOF, [], .null, s.line⟩] }

end Scanner

end BuildYourOwnStuff.Jlox
