import BuildYourOwnStuff.JavaStd.Doubles

/-!
# Tokens
-/

namespace BuildYourOwnStuff.Jlox

open JavaStd

inductive TokenType
  -- single character tokens
  | LEFT_PAREN | RIGHT_PAREN | LEFT_BRACE | RIGHT_BRACE | COMMA | DOT | MINUS | PLUS | SEMICOLON
  | SLASH | STAR
  -- one or two character tokens
  | BANG | BANG_EQUAL | EQUAL | EQUAL_EQUAL | GREATER | GREATER_EQUAL | LESS | LESS_EQUAL
  -- literals
  | IDENTIFIER | STRING | NUMBER
  -- keywords
  | AND | CLASS | ELSE | FALSE | FUN | FOR | IF | NIL | OR | PRINT | RETURN | SUPER | THIS | TRUE
  | VAR | WHILE
  | EOF
  deriving DecidableEq, Repr

/-- The objects that are literals of tokens. -/
inductive Literal
  | null
  | string (value : JString)
  | number (value : Double)
  deriving DecidableEq, Repr

structure Token where
  type : TokenType
  lexeme : JString
  literal : Literal
  line : ℕ
  deriving DecidableEq, Repr

/-- The reserved words. -/
def keywords : List (JString × TokenType) :=
  [(str "and", .AND), (str "class", .CLASS), (str "else", .ELSE), (str "false", .FALSE),
    (str "for", .FOR), (str "fun", .FUN), (str "if", .IF), (str "nil", .NIL), (str "or", .OR),
    (str "print", .PRINT), (str "return", .RETURN), (str "super", .SUPER), (str "this", .THIS),
    (str "true", .TRUE), (str "var", .VAR), (str "while", .WHILE)]

end BuildYourOwnStuff.Jlox
