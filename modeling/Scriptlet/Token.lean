import Scriptlet.Value

/-!
# Tokens

The words of the language: symbols, keywords, identifiers, strings and numbers. A token keeps
the text it was cut from and the line on which that text ends; number and string tokens also
keep the value they denote.
-/

namespace Scriptlet

/-- Punctuation and operators. -/
inductive Symbol where
  | leftParen | rightParen | leftBrace | rightBrace
  | comma | dot | minus | plus | semicolon | slash | star
  | bang | bangEqual | equal | equalEqual
  | greater | greaterEqual | less | lessEqual
  deriving DecidableEq, Repr

namespace Symbol

def spelling : Symbol → String
  | leftParen => "(" | rightParen => ")" | leftBrace => "\x7b" | rightBrace => "\x7d"
  | comma => "," | dot => "." | minus => "-" | plus => "+" | semicolon => ";"
  | slash => "/" | star => "*"
  | bang => "!" | bangEqual => "!=" | equal => "=" | equalEqual => "=="
  | greater => ">" | greaterEqual => ">=" | less => "<" | lessEqual => "<="

def name : Symbol → String
  | leftParen => "LEFT_PAREN" | rightParen => "RIGHT_PAREN"
  | leftBrace => "LEFT_BRACE" | rightBrace => "RIGHT_BRACE"
  | comma => "COMMA" | dot => "DOT" | minus => "MINUS" | plus => "PLUS"
  | semicolon => "SEMICOLON" | slash => "SLASH" | star => "STAR"
  | bang => "BANG" | bangEqual => "BANG_EQUAL" | equal => "EQUAL" | equalEqual => "EQUAL_EQUAL"
  | greater => "GREATER" | greaterEqual => "GREATER_EQUAL"
  | less => "LESS" | lessEqual => "LESS_EQUAL"

def all : List Symbol :=
  [leftParen, rightParen, leftBrace, rightBrace, comma, dot, minus, plus, semicolon, slash, star,
    bang, bangEqual, equal, equalEqual, greater, greaterEqual, less, lessEqual]

/-- How tightly a binary operator binds; a greater number binds tighter. -/
def precedence? : Symbol → Option Nat
  | star | slash => some 4
  | plus | minus => some 3
  | greater | greaterEqual | less | lessEqual => some 2
  | equalEqual | bangEqual => some 1
  | _ => none

end Symbol

/-- Reserved words, whether the grammar uses them or not. -/
inductive Keyword where
  | kwAnd | kwClass | kwElse | kwFalse | kwFun | kwFor | kwIf | kwNil | kwOr
  | kwPrint | kwReturn | kwSuper | kwThis | kwTrue | kwVar | kwWhile
  deriving DecidableEq, Repr

namespace Keyword

def spelling : Keyword → String
  | kwAnd => "and" | kwClass => "class" | kwElse => "else" | kwFalse => "false"
  | kwFun => "fun" | kwFor => "for" | kwIf => "if" | kwNil => "nil" | kwOr => "or"
  | kwPrint => "print" | kwReturn => "return" | kwSuper => "super" | kwThis => "this"
  | kwTrue => "true" | kwVar => "var" | kwWhile => "while"

def name : Keyword → String
  | kwAnd => "AND" | kwClass => "CLASS" | kwElse => "ELSE" | kwFalse => "FALSE"
  | kwFun => "FUN" | kwFor => "FOR" | kwIf => "IF" | kwNil => "NIL" | kwOr => "OR"
  | kwPrint => "PRINT" | kwReturn => "RETURN" | kwSuper => "SUPER" | kwThis => "THIS"
  | kwTrue => "TRUE" | kwVar => "VAR" | kwWhile => "WHILE"

def all : List Keyword :=
  [kwAnd, kwClass, kwElse, kwFalse, kwFun, kwFor, kwIf, kwNil, kwOr, kwPrint, kwReturn, kwSuper,
    kwThis, kwTrue, kwVar, kwWhile]

/-- The keyword spelled `word`; a change of case makes another word. -/
def ofSpelling? (word : String) : Option Keyword :=
  all.find? (fun k => k.spelling == word)

/-- The keywords before which reading resumes after an error. -/
def startsStatement : Keyword → Bool
  | kwClass | kwFun | kwVar | kwFor | kwIf | kwWhile | kwPrint | kwReturn => true
  | _ => false

end Keyword

inductive TokenKind where
  | symbol (s : Symbol)
  | keyword (k : Keyword)
  | identifier
  | string
  | number
  | endOfInput
  deriving DecidableEq, Repr

namespace TokenKind

def name : TokenKind → String
  | symbol s => s.name
  | keyword k => k.name
  | identifier => "IDENTIFIER"
  | string => "STRING"
  | number => "NUMBER"
  | endOfInput => "EOF"

def all : List TokenKind :=
  Symbol.all.map symbol ++ [identifier, string, number] ++ Keyword.all.map keyword ++ [endOfInput]

def ofName? (name : String) : Option TokenKind :=
  all.find? (fun k => k.name == name)

/-- The kind of a word that is shaped like an identifier. -/
def ofWord (word : String) : TokenKind :=
  match Keyword.ofSpelling? word with
  | some k => keyword k
  | none => identifier

def startsStatement : TokenKind → Bool
  | keyword k => k.startsStatement
  | _ => false

/-- The precedence of the kinds that are binary operators. -/
def precedence? : TokenKind → Option Nat
  | symbol s => s.precedence?
  | _ => none

end TokenKind

structure Token where
  kind : TokenKind
  lexeme : String
  literal : Option Value
  line : Nat
  deriving DecidableEq

namespace Token

/-- The token that marks the end of input on `line`. -/
def endOfInput (line : Nat) : Token := ⟨.endOfInput, "", none, line⟩

/-- A token as token listings show it: the text ends in a blank when there is no literal. -/
def text (t : Token) : String :=
  "Line " ++ toString t.line ++ ": " ++ t.kind.name ++ " " ++ t.lexeme ++ " " ++
    (t.literal.map Value.text).getD ""

end Token
end Scriptlet
