import Scriptlet.Source.Piece

/-!
# Scanning

A scan numbers the lines of a source's pieces and sorts the pieces out: lexemes become tokens,
text that belongs to no lexeme becomes errors, blanks and comments vanish. Scanning never
fails; its tokens end with the one that marks the end of input.
-/

namespace Scriptlet

inductive ScanFault where
  | unexpected (c : Char)
  | unterminated
  deriving DecidableEq, Repr

def ScanFault.message : ScanFault → String
  | unexpected c => "unexpected character '" ++ c.toString ++ "'."
  | unterminated => "unterminated string."

structure ScanError where
  line : Nat
  fault : ScanFault
  deriving DecidableEq, Repr

structure Scanned where
  tokens : List Token
  errors : List ScanError

namespace Piece

/-- The value of a number lexeme. -/
def numberValue (text : List Char) : Float :=
  Number.ofDigits (text.takeWhile Char.isDigit) ((text.dropWhile Char.isDigit).drop 1)

/-- The value that a lexeme denotes: a number, or a string without its quotes. -/
def literal? (kind : TokenKind) (text : List Char) : Option Value :=
  match kind with
  | .number => some (.number (numberValue text))
  | .string => some (.string (String.ofList (text.drop 1).dropLast))
  | _ => none

/-- The token of a piece that ends on `line`. -/
def token? (p : Piece) (line : Nat) : Option Token :=
  match p.kind with
  | .lexeme kind => some ⟨kind, String.ofList p.text, literal? kind p.text, line⟩
  | _ => none

/-- The error of a piece that ends on `line`. -/
def error? (p : Piece) (line : Nat) : Option ScanError :=
  match p.kind, p.text with
  | .unexpected, c :: _ => some ⟨line, .unexpected c⟩
  | .unterminated, _ => some ⟨line, .unterminated⟩
  | _, _ => none

end Piece

/-- Pairs each piece with the line on which it ends, for pieces that begin on `line`. -/
def withLines (line : Nat) : List Piece → List (Piece × Nat)
  | [] => []
  | p :: ps => (p, line + p.newlines) :: withLines (line + p.newlines) ps

def scan (source : String) : Scanned :=
  let lined := withLines 1 (pieces source.toList)
  { tokens := lined.filterMap (fun (p, line) => p.token? line) ++
      [.endOfInput (1 + source.toList.count '\n')]
    errors := lined.filterMap (fun (p, line) => p.error? line) }

end Scriptlet
