import Scriptlet.Syntax.Grammar

/-!
# Programs

A program is what stands before the first end-of-input token, read to its end. Statements that
can be read are kept even when others cannot.
-/

namespace Scriptlet

/-- How deep groupings, unary operands, assigned values, blocks, branches and loop bodies may
lie in each other. -/
def maxNesting : Nat := 128

structure SyntaxError where
  fault : SyntaxFault
  token : Token
  deriving DecidableEq

/-- A complaint about the end of input is blamed on the token that marks it. -/
def Complaint.resolve (endToken : Token) (c : Complaint) : SyntaxError :=
  ⟨c.fault, c.blamed.getD endToken⟩

structure Parsed where
  statements : List Stmt
  errors : List SyntaxError

/-- The first end-of-input token; where there is none, one on the line of the last token. -/
def endToken (tokens : List Token) : Token :=
  (tokens.find? (·.kind == .endOfInput)).getD
    (.endOfInput ((tokens.getLast?.map Token.line).getD 1))

/-- The tokens before the first end of input. -/
def beforeEnd (tokens : List Token) : List Token :=
  tokens.takeWhile (·.kind != .endOfInput)

def parse (tokens : List Token) : Parsed :=
  let r := Grammar.items (fun _ => false) (Grammar.item (maxNesting + 1)) (beforeEnd tokens)
  ⟨r.value, r.reported.map (Complaint.resolve (endToken tokens))⟩

end Scriptlet
