import Scriptlet.Syntax.Tree
import Scriptlet.Syntax.Reading

/-!
# The grammar

Parsers for expressions and statements. Each takes the number of levels that it may nest: a
grouping, the operand of a unary operator, the value of an assignment, the body of a block, a
branch and the body of a loop are read with one level less, and with none left nothing can be
read. Binary operators cost no level.

A statement that cannot be read is skipped and its fault reported, so that one pass reports
the faults of all statements.
-/

namespace Scriptlet

/-- Hangs an operator and its right operand into a tree: below the operators on its right edge
that bind looser, above the others. Operators of one precedence thus group to the left. -/
def Expr.attach (e : Expr) (op : Token) (right : Expr) : Expr :=
  match e with
  | .binary l o r =>
    if o.kind.precedence?.getD 0 < op.kind.precedence?.getD 0 then .binary l o (r.attach op right)
    else .binary e op right
  | _ => .binary e op right

namespace Grammar

def tooDeep {α : Type} : Parser α := .fail .tooMuchNesting

/-- An operand that begins with the token `t`, if one can. -/
def operandFrom (operandBelow exprBelow : Parser Expr) (t : Token) : Option (Parser Expr) :=
  match t.kind with
  | .symbol .bang | .symbol .minus => some do
    let operand ← operandBelow
    return .unary t operand
  | .symbol .leftParen => some do
    let inner ← exprBelow
    let _ ← Parser.expect (.symbol .rightParen) .expectedClosingParen
    return .grouping inner
  | .keyword .kwFalse => some (.succeed (.literal (.bool false)))
  | .keyword .kwTrue => some (.succeed (.literal (.bool true)))
  | .keyword .kwNil => some (.succeed (.literal .nil))
  | .number | .string => some (.succeed (.literal (t.literal.getD .nil)))
  | .identifier => some (.succeed (.ref t))
  | _ => none

def operandOver (operandBelow exprBelow : Parser Expr) : Parser Expr :=
  .onFront (operandFrom operandBelow exprBelow) (.fail .expectedExpression)

/-- Binary operators and their right operands, as many as follow, attached to `left`. -/
def operations (operand : Parser Expr) (left : Expr) (ts : List Token) :
    Reading (Except SyntaxFault Expr) :=
  match ts with
  | [] => ⟨.ok left, 0, []⟩
  | op :: rest =>
    if op.kind.precedence?.isSome then
      let r := operand rest
      match r.value with
      | .error fault => ⟨.error fault, 1 + r.used, r.reported⟩
      | .ok right =>
        let s := operations operand (left.attach op right) (rest.drop r.used)
        ⟨s.value, 1 + r.used + s.used, r.reported ++ s.reported⟩
    else ⟨.ok left, 0, []⟩
termination_by ts.length
decreasing_by
  simp only [List.length_drop, List.length_cons]
  omega

/-- Only a bare name can be assigned to. Any other target is reported and the assignment dropped
from the tree. -/
def assignment (target : Expr) (equals : Token) (value : Expr) : Parser Expr :=
  match target with
  | .ref name => .succeed (.assign name value)
  | _ => do
    Parser.report .invalidTarget equals
    return target

def exprOver (operandBelow exprBelow : Parser Expr) : Parser Expr := do
  let operand := operandOver operandBelow exprBelow
  let first ← operand
  let left ← (operations operand first : Parser Expr)
  match ← Parser.accept (.symbol .equal) with
  | none => return left
  | some equals =>
    let value ← exprBelow
    assignment left equals value

mutual

/-- A literal, a name, a grouping, or a unary operator with its operand. -/
def operand (levels : Nat) (ts : List Token) : Reading (Except SyntaxFault Expr) :=
  match levels with
  | 0 => tooDeep ts
  | n + 1 => operandOver (operand n) (expr n) ts

def expr (levels : Nat) (ts : List Token) : Reading (Except SyntaxFault Expr) :=
  match levels with
  | 0 => tooDeep ts
  | n + 1 => exprOver (operand n) (expr n) ts

end

/-- An expression after `=`, which may be left out. -/
def initializer (expr : Parser Expr) : Parser (Option Expr) := do
  match ← Parser.accept (.symbol .equal) with
  | none => return none
  | some _ => return some (← expr)

/-- The rest of a declaration after `var`. -/
def declarationRest (expr : Parser Expr) : Parser Stmt := do
  let name ← Parser.expect .identifier .expectedVariableName
  let init ← initializer expr
  let _ ← Parser.expect (.symbol .semicolon) .expectedSemicolonAfterDeclaration
  return .declare name init

/-- The rest of a conditional after `if`. An `else` belongs to the nearest `if`. -/
def ifRest (expr : Parser Expr) (branch : Parser Stmt) : Parser Stmt := do
  let _ ← Parser.expect (.symbol .leftParen) .expectedParenAfterIf
  let condition ← expr
  let _ ← Parser.expect (.symbol .rightParen) .expectedParenAfterIfCondition
  let yes ← branch
  match ← Parser.accept (.keyword .kwElse) with
  | none => return .ifThen condition yes
  | some _ => return .ifElse condition yes (← branch)

/-- The rest of a loop after `while`. -/
def whileRest (expr : Parser Expr) (body : Parser Stmt) : Parser Stmt := do
  let _ ← Parser.expect (.symbol .leftParen) .expectedParenAfterWhile
  let condition ← expr
  let _ ← Parser.expect (.symbol .rightParen) .expectedParenAfterWhileCondition
  return .whileDo condition (← body)

def printRest (keyword : Token) (expr : Parser Expr) : Parser Stmt := do
  let e ← expr
  let _ ← Parser.expect (.symbol .semicolon) .expectedSemicolonAfterValue
  return .print keyword e

def expressionStatement (expr : Parser Expr) : Parser Stmt := do
  let e ← expr
  let _ ← Parser.expect (.symbol .semicolon) .expectedSemicolonAfterExpression
  return .expr e

def statementOver (expr : Parser Expr) (branch : Parser Stmt) (body : Parser (List Stmt)) :
    Parser Stmt :=
  .onFront
    (fun t =>
      match t.kind with
      | .keyword .kwIf => some (ifRest expr branch)
      | .keyword .kwWhile => some (whileRest expr branch)
      | .keyword .kwPrint => some (printRest t expr)
      | .symbol .leftBrace => some (.block <$> body)
      | _ => none)
    (expressionStatement expr)

/-- How many tokens are skipped after a fault: one, and on to just after a `;` or just before a
keyword that starts a statement. -/
def skipped : List Token → Nat
  | [] => 0
  | [_] => 1
  | t :: u :: rest =>
    if t.kind = .symbol .semicolon ∨ u.kind.startsStatement then 1 else skipped (u :: rest) + 1

/-- Reads a statement, or reports why it cannot be read and skips it. -/
def recovering (p : Parser Stmt) (ts : List Token) : Reading (Option Stmt) :=
  let r := p ts
  match r.value with
  | .ok s => ⟨some s, r.used, r.reported⟩
  | .error fault =>
    let rest := ts.drop r.used
    ⟨none, r.used + skipped rest, r.reported ++ [⟨fault, rest.head?⟩]⟩

/-- What may stand in a block or at top level: a declaration or a statement. -/
def itemOver (expr : Parser Expr) (statement : Parser Stmt) : List Token → Reading (Option Stmt) :=
  recovering <| .onFront
    (fun t => if t.kind = .keyword .kwVar then some (declarationRest expr) else none)
    statement

/-- Items up to a token at which `closes` holds, or to the end. An item uses its first token
in any case. -/
def items (closes : Token → Bool) (item : List Token → Reading (Option Stmt)) (ts : List Token) :
    Reading (List Stmt) :=
  match ts with
  | [] => ⟨[], 0, []⟩
  | t :: rest =>
    if closes t then ⟨[], 0, []⟩
    else
      let r := item (t :: rest)
      let s := items closes item (rest.drop (r.used - 1))
      ⟨r.value.toList ++ s.value, r.used + s.used, r.reported ++ s.reported⟩
termination_by ts.length
decreasing_by
  simp only [List.length_drop, List.length_cons]
  omega

/-- The rest of a block after its opening brace. -/
def blockOver (item : List Token → Reading (Option Stmt)) : Parser (List Stmt) := do
  let body ← Parser.always (items (·.kind == .symbol .rightBrace) item)
  let _ ← Parser.expect (.symbol .rightBrace) .expectedClosingBrace
  return body

mutual

def statement (levels : Nat) (ts : List Token) : Reading (Except SyntaxFault Stmt) :=
  match levels with
  | 0 => tooDeep ts
  | n + 1 => statementOver (expr (n + 1)) (statement n) (blockRest n) ts

def blockRest (levels : Nat) (ts : List Token) : Reading (Except SyntaxFault (List Stmt)) :=
  match levels with
  | 0 => tooDeep ts
  | n + 1 =>
    blockOver
      (itemOver (expr (n + 1)) (statementOver (expr (n + 1)) (statement n) (blockRest n))) ts

end

def item (levels : Nat) (ts : List Token) : Reading (Option Stmt) :=
  itemOver (expr levels) (statement levels) ts

theorem blockRest_succ (n : Nat) (ts : List Token) :
    blockRest (n + 1) ts = blockOver (item (n + 1)) ts := by
  rw [blockRest]
  congr 1

end Grammar
end Scriptlet
