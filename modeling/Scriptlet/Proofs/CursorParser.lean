import Scriptlet.Syntax.Program

/-!
# A parser with a cursor

The grammar takes tokens off the front of a list. Here the same language is parsed with a cursor
that moves through one list of tokens, ends of input and all: each step looks at the token under the
cursor or at the one before it, the cursor stays where it is at an end of input, and binary
operators are read by climbing from one precedence to the next.

Nothing below promises that a token that is looked at is there, or that a loop ends. A walk that
looks beside the tokens has no result, nor has one in which a loop is not over after as many rounds
as it is given.
-/

namespace Scriptlet

/-- The parts of the parser whose calls are written down. -/
inductive Part where
  | item | declaration | statement | conditional | loop | block
  | expression | operations | operand | recovery
  deriving DecidableEq

/-- A call of a part, with the place of the cursor when it began and when it returned. -/
structure Visit where
  part : Part
  entered : Nat
  left : Nat
  deriving DecidableEq

structure Cursor where
  tokens : List Token
  place : Nat
  errors : List SyntaxError
  visits : List Visit

/-- A step of the cursor, or none. -/
abbrev Walk : Type → Type := StateT Cursor Option

/-- A walk that a syntax error may stop, behind which the cursor stands where it was stopped. -/
abbrev Attempt : Type → Type := ExceptT SyntaxError Walk

namespace Walk
variable {α : Type}

/-- The token under the cursor. -/
def peek : Walk Token := fun c =>
  c.tokens[min c.place (c.tokens.length - 1)]?.map (·, c)

/-- The token before the cursor. -/
def previous : Walk Token := fun c =>
  c.tokens[c.place - 1]?.map (·, c)

def atEnd : Walk Bool := do
  let t ← peek
  return t.kind == .endOfInput

def check (kind : TokenKind) : Walk Bool := do
  if ← atEnd then return false
  else
    let t ← peek
    return t.kind == kind

def moveOn : Walk Unit := modify fun c => { c with place := c.place + 1 }

/-- Moves behind the token under the cursor, but never behind an end of input. -/
def advance : Walk Token := do
  if ← atEnd then previous
  else
    moveOn
    previous

def accept (kind : TokenKind) : Walk (Option Token) := do
  if ← check kind then
    let t ← advance
    return some t
  else return none

def report (error : SyntaxError) : Walk Unit :=
  modify fun c => { c with errors := c.errors ++ [error] }

/-- The same walk, with the call that made it. -/
def called (part : Part) (walk : Walk α) : Walk α := do
  let before ← get
  let a ← walk
  modify fun c => { c with visits := c.visits ++ [⟨part, before.place, c.place⟩] }
  return a

/-- A loop that has no round left. -/
def endless : Walk α := fun _ => none

/-- Skips tokens to just after a `;` or just before a keyword that starts a statement. -/
def skip (rounds : Nat) : Walk Unit :=
  match rounds with
  | 0 => endless
  | rounds + 1 => do
    if ← atEnd then return ()
    else
      let before ← previous
      let next ← peek
      if before.kind = .symbol .semicolon ∨ next.kind.startsStatement then return ()
      else
        let _ ← advance
        skip rounds

def synchronize (rounds : Nat) : Walk Unit :=
  called .recovery do
    let _ ← advance
    skip rounds

/-- Items up to where `closed` holds. -/
def items (closed : Walk Bool) (item : Walk (Option Stmt)) (rounds : Nat) : Walk (List Stmt) :=
  match rounds with
  | 0 => endless
  | rounds + 1 => do
    if ← closed then return []
    else
      let first ← item
      let others ← items closed item rounds
      return first.toList ++ others

end Walk

namespace Attempt
open Walk
variable {α : Type}

/-- A fault is blamed on the token under the cursor. -/
def fail (fault : SyntaxFault) : Attempt α := do
  let t ← peek
  throw ⟨fault, t⟩

def tooDeep : Attempt α := fail .tooMuchNesting

def expect (kind : TokenKind) (fault : SyntaxFault) : Attempt Token := do
  if ← check kind then advance else fail fault

def onFront (choose : Token → Option (Attempt α)) (otherwise : Attempt α) : Attempt α := do
  let t ← peek
  match choose t with
  | some p =>
    let _ ← advance
    p
  | none => otherwise

def called (part : Part) (p : Attempt α) : Attempt α := ExceptT.mk (Walk.called part p.run)

def operandFrom (operandBelow exprBelow : Attempt Expr) (t : Token) : Option (Attempt Expr) :=
  match t.kind with
  | .symbol .bang | .symbol .minus => some do
    let operand ← operandBelow
    return .unary t operand
  | .symbol .leftParen => some do
    let inner ← exprBelow
    let _ ← expect (.symbol .rightParen) .expectedClosingParen
    return .grouping inner
  | .keyword .kwFalse => some (pure (.literal (.bool false)))
  | .keyword .kwTrue => some (pure (.literal (.bool true)))
  | .keyword .kwNil => some (pure (.literal .nil))
  | .number | .string => some (pure (.literal (t.literal.getD .nil)))
  | .identifier => some (pure (.ref t))
  | _ => none

def operandOver (operandBelow exprBelow : Attempt Expr) : Attempt Expr :=
  called .operand (onFront (operandFrom operandBelow exprBelow) (fail .expectedExpression))

/-- The operators that follow and bind at least as tightly as `least`. The right operand of each is
all that binds tighter than it. -/
def climbFrom (operand : Attempt Expr) (rounds least : Nat) (left : Expr) : Attempt Expr :=
  match rounds with
  | 0 => Walk.endless
  | rounds + 1 => do
    let t ← peek
    match t.kind.precedence? with
    | none => return left
    | some p =>
      if p < least then return left
      else
        let op ← advance
        let first ← operand
        let right ← climbFrom operand rounds (p + 1) first
        climbFrom operand rounds least (.binary left op right)

def climb (operand : Attempt Expr) (rounds least : Nat) : Attempt Expr := do
  let first ← operand
  climbFrom operand rounds least first

def assignment (target : Expr) (equals : Token) (value : Expr) : Attempt Expr :=
  match target with
  | .ref name => return .assign name value
  | _ => do
    report ⟨.invalidTarget, equals⟩
    return target

def exprOver (rounds : Nat) (operandBelow exprBelow : Attempt Expr) : Attempt Expr :=
  called .expression do
    let left ← called .operations (climb (operandOver operandBelow exprBelow) rounds 0)
    match ← accept (.symbol .equal) with
    | none => return left
    | some equals =>
      let value ← exprBelow
      assignment left equals value

mutual

def operand (rounds levels : Nat) : Attempt Expr :=
  match levels with
  | 0 => tooDeep
  | n + 1 => operandOver (operand rounds n) (expr rounds n)

def expr (rounds levels : Nat) : Attempt Expr :=
  match levels with
  | 0 => tooDeep
  | n + 1 => exprOver rounds (operand rounds n) (expr rounds n)

end

def initializer (expr : Attempt Expr) : Attempt (Option Expr) := do
  match ← accept (.symbol .equal) with
  | none => return none
  | some _ =>
    let e ← expr
    return some e

def declarationRest (expr : Attempt Expr) : Attempt Stmt :=
  called .declaration do
    let name ← expect .identifier .expectedVariableName
    let init ← initializer expr
    let _ ← expect (.symbol .semicolon) .expectedSemicolonAfterDeclaration
    return .declare name init

def ifRest (expr : Attempt Expr) (branch : Attempt Stmt) : Attempt Stmt :=
  called .conditional do
    let _ ← expect (.symbol .leftParen) .expectedParenAfterIf
    let condition ← expr
    let _ ← expect (.symbol .rightParen) .expectedParenAfterIfCondition
    let yes ← branch
    match ← accept (.keyword .kwElse) with
    | none => return .ifThen condition yes
    | some _ =>
      let no ← branch
      return .ifElse condition yes no

def whileRest (expr : Attempt Expr) (body : Attempt Stmt) : Attempt Stmt :=
  called .loop do
    let _ ← expect (.symbol .leftParen) .expectedParenAfterWhile
    let condition ← expr
    let _ ← expect (.symbol .rightParen) .expectedParenAfterWhileCondition
    let body ← body
    return .whileDo condition body

def printRest (keyword : Token) (expr : Attempt Expr) : Attempt Stmt := do
  let e ← expr
  let _ ← expect (.symbol .semicolon) .expectedSemicolonAfterValue
  return .print keyword e

def expressionStatement (expr : Attempt Expr) : Attempt Stmt := do
  let e ← expr
  let _ ← expect (.symbol .semicolon) .expectedSemicolonAfterExpression
  return .expr e

def statementOver (expr : Attempt Expr) (branch : Attempt Stmt) (body : Attempt (List Stmt)) :
    Attempt Stmt :=
  called .statement <| onFront
    (fun t =>
      match t.kind with
      | .keyword .kwIf => some (ifRest expr branch)
      | .keyword .kwWhile => some (whileRest expr branch)
      | .keyword .kwPrint => some (printRest t expr)
      | .symbol .leftBrace => some do
        let body ← body
        return .block body
      | _ => none)
    (expressionStatement expr)

/-- A statement that was stopped is reported and skipped. -/
def recoverFrom (rounds : Nat) : Except SyntaxError Stmt → Walk (Option Stmt)
  | .ok s => return some s
  | .error error => do
    report error
    synchronize rounds
    return none

def recovering (rounds : Nat) (p : Attempt Stmt) : Walk (Option Stmt) := do
  let outcome ← p.run
  recoverFrom rounds outcome

def itemOver (rounds : Nat) (expr : Attempt Expr) (statement : Attempt Stmt) :
    Walk (Option Stmt) :=
  Walk.called .item <| recovering rounds <| onFront
    (fun t => if t.kind = .keyword .kwVar then some (declarationRest expr) else none)
    statement

def atBlockEnd : Walk Bool := do
  if ← check (.symbol .rightBrace) then return true else atEnd

def blockOver (rounds : Nat) (item : Walk (Option Stmt)) : Attempt (List Stmt) :=
  called .block do
    let body ← items atBlockEnd item rounds
    let _ ← expect (.symbol .rightBrace) .expectedClosingBrace
    return body

mutual

def statement (rounds levels : Nat) : Attempt Stmt :=
  match levels with
  | 0 => tooDeep
  | n + 1 => statementOver (expr rounds (n + 1)) (statement rounds n) (blockRest rounds n)

def blockRest (rounds levels : Nat) : Attempt (List Stmt) :=
  match levels with
  | 0 => tooDeep
  | n + 1 =>
    blockOver rounds (itemOver rounds (expr rounds (n + 1))
      (statementOver (expr rounds (n + 1)) (statement rounds n) (blockRest rounds n)))

end

def item (rounds levels : Nat) : Walk (Option Stmt) :=
  itemOver rounds (expr rounds levels) (statement rounds levels)

end Attempt

/-- Tokens whose last one is an end of input; where it is missing, one on the line of the last token
is put behind them. -/
def closedWithEnd (tokens : List Token) : List Token :=
  match tokens.getLast? with
  | some last =>
    if last.kind = .endOfInput then tokens else tokens ++ [.endOfInput last.line]
  | none => [.endOfInput 1]

def walkProgram (rounds : Nat) : Walk (List Stmt) :=
  Walk.items Walk.atEnd (Attempt.item rounds (maxNesting + 1)) rounds

/-- Parses by walking through all of the tokens, and hands over the calls that were made. -/
def parseWalking (rounds : Nat) (tokens : List Token) : Option (Parsed × List Visit) :=
  (walkProgram rounds ⟨closedWithEnd tokens, 0, [], []⟩).map fun (statements, c) =>
    (⟨statements, c.errors⟩, c.visits)

end Scriptlet
