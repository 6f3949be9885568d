import Scriptlet.Environment
import Scriptlet.Syntax.Tree

/-!
# Evaluation of expressions

Evaluating an expression gives a value or the first runtime error, from left to right. What was
assigned before an error stays assigned.
-/

namespace Scriptlet

inductive RuntimeFault where
  | operandNotNumber
  | operandsNotNumbers
  | operandsNotAddable
  | undefinedVariable
  | unsupportedOperator
  | refusedOutput (reason : String)
  deriving DecidableEq, Repr

structure RuntimeError where
  fault : RuntimeFault
  token : Token
  deriving DecidableEq

def RuntimeError.message (e : RuntimeError) : String :=
  match e.fault with
  | .operandNotNumber => "operand must be a number."
  | .operandsNotNumbers => "operands must be numbers."
  | .operandsNotAddable => "operands must be two numbers or two strings."
  | .undefinedVariable => "undefined variable '" ++ e.token.lexeme ++ "'."
  | .unsupportedOperator => "unsupported operator '" ++ e.token.lexeme ++ "'."
  | .refusedOutput reason => "failed to write output: " ++ reason ++ "."

/-- A computation on an environment that may stop with a runtime error. -/
abbrev Eval := EStateM RuntimeError Environment

namespace Environment

def lookup (name : Token) : Eval Value := fun env =>
  match env.get? name.lexeme with
  | some value => .ok value env
  | none => .error ⟨.undefinedVariable, name⟩ env

def assign (name : Token) (value : Value) : Eval Unit := fun env =>
  match env.assign? name.lexeme value with
  | some env' => .ok () env'
  | none => .error ⟨.undefinedVariable, name⟩ env

end Environment

namespace Value

def applyUnary (op : Token) (operand : Value) : Except RuntimeError Value :=
  match op.kind with
  | .symbol .minus =>
    match operand with
    | number x => .ok (number (-x))
    | _ => .error ⟨.operandNotNumber, op⟩
  | .symbol .bang => .ok (bool (!operand.isTruthy))
  | _ => .error ⟨.unsupportedOperator, op⟩

/-- Applies a function to operands that have to be numbers. -/
def onNumbers (op : Token) (f : Float → Float → Value) (left right : Value) :
    Except RuntimeError Value :=
  match left, right with
  | number x, number y => .ok (f x y)
  | _, _ => .error ⟨.operandsNotNumbers, op⟩

/-- Adds numbers and joins strings. -/
def add (op : Token) (left right : Value) : Except RuntimeError Value :=
  match left, right with
  | number x, number y => .ok (number (x + y))
  | string s, string t => .ok (string (s ++ t))
  | _, _ => .error ⟨.operandsNotAddable, op⟩

def applyBinary (op : Token) (left right : Value) : Except RuntimeError Value :=
  match op.kind with
  | .symbol .plus => add op left right
  | .symbol .minus => onNumbers op (fun x y => number (x - y)) left right
  | .symbol .star => onNumbers op (fun x y => number (x * y)) left right
  | .symbol .slash => onNumbers op (fun x y => number (x / y)) left right
  | .symbol .greater => onNumbers op (fun x y => bool (x > y)) left right
  | .symbol .greaterEqual => onNumbers op (fun x y => bool (x ≥ y)) left right
  | .symbol .less => onNumbers op (fun x y => bool (x < y)) left right
  | .symbol .lessEqual => onNumbers op (fun x y => bool (x ≤ y)) left right
  | .symbol .equalEqual => .ok (bool (equal left right))
  | .symbol .bangEqual => .ok (bool (!equal left right))
  | _ => .error ⟨.unsupportedOperator, op⟩

end Value

def Expr.eval : Expr → Eval Value
  | .literal value => pure value
  | .grouping inner => inner.eval
  | .unary op operand => do
    let value ← operand.eval
    liftExcept (Value.applyUnary op value)
  | .binary left op right => do
    let x ← left.eval
    let y ← right.eval
    liftExcept (Value.applyBinary op x y)
  | .ref name => Environment.lookup name
  | .assign name e => do
    let value ← e.eval
    Environment.assign name value
    return value
where
  liftExcept (r : Except RuntimeError Value) : Eval Value := fun env =>
    match r with
    | .ok value => .ok value env
    | .error e => .error e env

end Scriptlet
