import Scriptlet.Token

/-!
# Syntax trees

Expressions and statements. Operators and names keep their tokens, so that errors found while
running can say where they arose.
-/

namespace Scriptlet

inductive Expr where
  | literal (value : Value)
  | grouping (inner : Expr)
  | unary (op : Token) (operand : Expr)
  | binary (left : Expr) (op : Token) (right : Expr)
  | ref (name : Token)
  | assign (name : Token) (value : Expr)
  deriving DecidableEq

inductive Stmt where
  | expr (e : Expr)
  | print (keyword : Token) (e : Expr)
  | declare (name : Token) (init : Option Expr)
  | block (body : List Stmt)
  | ifThen (condition : Expr) (yes : Stmt)
  | ifElse (condition : Expr) (yes no : Stmt)
  | whileDo (condition : Expr) (body : Stmt)

end Scriptlet
