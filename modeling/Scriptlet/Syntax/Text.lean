import Scriptlet.Syntax.Tree

/-!
# Trees as text

Trees are shown in parentheses with the operator first, as in `(+ 1 (* 2 3))`.
-/

namespace Scriptlet

namespace Expr

def text : Expr → String
  | literal value => value.text
  | grouping inner => "(group " ++ inner.text ++ ")"
  | unary op operand => "(" ++ op.lexeme ++ " " ++ operand.text ++ ")"
  | binary left op right => "(" ++ op.lexeme ++ " " ++ left.text ++ " " ++ right.text ++ ")"
  | ref name => name.lexeme
  | assign name value => "(= " ++ name.lexeme ++ " " ++ value.text ++ ")"

end Expr

namespace Stmt

mutual

def text : Stmt → String
  | expr e => "(; " ++ e.text ++ ")"
  | print _ e => "(print " ++ e.text ++ ")"
  | declare name none => "(var " ++ name.lexeme ++ ")"
  | declare name (some e) => "(var " ++ name.lexeme ++ " = " ++ e.text ++ ")"
  | block body => "(block" ++ textAll body ++ ")"
  | ifThen condition yes => "(if " ++ condition.text ++ " " ++ yes.text ++ ")"
  | ifElse condition yes no =>
    "(if " ++ condition.text ++ " " ++ yes.text ++ " " ++ no.text ++ ")"
  | whileDo condition body => "(while " ++ condition.text ++ " " ++ body.text ++ ")"

/-- Statements in a row, each after a blank. -/
def textAll : List Stmt → String
  | [] => ""
  | s :: rest => " " ++ s.text ++ textAll rest

end

end Stmt
end Scriptlet
