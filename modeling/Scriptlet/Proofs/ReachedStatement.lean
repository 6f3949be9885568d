import Scriptlet.Proofs.Sequencing

/-!
# Statements that a run comes to

While statements are executed, their parts are executed one after the other, each starting on
some machine. A run comes to a part when everything before it was done without an error and the
conditions around it held.
-/

namespace Scriptlet
namespace Stmt

mutual

/-- Executing the statement on the first machine comes to executing the other statement on the
other machine. -/
inductive Reaches (rounds : Nat) : Stmt → Machine → Stmt → Machine → Prop where
  | self {s : Stmt} {m : Machine} : Reaches rounds s m s m
  | block {body : List Stmt} {m : Machine} {s' : Stmt} {m' : Machine}
      (h : ReachesAll rounds body { m with env := m.env.nest } s' m') :
      Reaches rounds (.block body) m s' m'
  | ifThen {condition : Expr} {yes : Stmt} {m m₁ : Machine} {value : Value} {s' : Stmt} {m' : Machine}
      (hc : Exec.evaluate condition m = .ok value m₁) (hv : value.isTruthy)
      (h : Reaches rounds yes m₁ s' m') : Reaches rounds (.ifThen condition yes) m s' m'
  | ifElse {condition : Expr} {yes no : Stmt} {m m₁ : Machine} {value : Value} {s' : Stmt}
      {m' : Machine} (hc : Exec.evaluate condition m = .ok value m₁)
      (h : Reaches rounds (if value.isTruthy then yes else no) m₁ s' m') :
      Reaches rounds (.ifElse condition yes no) m s' m'
  | whileDo {condition : Expr} {body : Stmt} {m : Machine} {s' : Stmt} {m' : Machine}
      (h : ReachesLoop rounds condition body rounds m s' m') :
      Reaches rounds (.whileDo condition body) m s' m'

inductive ReachesAll (rounds : Nat) : List Stmt → Machine → Stmt → Machine → Prop where
  | head {s : Stmt} {rest : List Stmt} {m : Machine} {s' : Stmt} {m' : Machine}
      (h : Reaches rounds s m s' m') : ReachesAll rounds (s :: rest) m s' m'
  | tail {s : Stmt} {rest : List Stmt} {m m₁ : Machine} {s' : Stmt} {m' : Machine}
      (hs : s.exec rounds m = .ok () m₁) (h : ReachesAll rounds rest m₁ s' m') :
      ReachesAll rounds (s :: rest) m s' m'

/-- The same for a loop that may test its condition a number of times. -/
inductive ReachesLoop (rounds : Nat) : Expr → Stmt → Nat → Machine → Stmt → Machine → Prop where
  | now {condition : Expr} {body : Stmt} {n : Nat} {m m₁ : Machine} {value : Value} {s' : Stmt}
      {m' : Machine} (hc : Exec.evaluate condition m = .ok value m₁) (hv : value.isTruthy)
      (h : Reaches rounds body m₁ s' m') : ReachesLoop rounds condition body (n + 1) m s' m'
  | later {condition : Expr} {body : Stmt} {n : Nat} {m m₁ m₂ : Machine} {value : Value} {s' : Stmt}
      {m' : Machine} (hc : Exec.evaluate condition m = .ok value m₁) (hv : value.isTruthy)
      (hb : body.exec rounds m₁ = .ok () m₂) (h : ReachesLoop rounds condition body n m₂ s' m') :
      ReachesLoop rounds condition body (n + 1) m s' m'

end

end Stmt
end Scriptlet
