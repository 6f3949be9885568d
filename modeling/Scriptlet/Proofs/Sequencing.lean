import Mathlib.Tactic.Lemma
import Scriptlet.Execution

/-!
# Executing one after the other

A loop is its condition, its body and the loop with one round less; a list of statements is
executed part by part. Renaming the errors of the parts renames those of the whole.
-/

namespace Scriptlet
open EStateM (adaptExcept)

section errors
variable {ε ε' σ α β : Type} (f : ε → ε')

lemma bind_eq_adaptExcept {x : EStateM ε σ α} {y : EStateM ε' σ α} {next : α → EStateM ε σ β}
    {next' : α → EStateM ε' σ β} (h : y = adaptExcept f x)
    (hnext : ∀ a, next' a = adaptExcept f (next a)) :
    y >>= next' = adaptExcept f (x >>= next) := by
  rw [h, funext hnext]
  funext s
  simp only [adaptExcept, bind, EStateM.bind]
  cases x s <;> rfl

lemma ite_eq_adaptExcept {b : Bool} {x x' : EStateM ε σ α} {y y' : EStateM ε' σ α}
    (h : y = adaptExcept f x) (h' : y' = adaptExcept f x') :
    (if b then y else y') = adaptExcept f (if b then x else x') := by
  rw [h, h']
  cases b <;> rfl

end errors

lemma Exec.inScope_adaptExcept (f : Halt → Halt) (act : Exec Unit) :
    inScope (adaptExcept f act) = adaptExcept f (inScope act) := by
  funext m
  simp only [inScope, adaptExcept]
  cases act { m with env := m.env.nest } <;> rfl

lemma Exec.loop_succ (condition : Expr) (act : Exec Unit) (n : Nat) :
    loop condition act (n + 1) = (evaluate condition >>= fun value =>
      if value.isTruthy then act >>= fun _ => loop condition act n else pure () : Exec Unit) := by
  funext m
  rw [loop]
  simp only [bind, EStateM.bind]
  cases evaluate condition m with
  | error halt m' => rfl
  | ok value m' =>
    by_cases hv : value.isTruthy
    · simp only [hv, if_true, EStateM.bind]
      cases act m' <;> rfl
    · simp only [hv]
      rfl

namespace Stmt

lemma execAll_singleton (n : Nat) (s : Stmt) : execAll n [s] = s.exec n :=
  bind_pure_unit

lemma execAll_append (n : Nat) (xs ys : List Stmt) :
    execAll n (xs ++ ys) = (do execAll n xs; execAll n ys) := by
  induction xs with
  | nil => rfl
  | cons s rest ih =>
    rw [List.cons_append, execAll, execAll, ih]
    funext m
    simp only [bind, EStateM.bind]
    cases s.exec n m <;> rfl

end Stmt
end Scriptlet
