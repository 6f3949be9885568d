import Scriptlet.Proofs.LineShift
import Scriptlet.Proofs.Sequencing

/-!
# Running lines further down

Where a statement stands in a source makes no difference but for the line that an error names.
-/

namespace Scriptlet
open EStateM (adaptExcept)

def RuntimeError.down (k : Nat) (e : RuntimeError) : RuntimeError :=
  { e with token := e.token.down k }

def Halt.down (k : Nat) : Halt → Halt
  | .error e => .error (e.down k)
  | .exhausted => .exhausted

variable (k : Nat)

lemma RuntimeError.message_down (e : RuntimeError) : (e.down k).message = e.message := by
  obtain ⟨fault, token⟩ := e
  cases fault <;> rfl

namespace Value

lemma applyUnary_down (op : Token) (v : Value) :
    applyUnary (op.down k) v = (applyUnary op v).mapError (RuntimeError.down k) := by
  unfold applyUnary
  rw [Token.kind_down]
  split
  · cases v <;> rfl
  · rfl
  · rfl

lemma onNumbers_down (op : Token) (f : Float → Float → Value) (x y : Value) :
    onNumbers (op.down k) f x y = (onNumbers op f x y).mapError (RuntimeError.down k) := by
  cases x with
  | number _ => cases y <;> rfl
  | _ => rfl

lemma add_down (op : Token) (x y : Value) :
    add (op.down k) x y = (add op x y).mapError (RuntimeError.down k) := by
  cases x with
  | number _ => cases y <;> rfl
  | string _ => cases y <;> rfl
  | _ => rfl

lemma applyBinary_down (op : Token) (x y : Value) :
    applyBinary (op.down k) x y = (applyBinary op x y).mapError (RuntimeError.down k) := by
  unfold applyBinary
  rw [Token.kind_down]
  split
  · exact add_down k op x y
  all_goals first
    | exact onNumbers_down k op _ x y
    | rfl

end Value

namespace Expr

lemma liftExcept_mapError (r : Except RuntimeError Value) :
    eval.liftExcept (r.mapError (RuntimeError.down k)) =
      adaptExcept (RuntimeError.down k) (eval.liftExcept r) := by
  funext env
  cases r <;> rfl

lemma lookup_down (name : Token) :
    Environment.lookup (name.down k) =
      adaptExcept (RuntimeError.down k) (Environment.lookup name) := by
  funext env
  simp only [Environment.lookup, adaptExcept, Token.lexeme_down]
  cases env.get? name.lexeme <;> rfl

lemma assign_down (name : Token) (v : Value) :
    Environment.assign (name.down k) v =
      adaptExcept (RuntimeError.down k) (Environment.assign name v) := by
  funext env
  simp only [Environment.assign, adaptExcept, Token.lexeme_down]
  cases env.assign? name.lexeme v <;> rfl

lemma eval_down (e : Expr) : (e.down k).eval = adaptExcept (RuntimeError.down k) e.eval := by
  induction e with
  | literal v => rfl
  | grouping e ih => exact ih
  | unary op e ih =>
    rw [down, eval, eval]
    apply bind_eq_adaptExcept _ ih
    intro v
    rw [Value.applyUnary_down, liftExcept_mapError]
  | binary l op r ihl ihr =>
    rw [down, eval, eval]
    apply bind_eq_adaptExcept _ ihl
    intro x
    apply bind_eq_adaptExcept _ ihr
    intro y
    rw [Value.applyBinary_down, liftExcept_mapError]
  | ref name => exact lookup_down k name
  | assign name e ih =>
    rw [down, eval, eval]
    apply bind_eq_adaptExcept _ ih
    intro v
    exact bind_eq_adaptExcept _ (assign_down k name v) (fun _ => rfl)

end Expr

namespace Exec

lemma evaluate_down (e : Expr) : evaluate (e.down k) = adaptExcept (Halt.down k) (evaluate e) := by
  funext m
  simp only [evaluate, adaptExcept, Expr.eval_down]
  cases e.eval m.env <;> rfl

lemma write_down (keyword : Token) (v : Value) :
    write (keyword.down k) v = adaptExcept (Halt.down k) (write keyword v) := by
  funext m
  simp only [write, adaptExcept]
  split <;> rfl

lemma loop_down (condition : Expr) (act : Exec Unit) (rounds : Nat) :
    loop (condition.down k) (adaptExcept (Halt.down k) act) rounds =
      adaptExcept (Halt.down k) (loop condition act rounds) := by
  induction rounds with
  | zero => rfl
  | succ n ih =>
    rw [loop_succ, loop_succ]
    apply bind_eq_adaptExcept _ (evaluate_down k condition)
    intro v
    exact ite_eq_adaptExcept _ (bind_eq_adaptExcept _ rfl (fun _ => ih)) rfl

end Exec

namespace Stmt

mutual

theorem exec_down (rounds : Nat) (s : Stmt) :
    (s.down k).exec rounds = adaptExcept (Halt.down k) (s.exec rounds) := by
  match s with
  | .expr e =>
    rw [down, exec, exec]
    exact bind_eq_adaptExcept _ (Exec.evaluate_down k e) (fun _ => rfl)
  | .print keyword e =>
    rw [down, exec, exec]
    exact bind_eq_adaptExcept _ (Exec.evaluate_down k e) (Exec.write_down k keyword)
  | .declare name none => rfl
  | .declare name (some e) =>
    rw [down, Option.map_some, exec, exec]
    exact bind_eq_adaptExcept _ (Exec.evaluate_down k e) (fun _ => rfl)
  | .block body =>
    rw [down, exec, exec, execAll_down rounds body, Exec.inScope_adaptExcept]
  | .ifThen condition yes =>
    rw [down, exec, exec]
    apply bind_eq_adaptExcept _ (Exec.evaluate_down k condition)
    intro v
    exact ite_eq_adaptExcept _ (exec_down rounds yes) rfl
  | .ifElse condition yes no =>
    rw [down, exec, exec]
    apply bind_eq_adaptExcept _ (Exec.evaluate_down k condition)
    intro v
    exact ite_eq_adaptExcept _ (exec_down rounds yes) (exec_down rounds no)
  | .whileDo condition body =>
    rw [down, exec, exec, exec_down rounds body, Exec.loop_down]

theorem execAll_down (rounds : Nat) (body : List Stmt) :
    execAll rounds (downAll k body) = adaptExcept (Halt.down k) (execAll rounds body) := by
  match body with
  | [] => rfl
  | s :: rest =>
    rw [downAll, execAll, execAll]
    exact bind_eq_adaptExcept _ (exec_down rounds s) (fun _ => execAll_down rounds rest)

end

end Stmt
end Scriptlet
