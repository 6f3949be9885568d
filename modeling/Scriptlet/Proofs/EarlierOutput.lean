import Scriptlet.Proofs.FullSink
import Scriptlet.Session

/-!
# Earlier output

What stands on the sink before a run makes no difference to it: the run writes the same bytes behind
it, reports the same and binds the same names. So the output of a run is its own, whatever else is
shown between the runs of a session.
-/

namespace Scriptlet

/-- The machine on whose sink `earlier` was written before. -/
def Machine.behind (earlier : ByteArray) (m : Machine) : Machine :=
  { m with sink := { m.sink with written := earlier ++ m.sink.written } }

/-- The same result with earlier output. -/
def resultBehind {α : Type} (earlier : ByteArray) :
    EStateM.Result Halt Machine α → EStateM.Result Halt Machine α
  | .ok a m => .ok a (m.behind earlier)
  | .error halt m => .error halt (m.behind earlier)

variable {earlier : ByteArray}

namespace Exec
variable {α β : Type}

/-- The computation does the same behind earlier output. -/
def Overlooks (earlier : ByteArray) (x : Exec α) : Prop :=
  ∀ m : Machine, x (m.behind earlier) = resultBehind earlier (x m)

lemma Overlooks.pure (a : α) : Overlooks earlier (pure a) := fun _ => rfl

lemma Overlooks.bind {x : Exec α} {next : α → Exec β} (hx : Overlooks earlier x)
    (hnext : ∀ a, Overlooks earlier (next a)) : Overlooks earlier (x >>= next) := by
  intro m
  have hm := hx m
  simp only [Bind.bind, EStateM.bind]
  cases hr : x m with
  | error halt m' =>
    rw [hm, hr]
    rfl
  | ok a m' =>
    rw [hm, hr]
    exact hnext a m'

lemma Overlooks.ite {b : Bool} {x y : Exec α} (hx : Overlooks earlier x)
    (hy : Overlooks earlier y) : Overlooks earlier (if b then x else y) := by
  cases b
  · exact hy
  · exact hx

lemma overlooks_evaluate (e : Expr) : Overlooks earlier (evaluate e) := by
  intro m
  have henv : (m.behind earlier).env = m.env := rfl
  rw [evaluate, evaluate, henv]
  cases e.eval m.env <;> rfl

lemma overlooks_write (keyword : Token) (value : Value) :
    Overlooks earlier (write keyword value) := by
  intro ⟨env, written, room, refusal⟩
  rw [write, write, Machine.behind, Sink.write, Sink.write]
  cases room with
  | none => simp only [if_true, resultBehind, Machine.behind, ByteArray.append_assoc]
  | some room =>
    dsimp only
    split <;> simp [resultBehind, Machine.behind, ByteArray.append_assoc]

lemma overlooks_inScope {act : Exec Unit} (hact : Overlooks earlier act) :
    Overlooks earlier (inScope act) := by
  intro m
  have hm : act { m.behind earlier with env := (m.behind earlier).env.nest } =
      resultBehind earlier (act { m with env := m.env.nest }) := hact { m with env := m.env.nest }
  rw [inScope, inScope, hm]
  cases act { m with env := m.env.nest } <;> rfl

lemma overlooks_loop {condition : Expr} {act : Exec Unit} (hact : Overlooks earlier act)
    (rounds : Nat) : Overlooks earlier (loop condition act rounds) := by
  induction rounds with
  | zero => exact fun _ => rfl
  | succ n ih =>
    rw [loop_succ]
    exact (overlooks_evaluate condition).bind
      (fun value => (hact.bind (fun _ => ih)).ite (Overlooks.pure ()))

end Exec

namespace Stmt
open Exec

mutual

theorem overlooks_exec (rounds : Nat) (s : Stmt) : Overlooks earlier (s.exec rounds) := by
  match s with
  | .expr e => exact (overlooks_evaluate e).bind (fun _ => Overlooks.pure ())
  | .print keyword e => exact (overlooks_evaluate e).bind (overlooks_write keyword)
  | .declare name none => exact fun _ => rfl
  | .declare name (some e) => exact (overlooks_evaluate e).bind (fun _ _ => rfl)
  | .block body => exact overlooks_inScope (overlooks_execAll rounds body)
  | .ifThen condition yes =>
    exact (overlooks_evaluate condition).bind
      (fun _ => (overlooks_exec rounds yes).ite (Overlooks.pure ()))
  | .ifElse condition yes no =>
    exact (overlooks_evaluate condition).bind
      (fun _ => (overlooks_exec rounds yes).ite (overlooks_exec rounds no))
  | .whileDo condition body => exact overlooks_loop (overlooks_exec rounds body) rounds

theorem overlooks_execAll (rounds : Nat) (body : List Stmt) :
    Overlooks earlier (execAll rounds body) := by
  match body with
  | [] => exact Overlooks.pure ()
  | s :: rest =>
    exact (overlooks_exec rounds s).bind (fun _ => overlooks_execAll rounds rest)

end

end Stmt

namespace Machine
variable {rounds : Nat} {m : Machine} {source : String}

lemma interpret_behind (statements : List Stmt) :
    (m.behind earlier).interpret rounds statements =
      (m.interpret rounds statements).map (fun (error, m') => (error, m'.behind earlier)) := by
  rw [interpret, interpret, Stmt.overlooks_execAll rounds statements m]
  rcases Stmt.execAll rounds statements m with ⟨_, m'⟩ | ⟨halt, m'⟩
  · rfl
  · cases halt <;> rfl

theorem run_behind (earlier : ByteArray) (rounds : Nat) (m : Machine) (source : String) :
    (m.behind earlier).run rounds source =
      (m.run rounds source).map (fun (found, m') => (found, m'.behind earlier)) := by
  rw [run, run]
  dsimp only
  split
  · rw [interpret_behind, Option.map_map, Option.map_map]
    rfl
  · rfl

end Machine
end Scriptlet
