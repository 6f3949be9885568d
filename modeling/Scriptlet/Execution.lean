import Scriptlet.Evaluation
import Scriptlet.Sink

/-!
# Execution of statements

Statements act on a machine, which is an environment and a sink. Execution stops at the first
runtime error; what was done before stays done. Because a loop need not end, execution is given
the number of times that each loop may test its condition, and halts in a way of its own when a
loop would test it once more: a run that does not halt so is the same for every greater number.
-/

namespace Scriptlet

structure Machine where
  env : Environment
  sink : Sink

inductive Halt where
  | error (e : RuntimeError)
  | exhausted

/-- A computation on a machine that may halt early. -/
abbrev Exec := EStateM Halt Machine

namespace Exec

/-- Evaluates an expression in the machine's environment. -/
def evaluate (e : Expr) : Exec Value := fun m =>
  match e.eval m.env with
  | .ok value env => .ok value { m with env }
  | .error err env => .error (.error err) { m with env }

/-- Writes a value on a line of its own. A refused write is an error of the keyword. -/
def write (keyword : Token) (value : Value) : Exec Unit := fun m =>
  let (sink, complete) := m.sink.write (value.text ++ "\n")
  if complete then .ok () { m with sink }
  else .error (.error ⟨.refusedOutput sink.refusal, keyword⟩) { m with sink }

def define (name : String) (value : Value) : Exec Unit := fun m =>
  .ok () { m with env := m.env.define name value }

/-- Runs `act` in a new scope and leaves that scope however `act` ends. -/
def inScope (act : Exec Unit) : Exec Unit := fun m =>
  match act { m with env := m.env.nest } with
  | .ok () m' => .ok () { m' with env := m'.env.unnest }
  | .error halt m' => .error halt { m' with env := m'.env.unnest }

/-- Runs `act` as long as the condition holds; it is tested `rounds` times at most. -/
def loop (condition : Expr) (act : Exec Unit) (rounds : Nat) (m : Machine) :
    EStateM.Result Halt Machine Unit :=
  match rounds with
  | 0 => .error .exhausted m
  | n + 1 =>
    match evaluate condition m with
    | .error halt m' => .error halt m'
    | .ok value m' =>
      if value.isTruthy then
        match act m' with
        | .error halt m'' => .error halt m''
        | .ok () m'' => loop condition act n m''
      else .ok () m'

end Exec

namespace Stmt

mutual

/-- Executes a statement; each loop in it tests its condition `rounds` times at most. -/
def exec (rounds : Nat) : Stmt → Exec Unit
  | .expr e => do
    let _ ← Exec.evaluate e
  | .print keyword e => do
    Exec.write keyword (← Exec.evaluate e)
  | .declare name none => Exec.define name.lexeme .nil
  | .declare name (some e) => do
    Exec.define name.lexeme (← Exec.evaluate e)
  | .block body => Exec.inScope (execAll rounds body)
  | .ifThen condition yes => do
    if (← Exec.evaluate condition).isTruthy then exec rounds yes
  | .ifElse condition yes no => do
    if (← Exec.evaluate condition).isTruthy then exec rounds yes else exec rounds no
  | .whileDo condition body => Exec.loop condition (exec rounds body) rounds

/-- Executes statements in order. -/
def execAll (rounds : Nat) : List Stmt → Exec Unit
  | [] => pure ()
  | s :: rest => do
    exec rounds s
    execAll rounds rest

end

end Stmt
end Scriptlet
