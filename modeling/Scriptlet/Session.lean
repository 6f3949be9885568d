import Scriptlet.Diagnostics
import Scriptlet.Execution

/-!
# Sessions

A session runs one source after another on the same machine, so that global variables last from
run to run. A source with scan or syntax errors is not run at all.
-/

namespace Scriptlet

namespace Machine

/-- The machine of a new session. -/
def initial (sink : Sink) : Machine := ⟨.initial, sink⟩

/-- Executes statements in order; no answer when a loop does not end in `rounds` rounds. -/
def interpret (rounds : Nat) (m : Machine) (statements : List Stmt) :
    Option (Option RuntimeError × Machine) :=
  match Stmt.execAll rounds statements m with
  | .ok () m' => some (none, m')
  | .error (.error e) m' => some (some e, m')
  | .error .exhausted _ => none

/-- Runs a source and says what went wrong. A source is parsed even when its scan has errors, so
that all errors are found in one pass. -/
def run (rounds : Nat) (m : Machine) (source : String) : Option (Diagnostics × Machine) :=
  let scanned := scan source
  let parsed := parse scanned.tokens
  let found := scanned.errors.map ScanError.diagnostic ++ parsed.errors.map SyntaxError.diagnostic
  if found.isEmpty then
    (m.interpret rounds parsed.statements).map
      (fun (error, m') => (⟨(error.map RuntimeError.diagnostic).toList⟩, m'))
  else some (⟨found⟩, m)

end Machine
end Scriptlet
