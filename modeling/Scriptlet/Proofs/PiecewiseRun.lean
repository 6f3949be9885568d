import Scriptlet.Proofs.ParserCompleteness
import Scriptlet.Proofs.ScanJoin
import Scriptlet.Proofs.ShiftedRun
import Scriptlet.Session

/-!
# Running a session piece by piece

A source that is made of two joined by a newline runs like the first and, when that has no
runtime error, the second after it. No stage looks over the newline: the scan is cut there, the
statements that are read end there, and they are executed in order.
-/

namespace Scriptlet
open EStateM (adaptExcept)

def Diagnostic.down (k : Nat) : Diagnostic → Diagnostic
  | scan line message => scan (line + k) message
  | parse token message => parse (token.down k) message
  | runtime token message => runtime (token.down k) message
  | unreadable path reason => unreadable path reason

def Diagnostics.down (k : Nat) (ds : Diagnostics) : Diagnostics := ⟨ds.all.map (Diagnostic.down k)⟩

lemma RuntimeError.diagnostic_down (k : Nat) (e : RuntimeError) :
    (e.down k).diagnostic = e.diagnostic.down k := by
  unfold diagnostic
  rw [message_down]
  rfl

lemma parse_join {as bs tokens : List Token} {k : Nat} (ha : (parse as).errors = [])
    (hb : (parse bs).errors = [])
    (htokens : beforeEnd tokens = beforeEnd as ++ (beforeEnd bs).map (Token.down k)) :
    parse tokens = ⟨(parse as).statements ++ Stmt.downAll k (parse bs).statements, []⟩ := by
  have hreada := readStmts_parse ha
  have hreadb := readStmts_parse hb
  have hcan : Stmt.CanonicalAll
      ((parse as).statements ++ Stmt.downAll k (parse bs).statements) :=
    Stmt.canonicalAll_append.mpr
      ⟨hreada.canonical, Stmt.CanonicalAll.down k _ hreadb.canonical⟩
  have hw : Written
      (Stmt.marksAll ((parse as).statements ++ Stmt.downAll k (parse bs).statements))
      (beforeEnd tokens) := by
    rw [Stmt.marksAll_append, Stmt.marksAll_down, htokens]
    exact hreada.written.append (hreadb.written.down k)
  have hnest : Stmt.nestAll
      ((parse as).statements ++ Stmt.downAll k (parse bs).statements) ≤ maxNesting := by
    have hna := hreada.nest_lt
    have hnb := hreadb.nest_lt
    rw [Stmt.nestAll_append, Stmt.nestAll_down]
    omega
  exact parse_of_written hcan hw hnest

namespace Machine
variable {m : Machine} {n k : Nat}

lemma interpret_append (xs ys : List Stmt) :
    m.interpret n (xs ++ Stmt.downAll k ys) = (do
      let (error, m') ← m.interpret n xs
      if error.isSome then return (error, m')
      let (error', m'') ← m'.interpret n ys
      return (error'.map (RuntimeError.down k), m'')) := by
  unfold interpret
  rw [Stmt.execAll_append, Stmt.execAll_down]
  simp only [bind, EStateM.bind]
  cases Stmt.execAll n xs m with
  | error halt m' => cases halt <;> rfl
  | ok _ m' =>
    simp only [adaptExcept, Option.bind_some, Option.isSome_none]
    cases Stmt.execAll n ys m' with
    | error halt m'' => cases halt <;> rfl
    | ok _ m'' => rfl

lemma run_of_clean {source : String} (hs : (scan source).errors = [])
    (hp : (parse (scan source).tokens).errors = []) :
    m.run n source = (m.interpret n (parse (scan source).tokens).statements).map
      (fun (error, m') => (⟨(error.map RuntimeError.diagnostic).toList⟩, m')) := by
  unfold run
  simp only [hs, hp, List.map_nil, List.append_nil, List.isEmpty_nil, if_true]

/-- Two clean sources joined by a newline run like the one and then, unless that has a runtime
error, the other, whose lines lie further down. -/
theorem run_join {a b : String} (hsa : (scan a).errors = [])
    (hpa : (parse (scan a).tokens).errors = []) (hsb : (scan b).errors = [])
    (hpb : (parse (scan b).tokens).errors = []) (n : Nat) (m : Machine) :
    m.run n (a ++ "\n" ++ b) = (do
      let (found, m') ← m.run n a
      if found.hadRuntimeError then return (found, m')
      let (found', m'') ← m'.run n b
      return (found'.down (1 + a.toList.count '\n'), m'')) := by
  obtain ⟨htokens, herrors⟩ := scan_join (a := a) (by rw [hsa]; intro e he; cases he) b
  have hparse := parse_join hpa hpb htokens
  rw [hsa, hsb] at herrors
  rw [run_of_clean herrors (by rw [hparse]), run_of_clean hsa hpa, hparse, interpret_append]
  cases m.interpret n (parse (scan a).tokens).statements with
  | none => rfl
  | some answer =>
    obtain ⟨error, m'⟩ := answer
    cases error with
    | some e => rfl
    | none =>
      simp only [Option.bind_some, Option.isSome_none, Option.map_some, bind]
      rw [run_of_clean hsb hpb]
      cases m'.interpret n (parse (scan b).tokens).statements with
      | none => rfl
      | some answer' =>
        obtain ⟨error', m''⟩ := answer'
        cases error' with
        | none => rfl
        | some e =>
          have hdown := RuntimeError.diagnostic_down (1 + a.toList.count '\n') e
          exact congrArg (fun d => some (Diagnostics.mk [d], m'')) hdown

theorem run_join_comment :
    (scan "var x = true; // on").errors = [] ∧ (scan "print x;\nprint -x;").errors = [] ∧
      (initial .unlimited).run 1 ("var x = true; // on" ++ "\n" ++ "print x;\nprint -x;") = (do
        let (found, m') ← (initial .unlimited).run 1 "var x = true; // on"
        if found.hadRuntimeError then return (found, m')
        let (found', m'') ← m'.run 1 "print x;\nprint -x;"
        return (found'.down 1, m'')) := by
  have hsa : (scan "var x = true; // on").errors = [] := by decide +kernel
  have hpa : (parse (scan "var x = true; // on").tokens).errors = [] := by decide +kernel
  have hsb : (scan "print x;\nprint -x;").errors = [] := by decide +kernel
  have hpb : (parse (scan "print x;\nprint -x;").tokens).errors = [] := by decide +kernel
  exact ⟨hsa, hsb, run_join hsa hpa hsb hpb 1 (initial .unlimited)⟩

end Machine
end Scriptlet
