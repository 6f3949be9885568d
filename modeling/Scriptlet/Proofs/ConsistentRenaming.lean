import Mathlib.Logic.Equiv.Basic
import Scriptlet.Proofs.SideBySide
import Scriptlet.Session

/-!
# Consistent renaming

Names are only ever compared with each other. When all names of a program and all names that are
bound around it are renamed alike, and no two of them to one, the program does what it did: it
reads and sets the bindings that it read and set, under their new names. Of what it says only the
error that a variable is undefined has a name in it.
-/

namespace Scriptlet
open EStateM (adaptExcept)

section names
variable (rename : String → String)

def Token.renamed (t : Token) : Token := { t with lexeme := rename t.lexeme }

/-- The texts of operators are no names and stay. -/
def Expr.renamed : Expr → Expr
  | literal value => literal value
  | grouping e => grouping e.renamed
  | unary op e => unary op e.renamed
  | binary left op right => binary left.renamed op right.renamed
  | ref name => ref (name.renamed rename)
  | assign name e => assign (name.renamed rename) e.renamed

namespace Stmt

mutual

def renamed : Stmt → Stmt
  | expr e => expr (e.renamed rename)
  | print keyword e => print keyword (e.renamed rename)
  | declare name init => declare (name.renamed rename) (init.map (Expr.renamed rename))
  | block body => block (renamedAll body)
  | ifThen condition yes => ifThen (condition.renamed rename) yes.renamed
  | ifElse condition yes no => ifElse (condition.renamed rename) yes.renamed no.renamed
  | whileDo condition body => whileDo (condition.renamed rename) body.renamed

def renamedAll : List Stmt → List Stmt
  | [] => []
  | s :: rest => s.renamed :: renamedAll rest

end

end Stmt

def Scope.renamed (s : Scope) : Scope :=
  ⟨s.bindings.map (fun (name, value) => (rename name, value))⟩

def Environment.renamed : Environment → Environment
  | global scope => global (scope.renamed rename)
  | inside scope outer => inside (scope.renamed rename) outer.renamed

def Machine.renamed (m : Machine) : Machine := { m with env := m.env.renamed rename }

/-- The token of an undefined variable is its name; the tokens of all other errors are operators
and keywords. -/
def RuntimeError.renamed (e : RuntimeError) : RuntimeError :=
  match e.fault with
  | .undefinedVariable => { e with token := e.token.renamed rename }
  | _ => e

def Halt.renamed : Halt → Halt
  | .error e => .error (e.renamed rename)
  | .exhausted => .exhausted

end names

section environment
variable {rename : String → String} {name : String} {value : Value}

namespace Scope

lemma lookup_renamed (h : Function.Injective rename) (bindings : List (String × Value)) :
    (bindings.map (fun (n, v) => (rename n, v))).lookup (rename name) = bindings.lookup name := by
  induction bindings with
  | nil => rfl
  | cons b rest ih =>
    obtain ⟨n, v⟩ := b
    have hbeq : (rename name == rename n) = (name == n) := by
      rw [Bool.eq_iff_iff, beq_iff_eq, beq_iff_eq, h.eq_iff]
    rw [List.map_cons, List.lookup_cons, List.lookup_cons, hbeq, ih]

lemma setIn_renamed (h : Function.Injective rename) (bindings : List (String × Value)) :
    setIn (rename name) value (bindings.map (fun (n, v) => (rename n, v))) =
      (setIn name value bindings).map (fun (n, v) => (rename n, v)) := by
  induction bindings with
  | nil => rfl
  | cons b rest ih =>
    obtain ⟨n, v⟩ := b
    rw [List.map_cons, setIn, setIn, ih]
    simp only [h.eq_iff]
    split <;> rfl

lemma get?_renamed (h : Function.Injective rename) (s : Scope) :
    (s.renamed rename).get? (rename name) = s.get? name := lookup_renamed h s.bindings

lemma set_renamed (h : Function.Injective rename) (s : Scope) :
    (s.renamed rename).set (rename name) value = (s.set name value).renamed rename :=
  congrArg Scope.mk (setIn_renamed h s.bindings)

end Scope

namespace Environment

lemma get?_renamed (h : Function.Injective rename) (env : Environment) :
    (env.renamed rename).get? (rename name) = env.get? name := by
  induction env with
  | global scope => exact scope.get?_renamed h
  | inside scope outer ih => rw [renamed, get?, get?, scope.get?_renamed h, ih]

lemma assign?_renamed (h : Function.Injective rename) (env : Environment) :
    (env.renamed rename).assign? (rename name) value =
      (env.assign? name value).map (renamed rename) := by
  induction env with
  | global scope =>
    rw [renamed, assign?, assign?, scope.get?_renamed h, scope.set_renamed h]
    split <;> rfl
  | inside scope outer ih =>
    rw [renamed, assign?, assign?, scope.get?_renamed h, scope.set_renamed h, ih]
    split
    · rfl
    · rw [Option.map_map, Option.map_map]
      rfl

lemma define_renamed (h : Function.Injective rename) (env : Environment) :
    (env.renamed rename).define (rename name) value = (env.define name value).renamed rename := by
  cases env with
  | global scope => exact congrArg global (scope.set_renamed h)
  | inside scope outer => exact congrArg (inside · (outer.renamed rename)) (scope.set_renamed h)

lemma unnest_renamed (env : Environment) :
    (env.renamed rename).unnest = env.unnest.renamed rename := by
  cases env <;> rfl

end Environment
end environment

section computations
variable {ε σ α β : Type} {f : ε → ε} {states : σ → σ → Prop} {x x' y y' : EStateM ε σ α}

lemma SideBySide.bind_adaptExcept {next next' : α → EStateM ε σ β}
    (h : SideBySide states (adaptExcept f x) x')
    (hnext : ∀ a, SideBySide states (adaptExcept f (next a)) (next' a)) :
    SideBySide states (adaptExcept f (x >>= next)) (x' >>= next') := by
  rw [← bind_eq_adaptExcept f rfl (fun _ => rfl)]
  exact h.bind hnext

lemma SideBySide.ite_adaptExcept {b : Bool} (h : SideBySide states (adaptExcept f x) x')
    (h' : SideBySide states (adaptExcept f y) y') :
    SideBySide states (adaptExcept f (if b then x else y)) (if b then x' else y') := by
  rw [← ite_eq_adaptExcept f rfl rfl]
  exact h.ite h'

end computations

section evaluation
variable {rename : String → String}

/-- The second environment is the first one renamed. -/
def RenamedTo (rename : String → String) (env env' : Environment) : Prop :=
  env' = env.renamed rename

/-- The second computation does to a renamed environment what the first does. -/
abbrev EvalsRenamed (rename : String → String) {α : Type} (x x' : Eval α) : Prop :=
  SideBySide (RenamedTo rename) (adaptExcept (RuntimeError.renamed rename) x) x'

lemma applyUnary_mapError (op : Token) (v : Value) :
    (Value.applyUnary op v).mapError (RuntimeError.renamed rename) = Value.applyUnary op v := by
  unfold Value.applyUnary
  split
  · cases v <;> rfl
  · rfl
  · rfl

lemma onNumbers_mapError (op : Token) (f : Float → Float → Value) (x y : Value) :
    (Value.onNumbers op f x y).mapError (RuntimeError.renamed rename) =
      Value.onNumbers op f x y := by
  unfold Value.onNumbers
  split <;> rfl

lemma applyBinary_mapError (op : Token) (x y : Value) :
    (Value.applyBinary op x y).mapError (RuntimeError.renamed rename) =
      Value.applyBinary op x y := by
  unfold Value.applyBinary
  split
  · unfold Value.add
    split <;> rfl
  all_goals first
    | exact onNumbers_mapError op _ x y
    | rfl

lemma evalsRenamed_liftExcept {r : Except RuntimeError Value}
    (h : r.mapError (RuntimeError.renamed rename) = r) :
    EvalsRenamed rename (Expr.eval.liftExcept r) (Expr.eval.liftExcept r) := by
  intro env env' henv
  cases r with
  | ok value => exact .ok value henv
  | error e =>
    have he : e.renamed rename = e := Except.error.inj h
    simp only [adaptExcept, Expr.eval.liftExcept, he]
    exact .error e henv

lemma evalsRenamed_lookup (h : Function.Injective rename) (name : Token) :
    EvalsRenamed rename (Environment.lookup name) (Environment.lookup (name.renamed rename)) := by
  rintro env _ rfl
  have hget : (env.renamed rename).get? (name.renamed rename).lexeme = env.get? name.lexeme :=
    env.get?_renamed h
  simp only [adaptExcept, Environment.lookup, hget]
  cases env.get? name.lexeme with
  | some value => exact .ok value rfl
  | none => exact .error _ rfl

lemma evalsRenamed_assign (h : Function.Injective rename) (name : Token) (value : Value) :
    EvalsRenamed rename (Environment.assign name value)
      (Environment.assign (name.renamed rename) value) := by
  rintro env _ rfl
  have hassign : (env.renamed rename).assign? (name.renamed rename).lexeme value =
      (env.assign? name.lexeme value).map (Environment.renamed rename) := env.assign?_renamed h
  simp only [adaptExcept, Environment.assign, hassign]
  cases env.assign? name.lexeme value with
  | some env₁ => exact .ok () rfl
  | none => exact .error _ rfl

lemma evalsRenamed_eval (h : Function.Injective rename) (e : Expr) :
    EvalsRenamed rename e.eval (e.renamed rename).eval := by
  induction e with
  | literal value => exact SideBySide.pure value
  | grouping e ih => exact ih
  | unary op e ih =>
    exact ih.bind_adaptExcept (fun v => evalsRenamed_liftExcept (applyUnary_mapError op v))
  | binary left op right ihl ihr =>
    exact ihl.bind_adaptExcept (fun x => ihr.bind_adaptExcept (fun y =>
      evalsRenamed_liftExcept (applyBinary_mapError op x y)))
  | ref name => exact evalsRenamed_lookup h name
  | assign name e ih =>
    exact ih.bind_adaptExcept (fun value =>
      (evalsRenamed_assign h name value).bind_adaptExcept (fun _ => SideBySide.pure value))

end evaluation

section execution
variable {rename : String → String} {act act' : Exec Unit}

/-- The second computation does to a machine with a renamed environment what the first does. -/
abbrev RunsRenamed (rename : String → String) {α : Type} (x x' : Exec α) : Prop :=
  SideBySide (OnMachines (RenamedTo rename)) (adaptExcept (Halt.renamed rename) x) x'

lemma runsRenamed_evaluate (h : Function.Injective rename) (e : Expr) :
    RunsRenamed rename (Exec.evaluate e) (Exec.evaluate (e.renamed rename)) := by
  intro m m' ⟨henv, hsink⟩
  have heval := evalsRenamed_eval h e m.env m'.env henv
  simp only [adaptExcept, Exec.evaluate] at heval ⊢
  generalize e.eval m.env = r, (e.renamed rename).eval m'.env = r' at heval
  cases r with
  | ok value env =>
    cases heval with
    | ok _ henv' => exact .ok value ⟨henv', hsink⟩
  | error err env =>
    cases heval with
    | error _ henv' => exact .error _ ⟨henv', hsink⟩

lemma write_adaptExcept (keyword : Token) (value : Value) :
    adaptExcept (Halt.renamed rename) (Exec.write keyword value) = Exec.write keyword value := by
  funext m
  simp only [adaptExcept, Exec.write]
  cases (m.sink.write (value.text ++ "\n")).2 <;> rfl

lemma runsRenamed_define (h : Function.Injective rename) (name : Token) (value : Value) :
    RunsRenamed rename (Exec.define name.lexeme value)
      (Exec.define (name.renamed rename).lexeme value) := by
  rintro m m' ⟨henv, hsink⟩
  refine .ok () ⟨?_, hsink⟩
  rw [henv]
  exact Environment.define_renamed h m.env

lemma RunsRenamed.inScope (h : RunsRenamed rename act act') :
    RunsRenamed rename (Exec.inScope act) (Exec.inScope act') := by
  rw [RunsRenamed, ← Exec.inScope_adaptExcept]
  refine sideBySide_inScope (RenamedTo rename) ?_ ?_ h
  · rintro env _ rfl
    rfl
  · rintro env _ rfl
    exact env.unnest_renamed

lemma RunsRenamed.loop (h : Function.Injective rename) (condition : Expr)
    (hact : RunsRenamed rename act act') (rounds : Nat) :
    RunsRenamed rename (Exec.loop condition act rounds)
      (Exec.loop (condition.renamed rename) act' rounds) := by
  induction rounds with
  | zero => exact fun m m' hm => .error _ hm
  | succ n ih =>
    rw [Exec.loop_succ, Exec.loop_succ]
    exact (runsRenamed_evaluate h condition).bind_adaptExcept (fun _ =>
      (hact.bind_adaptExcept (fun _ => ih)).ite_adaptExcept (SideBySide.pure ()))

mutual

theorem runsRenamed_exec (h : Function.Injective rename) (rounds : Nat) (s : Stmt) :
    RunsRenamed rename (s.exec rounds) ((s.renamed rename).exec rounds) := by
  match s with
  | .expr e => exact (runsRenamed_evaluate h e).bind_adaptExcept (fun _ => SideBySide.pure ())
  | .print keyword e =>
    refine (runsRenamed_evaluate h e).bind_adaptExcept (fun value => ?_)
    rw [write_adaptExcept]
    exact sideBySide_write keyword value
  | .declare name none => exact runsRenamed_define h name .nil
  | .declare name (some e) =>
    exact (runsRenamed_evaluate h e).bind_adaptExcept (fun value =>
      runsRenamed_define h name value)
  | .block body => exact (runsRenamed_execAll h rounds body).inScope
  | .ifThen condition yes =>
    exact (runsRenamed_evaluate h condition).bind_adaptExcept (fun _ =>
      (runsRenamed_exec h rounds yes).ite_adaptExcept (SideBySide.pure ()))
  | .ifElse condition yes no =>
    exact (runsRenamed_evaluate h condition).bind_adaptExcept (fun _ =>
      (runsRenamed_exec h rounds yes).ite_adaptExcept (runsRenamed_exec h rounds no))
  | .whileDo condition body => exact (runsRenamed_exec h rounds body).loop h condition rounds

theorem runsRenamed_execAll (h : Function.Injective rename) (rounds : Nat) (body : List Stmt) :
    RunsRenamed rename (Stmt.execAll rounds body)
      (Stmt.execAll rounds (Stmt.renamedAll rename body)) := by
  match body with
  | [] => exact SideBySide.pure ()
  | s :: rest =>
    exact (runsRenamed_exec h rounds s).bind_adaptExcept
      (fun _ => runsRenamed_execAll h rounds rest)

end

end execution

lemma OnMachines.eq_renamed {rename : String → String} {m m' : Machine}
    (h : OnMachines (RenamedTo rename) m m') : m' = m.renamed rename := by
  obtain ⟨env, sink⟩ := m
  obtain ⟨env', sink'⟩ := m'
  obtain ⟨rfl, rfl⟩ := h
  rfl

namespace Machine

/-- Renamed statements, run where all names are bound under their new ones, come to an end when the
statements do. They write the same, end with the same error, which names an undefined variable anew,
or with none, and leave the renamed bindings. -/
theorem interpret_renamed {rename : String → String} (h : Function.Injective rename) (rounds : Nat)
    (m : Machine) (body : List Stmt) :
    (m.renamed rename).interpret rounds (Stmt.renamedAll rename body) =
      (m.interpret rounds body).map
        (fun (error, m') => (error.map (RuntimeError.renamed rename), m'.renamed rename)) := by
  have hrun := runsRenamed_execAll h rounds body m (m.renamed rename) ⟨rfl, rfl⟩
  simp only [adaptExcept] at hrun
  unfold interpret
  generalize Stmt.execAll rounds body m = r,
    Stmt.execAll rounds (Stmt.renamedAll rename body) (m.renamed rename) = r' at hrun
  cases r with
  | ok _ m₁ =>
    cases hrun with
    | ok _ hm =>
      rw [hm.eq_renamed]
      rfl
  | error halt m₁ =>
    cases hrun with
    | error _ hm =>
      rw [hm.eq_renamed]
      cases halt <;> rfl

/-- A block copies `y` to a variable `x` of its own, unsets `y` and prints the copy. Behind the
block `x` is not bound. -/
def shadowing : List Stmt :=
  let x : Token := ⟨.identifier, "x", none, 1⟩
  let y : Token := ⟨.identifier, "y", none, 1⟩
  [.block [.declare x (some (.ref y)), .expr (.assign y (.literal .nil)), .print x (.ref x)],
    .expr (.ref ⟨.identifier, "x", none, 2⟩)]

theorem interpret_renamed_swapping :
    let swap : String → String := Equiv.swap "x" "y"
    let m : Machine := ⟨.global ⟨[("y", .bool true)]⟩, .unlimited⟩
    Function.Injective swap ∧
      (m.renamed swap).interpret 0 (Stmt.renamedAll swap shadowing) =
        some (some ⟨.undefinedVariable, ⟨.identifier, "y", none, 2⟩⟩,
          ⟨.global ⟨[("x", .nil)]⟩, (Sink.unlimited.write "true\n").1⟩) := by
  intro swap m
  have hswap : Function.Injective swap := (Equiv.swap "x" "y").injective
  refine ⟨hswap, (interpret_renamed hswap 0 m shadowing).trans ?_⟩
  rfl

end Machine
end Scriptlet
