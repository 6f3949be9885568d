import Scriptlet.Proofs.PiecewiseRun
import Scriptlet.Proofs.ScopeRestoration

/-!
# What runtime errors blame

A statement that was read keeps only tokens of the source, and of operators only those that it
can apply. So a runtime error names a token of the source and says of it what fits its kind,
wherever in the statements it arises. The proof carries the tokens that a tree keeps through
evaluation and execution.
-/

namespace Scriptlet

/-- What runtime errors can say of a token, where the sink gives the reason for which it refuses
output. -/
def Token.runtimeMessages (reason : String) (t : Token) : List String :=
  match t.kind with
  | .symbol .minus => ["operand must be a number.", "operands must be numbers."]
  | .symbol .star | .symbol .slash | .symbol .greater | .symbol .greaterEqual | .symbol .less
    | .symbol .lessEqual => ["operands must be numbers."]
  | .symbol .plus => ["operands must be two numbers or two strings."]
  | .identifier => ["undefined variable '" ++ t.lexeme ++ "'."]
  | .keyword .kwPrint => ["failed to write output: " ++ reason ++ "."]
  | _ => []

/-- The error names a token that a tree keeps, and its message fits the token's kind. -/
structure RuntimeError.Blames (marks : List Mark) (reason : String) (e : RuntimeError) : Prop where
  kept : Mark.exactly e.token ∈ marks
  fits : e.message ∈ e.token.runtimeMessages reason

lemma RuntimeError.Blames.mono {m m' : List Mark} {reason : String} {e : RuntimeError}
    (h : e.Blames m reason) (hsub : m ⊆ m') : e.Blames m' reason := ⟨hsub h.kept, h.fits⟩

/-- The computation keeps what `inv` says of its state, and what stops it has the property. -/
def Raises {ε σ α : Type} (inv : σ → Prop) (P : ε → Prop) (x : EStateM ε σ α) : Prop :=
  ∀ s, inv s → inv (finalState (x s)) ∧ ∀ e s', x s = .error e s' → P e

section raises
variable {ε σ α β : Type} {inv : σ → Prop} {P Q : ε → Prop}

lemma Raises.pure (a : α) : Raises inv P (pure a : EStateM ε σ α) :=
  fun _ hs => ⟨hs, fun _ _ h => by cases h⟩

lemma Raises.mono {x : EStateM ε σ α} (h : Raises inv P x) (hPQ : ∀ e, P e → Q e) :
    Raises inv Q x :=
  fun s hs => ⟨(h s hs).1, fun e s' he => hPQ e ((h s hs).2 e s' he)⟩

lemma Raises.bind {x : EStateM ε σ α} {next : α → EStateM ε σ β} (h : Raises inv P x)
    (hnext : ∀ a, Raises inv P (next a)) : Raises inv P (x >>= next) := by
  intro s hs
  obtain ⟨hstate, herror⟩ := h s hs
  simp only [Bind.bind, EStateM.bind]
  cases hx : x s with
  | ok a s' =>
    rw [hx] at hstate
    exact hnext a s' hstate
  | error e s' =>
    rw [hx] at hstate
    refine ⟨hstate, fun e' s'' h' => ?_⟩
    cases h'
    exact herror e s' hx

lemma Raises.ite {b : Bool} {x y : EStateM ε σ α} (hx : Raises inv P x) (hy : Raises inv P y) :
    Raises inv P (if b then x else y) := by
  cases b
  · exact hy
  · exact hx

end raises

section evaluation
variable {reason : String} {op : Token} {e : RuntimeError}

namespace Value

lemma applyUnary_error {v : Value} (hop : op.kind = .symbol .bang ∨ op.kind = .symbol .minus)
    (h : applyUnary op v = .error e) : e.Blames [.exactly op] reason := by
  unfold applyUnary at h
  rcases hop with hk | hk
  · rw [hk] at h
    cases h
  · rw [hk] at h
    cases v <;> cases h <;>
    · refine ⟨List.mem_singleton_self _, ?_⟩
      rw [Token.runtimeMessages, hk]
      exact List.mem_cons_self

lemma onNumbers_error {f : Float → Float → Value} {x y : Value} (h : onNumbers op f x y = .error e) :
    e = ⟨.operandsNotNumbers, op⟩ := by
  unfold onNumbers at h
  split at h <;> cases h
  rfl

lemma add_error {x y : Value} (h : add op x y = .error e) : e = ⟨.operandsNotAddable, op⟩ := by
  unfold add at h
  split at h <;> cases h
  rfl

lemma applyBinary_error {p : Nat} {x y : Value} (hop : op.kind.precedence? = some p)
    (h : applyBinary op x y = .error e) : e.Blames [.exactly op] reason := by
  obtain ⟨s, hk⟩ : ∃ s, op.kind = .symbol s := by
    cases hk : op.kind with
    | symbol s => exact ⟨s, rfl⟩
    | _ =>
      rw [hk] at hop
      cases hop
  unfold applyBinary at h
  rw [hk] at h hop
  cases s with
  | plus =>
    obtain rfl := add_error h
    exact ⟨List.mem_singleton_self _, by simp [RuntimeError.message, Token.runtimeMessages, hk]⟩
  | minus | star | slash | greater | greaterEqual | less | lessEqual =>
    obtain rfl := onNumbers_error h
    exact ⟨List.mem_singleton_self _, by simp [RuntimeError.message, Token.runtimeMessages, hk]⟩
  | equalEqual | bangEqual => cases h
  | _ => cases hop

end Value

variable {m m' : List Mark}

lemma raises_liftExcept {r : Except RuntimeError Value} (h : ∀ e, r = .error e → e.Blames m reason) :
    Raises (fun _ => True) (RuntimeError.Blames m reason) (Expr.eval.liftExcept r) := by
  refine fun env _ => ⟨trivial, fun e env' he => ?_⟩
  unfold Expr.eval.liftExcept at he
  cases r with
  | ok value => cases he
  | error e' =>
    cases he
    exact h _ rfl

lemma raises_applyUnary (hop : op.kind = .symbol .bang ∨ op.kind = .symbol .minus) (v : Value) :
    Raises (fun _ => True) (RuntimeError.Blames [.exactly op] reason)
      (Expr.eval.liftExcept (Value.applyUnary op v)) :=
  raises_liftExcept (fun _ h => Value.applyUnary_error hop h)

lemma raises_applyBinary {p : Nat} (hop : op.kind.precedence? = some p) (x y : Value) :
    Raises (fun _ => True) (RuntimeError.Blames [.exactly op] reason)
      (Expr.eval.liftExcept (Value.applyBinary op x y)) :=
  raises_liftExcept (fun _ h => Value.applyBinary_error hop h)

lemma blames_undefined {name : Token} (hk : name.kind = .identifier) :
    RuntimeError.Blames [.exactly name] reason ⟨.undefinedVariable, name⟩ :=
  ⟨List.mem_singleton_self _, by simp [RuntimeError.message, Token.runtimeMessages, hk]⟩

lemma raises_lookup {name : Token} (hk : name.kind = .identifier) :
    Raises (fun _ => True) (RuntimeError.Blames [.exactly name] reason) (Environment.lookup name) := by
  refine fun env _ => ⟨trivial, fun e env' he => ?_⟩
  unfold Environment.lookup at he
  split at he <;> cases he
  exact blames_undefined hk

lemma raises_assign {name : Token} (hk : name.kind = .identifier) (value : Value) :
    Raises (fun _ => True) (RuntimeError.Blames [.exactly name] reason)
      (Environment.assign name value) := by
  refine fun env _ => ⟨trivial, fun e env' he => ?_⟩
  unfold Environment.assign at he
  split at he <;> cases he
  exact blames_undefined hk

lemma Raises.mono_marks {σ α : Type} {inv : σ → Prop} {x : EStateM RuntimeError σ α}
    (h : Raises inv (RuntimeError.Blames m reason) x) (hsub : m ⊆ m') :
    Raises inv (RuntimeError.Blames m' reason) x := h.mono (fun _ he => he.mono hsub)

lemma raises_eval {e : Expr} (h : e.Canonical) :
    Raises (fun _ => True) (RuntimeError.Blames e.marks reason) e.eval := by
  induction e with
  | literal v => exact Raises.pure v
  | grouping e ih => exact (ih h).mono_marks (by simp [Expr.marks])
  | unary op e ih =>
    obtain ⟨hop, -, he⟩ := h
    exact ((ih he).mono_marks (by simp [Expr.marks])).bind
      (fun v => (raises_applyUnary hop v).mono_marks (by simp [Expr.marks]))
  | binary l op r ihl ihr =>
    obtain ⟨p, hop, -, -, hl, hr⟩ := h
    exact ((ihl hl).mono_marks (by simp [Expr.marks])).bind
      (fun x => ((ihr hr).mono_marks (by simp [Expr.marks])).bind
        (fun y => (raises_applyBinary hop x y).mono_marks (by simp [Expr.marks])))
  | ref name => exact raises_lookup h
  | assign name e ih =>
    obtain ⟨hk, he⟩ := h
    exact ((ih he).mono_marks (by simp [Expr.marks])).bind
      (fun value => ((raises_assign hk value).mono_marks (by simp [Expr.marks])).bind
        (fun _ => Raises.pure value))

end evaluation

/-- A run that is given too few rounds blames nothing. -/
def Halt.Blames (marks : List Mark) (reason : String) : Halt → Prop
  | .error e => e.Blames marks reason
  | .exhausted => True

section execution
variable {reason : String} {m m' : List Mark}

/-- The reason for which the sink refuses output. -/
def Refusing (reason : String) (machine : Machine) : Prop := machine.sink.refusal = reason

lemma Raises.mono_halt {α : Type} {x : Exec α} (h : Raises (Refusing reason) (Halt.Blames m reason) x)
    (hsub : m ⊆ m') : Raises (Refusing reason) (Halt.Blames m' reason) x := by
  refine h.mono (fun halt hb => ?_)
  cases halt with
  | error e => exact RuntimeError.Blames.mono hb hsub
  | exhausted => trivial

lemma raises_evaluate {e : Expr} (h : e.Canonical) :
    Raises (Refusing reason) (Halt.Blames e.marks reason) (Exec.evaluate e) := by
  intro machine hm
  have herror : ∀ err env, e.eval machine.env = .error err env → err.Blames e.marks reason :=
    (raises_eval h machine.env trivial).2
  unfold Exec.evaluate
  cases he : e.eval machine.env with
  | ok value env => exact ⟨hm, fun _ _ h' => by cases h'⟩
  | error err env =>
    refine ⟨hm, fun halt machine' h' => ?_⟩
    cases h'
    exact herror err env he

lemma refusal_write (s : Sink) (text : String) : (s.write text).1.refusal = s.refusal := by
  unfold Sink.write
  cases s.room with
  | none => rfl
  | some room =>
    dsimp only
    split <;> rfl

lemma raises_write {keyword : Token} (hk : keyword.kind = .keyword .kwPrint) (value : Value) :
    Raises (Refusing reason) (Halt.Blames [.exactly keyword] reason)
      (Exec.write keyword value) := by
  intro machine hm
  have hsink := (refusal_write machine.sink (value.text ++ "\n")).trans hm
  unfold Exec.write
  dsimp only
  split
  · exact ⟨hsink, fun _ _ h' => by cases h'⟩
  · refine ⟨hsink, fun halt machine' h' => ?_⟩
    cases h'
    refine ⟨List.mem_singleton_self _, ?_⟩
    simp [RuntimeError.message, Token.runtimeMessages, hk, hsink]

lemma raises_inScope {act : Exec Unit} {P : Halt → Prop} (h : Raises (Refusing reason) P act) :
    Raises (Refusing reason) P (Exec.inScope act) := by
  intro machine hm
  obtain ⟨hstate, herror⟩ := h { machine with env := machine.env.nest } hm
  unfold Exec.inScope
  cases hact : act { machine with env := machine.env.nest } with
  | ok _ machine' =>
    rw [hact] at hstate
    exact ⟨hstate, fun _ _ h' => by cases h'⟩
  | error halt machine' =>
    rw [hact] at hstate
    refine ⟨hstate, fun halt' _ h' => ?_⟩
    cases h'
    exact herror halt machine' hact

lemma raises_loop {condition : Expr} {act : Exec Unit}
    (hcondition : Raises (Refusing reason) (Halt.Blames m reason) (Exec.evaluate condition))
    (hact : Raises (Refusing reason) (Halt.Blames m reason) act) (rounds : Nat) :
    Raises (Refusing reason) (Halt.Blames m reason) (Exec.loop condition act rounds) := by
  induction rounds with
  | zero =>
    intro machine hm
    refine ⟨hm, fun halt _ h' => ?_⟩
    cases h'
    trivial
  | succ n ih =>
    rw [Exec.loop_succ]
    exact hcondition.bind (fun _ => (hact.bind (fun _ => ih)).ite (Raises.pure ()))

lemma raises_define (name : String) (value : Value) :
    Raises (Refusing reason) (Halt.Blames m reason) (Exec.define name value) :=
  fun _ hm => ⟨hm, fun _ _ h' => by cases h'⟩

mutual

theorem raises_exec (rounds : Nat) {s : Stmt} (h : s.Canonical) :
    Raises (Refusing reason) (Halt.Blames s.marks reason) (s.exec rounds) := by
  match s with
  | .expr e =>
    exact ((raises_evaluate h).mono_halt (fun _ hm => by simp [Stmt.marks, hm])).bind
      (fun _ => Raises.pure ())
  | .print keyword e =>
    exact ((raises_evaluate h.2).mono_halt (fun _ hm => by simp [Stmt.marks, hm])).bind
      (fun value => (raises_write h.1 value).mono_halt (by simp [Stmt.marks]))
  | .declare name none => exact raises_define name.lexeme .nil
  | .declare name (some e) =>
    exact ((raises_evaluate h.2).mono_halt (fun _ hm => by simp [Stmt.marks, hm])).bind
      (fun value => raises_define name.lexeme value)
  | .block body =>
    exact raises_inScope ((raises_execAll rounds h).mono_halt
      (fun _ hm => by simp [Stmt.marks, hm]))
  | .ifThen condition yes =>
    obtain ⟨hc, hyes, -⟩ := h
    exact ((raises_evaluate hc).mono_halt (fun _ hm => by simp [Stmt.marks, hm])).bind (fun _ =>
      ((raises_exec rounds hyes).mono_halt (fun _ hm => by simp [Stmt.marks, hm])).ite
        (Raises.pure ()))
  | .ifElse condition yes no =>
    obtain ⟨hc, hyes, -, -, hno, -⟩ := h
    exact ((raises_evaluate hc).mono_halt (fun _ hm => by simp [Stmt.marks, hm])).bind (fun _ =>
      ((raises_exec rounds hyes).mono_halt (fun _ hm => by simp [Stmt.marks, hm])).ite
        ((raises_exec rounds hno).mono_halt (fun _ hm => by simp [Stmt.marks, hm])))
  | .whileDo condition body =>
    obtain ⟨hc, hbody, -⟩ := h
    exact raises_loop ((raises_evaluate hc).mono_halt (fun _ hm => by simp [Stmt.marks, hm]))
      ((raises_exec rounds hbody).mono_halt (fun _ hm => by simp [Stmt.marks, hm])) rounds

theorem raises_execAll (rounds : Nat) {body : List Stmt} (h : Stmt.CanonicalAll body) :
    Raises (Refusing reason) (Halt.Blames (Stmt.marksAll body) reason)
      (Stmt.execAll rounds body) := by
  match body with
  | [] => exact Raises.pure ()
  | s :: rest =>
    exact ((raises_exec rounds h.1).mono_halt (fun _ hm => by simp [Stmt.marksAll, hm])).bind
      (fun _ => (raises_execAll rounds h.2).mono_halt (fun _ hm => by simp [Stmt.marksAll, hm]))

end

end execution

lemma Written.mem_of_exactly {m : List Mark} {ts : List Token} {t : Token} (h : Written m ts)
    (hm : Mark.exactly t ∈ m) : t ∈ ts := by
  induction h with
  | nil => cases hm
  | cons hfits _ ih =>
    rcases List.mem_cons.mp hm with rfl | hm
    · rw [show _ = t from hfits]
      exact List.mem_cons_self
    · exact List.mem_cons_of_mem _ (ih hm)

namespace Machine
variable {m m' : Machine} {rounds : Nat} {source message : String} {found : Diagnostics}
  {token : Token} {e : RuntimeError}

lemma interpret_blames {tokens : List Token} (hp : (parse tokens).errors = [])
    (h : m.interpret rounds (parse tokens).statements = some (some e, m')) :
    e.token ∈ tokens ∧ e.message ∈ e.token.runtimeMessages m.sink.refusal := by
  have hread := readStmts_parse hp
  obtain ⟨-, hblames⟩ := raises_execAll rounds hread.canonical m (rfl : Refusing m.sink.refusal m)
  unfold interpret at h
  split at h <;> rename_i hrun <;> cases h
  have hb := hblames _ _ hrun
  have hmem := hread.written.mem_of_exactly hb.kept
  exact ⟨(List.takeWhile_prefix _).subset hmem, hb.fits⟩

lemma not_runtime_of_not_clean (h : m.run rounds source = some (found, m'))
    (hclean : ¬ ((scan source).errors = [] ∧ (parse (scan source).tokens).errors = [])) :
    .runtime token message ∉ found.all := by
  unfold run at h
  dsimp only at h
  split at h
  · rename_i hempty
    rw [List.isEmpty_iff, List.append_eq_nil_iff, List.map_eq_nil_iff, List.map_eq_nil_iff] at hempty
    exact absurd hempty hclean
  · cases h
    intro hmem
    rcases List.mem_append.mp hmem with hmem | hmem <;>
    · obtain ⟨error, -, heq⟩ := List.mem_map.mp hmem
      cases heq

/-- A runtime error names a token of the source, and its message is one of those that fit the kind
of that token. Since the first refusal ends a run, a sink with some room and some reason stands
for whatever may refuse output. -/
theorem run_blames (h : m.run rounds source = some (found, m'))
    (he : .runtime token message ∈ found.all) :
    token ∈ (scan source).tokens ∧ message ∈ token.runtimeMessages m.sink.refusal := by
  by_cases hclean : (scan source).errors = [] ∧ (parse (scan source).tokens).errors = []
  · obtain ⟨hs, hp⟩ := hclean
    rw [run_of_clean hs hp, Option.map_eq_some_iff] at h
    obtain ⟨⟨error, m''⟩, hrun, heq⟩ := h
    cases heq
    cases error with
    | none => cases he
    | some e =>
      have hblames := interpret_blames hp hrun
      rw [Option.map_some, Option.toList_some, List.mem_singleton] at he
      cases he
      exact hblames
  · exact absurd he (not_runtime_of_not_clean h hclean)

/-- The sign on the second line, applied to `nil`. -/
def minusToken : Token := ⟨.symbol .minus, "-", none, 2⟩

theorem run_blames_minus :
    ∃ m', (initial .unlimited).run 1 "var x;\nprint x == -x;" =
        some (⟨[.runtime minusToken "operand must be a number."]⟩, m') ∧
      minusToken ∈ (scan "var x;\nprint x == -x;").tokens ∧
      "operand must be a number." ∈ minusToken.runtimeMessages "sink full" := by
  have hfound : ((initial .unlimited).run 1 "var x;\nprint x == -x;").map Prod.fst =
      some ⟨[.runtime minusToken "operand must be a number."]⟩ := by decide +kernel
  obtain ⟨⟨found, m'⟩, hrun, rfl⟩ := Option.map_eq_some_iff.mp hfound
  exact ⟨m', hrun, run_blames hrun (List.mem_singleton_self _)⟩

end Machine
end Scriptlet
