import Mathlib.Data.Option.Defs
import Scriptlet.Proofs.Sequencing

/-!
# Runs side by side

Two computations that start in related states and do the same step by step end with the same value
or the same error, again in related states. Of how environments are related an expression only needs
that names are looked up and assigned alike; a block also that a scope can be opened and left on
both sides.
-/

namespace Scriptlet

/-- The same value or the same error, in related states. -/
inductive SameEnd {ε σ α : Type} (states : σ → σ → Prop) :
    EStateM.Result ε σ α → EStateM.Result ε σ α → Prop where
  | ok (a : α) {s s' : σ} (h : states s s') : SameEnd states (.ok a s) (.ok a s')
  | error (e : ε) {s s' : σ} (h : states s s') : SameEnd states (.error e s) (.error e s')

/-- From related states both computations end alike. -/
def SideBySide {ε σ α : Type} (states : σ → σ → Prop) (x x' : EStateM ε σ α) : Prop :=
  ∀ s s', states s s' → SameEnd states (x s) (x' s')

section computations
variable {ε σ α β : Type} {states : σ → σ → Prop} {x x' y y' : EStateM ε σ α}

lemma SideBySide.pure (a : α) : SideBySide states (pure a : EStateM ε σ α) (pure a) :=
  fun _ _ h => .ok a h

lemma SideBySide.bind {next next' : α → EStateM ε σ β} (h : SideBySide states x x')
    (hnext : ∀ a, SideBySide states (next a) (next' a)) :
    SideBySide states (x >>= next) (x' >>= next') := by
  intro s s' hs
  have hx := h s s' hs
  simp only [Bind.bind, EStateM.bind]
  generalize x s = r, x' s' = r' at hx
  cases hx with
  | ok a h => exact hnext a _ _ h
  | error e h => exact .error e h

lemma SideBySide.ite {b : Bool} (h : SideBySide states x x') (h' : SideBySide states y y') :
    SideBySide states (if b then x else y) (if b then x' else y') := by
  cases b
  · exact h'
  · exact h

end computations

lemma optionRel_map {α α' β β' : Type} {P : α → α' → Prop} {Q : β → β' → Prop} {f : α → β}
    {f' : α' → β'} (h : ∀ a a', P a a' → Q (f a) (f' a')) {o : Option α} {o' : Option α'}
    (ho : Option.Rel P o o') : Option.Rel Q (o.map f) (o'.map f') := by
  cases ho with
  | some ha => exact .some (h _ _ ha)
  | none => exact .none

/-- In related environments the names are bound to the same values, and to assign to them relates
the environments again. -/
structure SeenAlike (names : String → Prop) (envs : Environment → Environment → Prop) : Prop where
  get : ∀ env env' name, envs env env' → names name → env.get? name = env'.get? name
  assign : ∀ env env' name value, envs env env' → names name →
    Option.Rel envs (env.assign? name value) (env'.assign? name value)

/-- The names that an expression looks up or assigns to. -/
def Expr.names : Expr → List String
  | literal _ => []
  | grouping e | unary _ e => e.names
  | binary left _ right => left.names ++ right.names
  | ref name => [name.lexeme]
  | assign name e => name.lexeme :: e.names

section evaluation
variable {names : String → Prop} {envs : Environment → Environment → Prop}

lemma sideBySide_liftExcept (r : Except RuntimeError Value) :
    SideBySide envs (Expr.eval.liftExcept r) (Expr.eval.liftExcept r) := by
  intro env env' henv
  cases r with
  | ok value => exact .ok value henv
  | error e => exact .error e henv

lemma SeenAlike.lookup (h : SeenAlike names envs) {name : Token} (hname : names name.lexeme) :
    SideBySide envs (Environment.lookup name) (Environment.lookup name) := by
  intro env env' henv
  rw [Environment.lookup, Environment.lookup, h.get env env' name.lexeme henv hname]
  cases env'.get? name.lexeme with
  | some value => exact .ok value henv
  | none => exact .error _ henv

lemma SeenAlike.assigned (h : SeenAlike names envs) {name : Token} (hname : names name.lexeme)
    (value : Value) :
    SideBySide envs (Environment.assign name value) (Environment.assign name value) := by
  intro env env' henv
  have hassign := h.assign env env' name.lexeme value henv hname
  rw [Environment.assign, Environment.assign]
  generalize env.assign? name.lexeme value = r, env'.assign? name.lexeme value = r' at hassign
  cases hassign with
  | some h => exact .ok () h
  | none => exact .error _ henv

lemma SeenAlike.eval (h : SeenAlike names envs) (e : Expr) (he : ∀ name ∈ e.names, names name) :
    SideBySide envs e.eval e.eval := by
  induction e with
  | literal value => exact SideBySide.pure value
  | grouping e ih => exact ih he
  | unary op e ih => exact (ih he).bind (fun _ => sideBySide_liftExcept _)
  | binary left op right ihl ihr =>
    obtain ⟨hleft, hright⟩ := List.forall_mem_append.mp he
    exact (ihl hleft).bind (fun _ => (ihr hright).bind (fun _ => sideBySide_liftExcept _))
  | ref name => exact h.lookup (he _ List.mem_cons_self)
  | assign name e ih =>
    obtain ⟨hname, hvalue⟩ := List.forall_mem_cons.mp he
    exact (ih hvalue).bind (fun value =>
      (h.assigned hname value).bind (fun _ => SideBySide.pure value))

end evaluation

/-- Machines with related environments and the same sink. -/
def OnMachines (envs : Environment → Environment → Prop) (m m' : Machine) : Prop :=
  envs m.env m'.env ∧ m.sink = m'.sink

section execution
variable {names : String → Prop} {envs : Environment → Environment → Prop} {act act' : Exec Unit}

lemma SeenAlike.evaluate (h : SeenAlike names envs) {e : Expr} (he : ∀ name ∈ e.names, names name) :
    SideBySide (OnMachines envs) (Exec.evaluate e) (Exec.evaluate e) := by
  intro m m' ⟨henv, hsink⟩
  have heval := h.eval e he m.env m'.env henv
  unfold Exec.evaluate
  generalize e.eval m.env = r, e.eval m'.env = r' at heval
  cases heval with
  | ok value h => exact .ok value ⟨h, hsink⟩
  | error err h => exact .error _ ⟨h, hsink⟩

lemma sideBySide_write (keyword : Token) (value : Value) :
    SideBySide (OnMachines envs) (Exec.write keyword value) (Exec.write keyword value) := by
  intro m m' ⟨henv, hsink⟩
  unfold Exec.write
  rw [hsink]
  dsimp only
  split
  · exact .ok () ⟨henv, rfl⟩
  · exact .error _ ⟨henv, rfl⟩

lemma sideBySide_define {name : String} {value : Value}
    (h : ∀ env env', envs env env' → envs (env.define name value) (env'.define name value)) :
    SideBySide (OnMachines envs) (Exec.define name value) (Exec.define name value) :=
  fun m m' hm => .ok () ⟨h m.env m'.env hm.1, hm.2⟩

lemma sideBySide_inScope (inner : Environment → Environment → Prop)
    (hnest : ∀ env env', envs env env' → inner env.nest env'.nest)
    (hunnest : ∀ env env', inner env env' → envs env.unnest env'.unnest)
    (h : SideBySide (OnMachines inner) act act') :
    SideBySide (OnMachines envs) (Exec.inScope act) (Exec.inScope act') := by
  intro m m' ⟨henv, hsink⟩
  have hact := h { m with env := m.env.nest } { m' with env := m'.env.nest }
    ⟨hnest m.env m'.env henv, hsink⟩
  unfold Exec.inScope
  generalize act { m with env := m.env.nest } = r, act' { m' with env := m'.env.nest } = r' at hact
  cases hact with
  | ok _ h => exact .ok () ⟨hunnest _ _ h.1, h.2⟩
  | error halt h => exact .error halt ⟨hunnest _ _ h.1, h.2⟩

lemma SeenAlike.loop (h : SeenAlike names envs) {condition : Expr}
    (hc : ∀ name ∈ condition.names, names name) (hact : SideBySide (OnMachines envs) act act')
    (rounds : Nat) :
    SideBySide (OnMachines envs) (Exec.loop condition act rounds)
      (Exec.loop condition act' rounds) := by
  induction rounds with
  | zero =>
    intro m m' hm
    rw [Exec.loop, Exec.loop]
    exact .error _ hm
  | succ n ih =>
    rw [Exec.loop_succ, Exec.loop_succ]
    exact (h.evaluate hc).bind (fun _ => (hact.bind (fun _ => ih)).ite (SideBySide.pure ()))

end execution
end Scriptlet
