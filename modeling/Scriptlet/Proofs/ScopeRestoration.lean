import Scriptlet.Proofs.ScopeDistance
import Scriptlet.Proofs.Sequencing
import Scriptlet.Session

/-!
# Scopes after a run

However a run ends, the scopes that it opened are closed, and of those that were there before only
the current one has names that are new: names that the statements declare outside of all their
blocks. One lemma for each operation on scopes is carried through expressions, loops and
statements.
-/

namespace Scriptlet

/-- From `env` to `env'` the chain of scopes stays as it is, no name is unbound anywhere, and new
names are bound in the current scope alone, which is at distance zero. -/
structure ScopesKept (names : List String) (env env' : Environment) : Prop where
  depth : env'.depth = env.depth
  current : env'.current = env.current
  kept : ∀ d name, (env.valueAt? d name).isSome → (env'.valueAt? d name).isSome
  outer : ∀ d name, 0 < d → ((env'.valueAt? d name).isSome ↔ (env.valueAt? d name).isSome)
  new : ∀ name, (env'.valueAt? 0 name).isSome → (env.valueAt? 0 name).isSome ∨ name ∈ names

namespace Stmt

/-- The names that a statement declares outside of all blocks in it. -/
def declared : Stmt → List String
  | .declare name _ => [name.lexeme]
  | .ifThen _ yes => declared yes
  | .ifElse _ yes no => declared yes ++ declared no
  | .whileDo _ body => declared body
  | .expr _ | .print _ _ | .block _ => []

def declaredAll (body : List Stmt) : List String := body.flatMap declared

end Stmt

namespace ScopesKept
variable {names more : List String} {env env' env'' : Environment}

lemma refl (names : List String) (env : Environment) : ScopesKept names env env :=
  ⟨rfl, rfl, fun _ _ h => h, fun _ _ _ => Iff.rfl, fun _ h => Or.inl h⟩

lemma trans (h : ScopesKept names env env') (h' : ScopesKept names env' env'') :
    ScopesKept names env env'' where
  depth := h'.depth.trans h.depth
  current := h'.current.trans h.current
  kept d name hb := h'.kept d name (h.kept d name hb)
  outer d name hd := (h'.outer d name hd).trans (h.outer d name hd)
  new name hb := by
    rcases h'.new name hb with hb' | hmem
    · exact h.new name hb'
    · exact Or.inr hmem

lemma mono (h : ScopesKept names env env') (hsub : names ⊆ more) : ScopesKept more env env' :=
  { h with new := fun name hb => (h.new name hb).imp_right (fun hmem => hsub hmem) }

lemma of_isSome_eq (hdepth : env'.depth = env.depth)
    (h : ∀ d name, (env'.valueAt? d name).isSome = (env.valueAt? d name).isSome) :
    ScopesKept names env env' where
  depth := hdepth
  current := by rw [Environment.current, Environment.current, hdepth]
  kept d name hb := by rwa [h d name]
  outer d name _ := by rw [h d name]
  new name hb := by
    rw [h 0 name] at hb
    exact Or.inl hb

end ScopesKept

namespace Environment
variable {env : Environment} {name other : String} {value : Value} {d : Nat}

lemma valueAt?_define_zero : (env.define name value).valueAt? 0 other =
    if other = name then some value else env.valueAt? 0 other := by
  cases env <;> exact Scope.get?_set _ _ _ _

lemma valueAt?_define_succ :
    (env.define name value).valueAt? (d + 1) other = env.valueAt? (d + 1) other := by
  cases env <;> rfl

lemma scopesKept_define (env : Environment) (name : String) (value : Value) :
    ScopesKept [name] env (env.define name value) where
  depth := depth_define env name value
  current := by rw [current, current, depth_define]
  kept d other hb := by
    cases d with
    | zero =>
      rw [valueAt?_define_zero]
      split
      · rfl
      · exact hb
    | succ d => rwa [valueAt?_define_succ]
  outer d other hd := by
    cases d with
    | zero => exact absurd hd (Nat.lt_irrefl 0)
    | succ d => rw [valueAt?_define_succ]
  new other hb := by
    rw [valueAt?_define_zero] at hb
    by_cases h : other = name
    · exact Or.inr (List.mem_singleton.mpr h)
    · rw [if_neg h] at hb
      exact Or.inl hb

lemma isSome_get?_set_of_isSome {scope : Scope} (h : (scope.get? name).isSome) (other : String) :
    ((scope.set name value).get? other).isSome = (scope.get? other).isSome := by
  rw [Scope.get?_set]
  by_cases ho : other = name
  · rw [if_pos ho, ho, h]
    rfl
  · rw [if_neg ho]

lemma isSome_valueAt?_of_assign? {env' : Environment} (h : env.assign? name value = some env')
    (d : Nat) (other : String) :
    (env'.valueAt? d other).isSome = (env.valueAt? d other).isSome := by
  induction env generalizing env' d with
  | global scope =>
    rw [assign?] at h
    split at h
    · rename_i hs
      cases h
      cases d with
      | zero => exact isSome_get?_set_of_isSome hs other
      | succ d => rfl
    · cases h
  | inside scope outer ih =>
    rw [assign?] at h
    split at h
    · rename_i hs
      cases h
      cases d with
      | zero => exact isSome_get?_set_of_isSome hs other
      | succ d => rfl
    · obtain ⟨outer', ho, rfl⟩ := Option.map_eq_some_iff.mp h
      cases d with
      | zero => rfl
      | succ d => exact ih ho d

lemma scopesKept_assign? {env' : Environment} (h : env.assign? name value = some env') :
    ScopesKept [] env env' :=
  ScopesKept.of_isSome_eq (depth_of_assign? h) (isSome_valueAt?_of_assign? h)

lemma scopesKept_unnest {names : List String} {env' : Environment}
    (h : ScopesKept names env.nest env') : ScopesKept [] env env'.unnest := by
  have hdepth := h.depth
  cases env' with
  | global scope =>
    have hpos := env.depth_pos
    rw [depth_nest, depth] at hdepth
    omega
  | inside scope outer =>
    rw [depth_nest, depth] at hdepth
    refine ScopesKept.of_isSome_eq (Nat.add_right_cancel hdepth) (fun d name => ?_)
    exact Bool.eq_iff_iff.mpr (h.outer (d + 1) name (Nat.succ_pos d))

end Environment

/-- The state in which a computation ends, in whatever way it does. -/
def finalState {ε σ α : Type} : EStateM.Result ε σ α → σ
  | .ok _ s => s
  | .error _ s => s

/-- However a computation ends, it keeps the scopes that are seen in its state. -/
def Keeps {ε σ α : Type} (names : List String) (env : σ → Environment) (x : EStateM ε σ α) : Prop :=
  ∀ s, ScopesKept names (env s) (env (finalState (x s)))

section keeps
variable {ε σ α β : Type} {names more : List String} {env : σ → Environment}

lemma Keeps.pure (a : α) : Keeps names env (pure a : EStateM ε σ α) :=
  fun s => ScopesKept.refl names (env s)

lemma Keeps.mono {x : EStateM ε σ α} (h : Keeps names env x) (hsub : names ⊆ more) :
    Keeps more env x := fun s => (h s).mono hsub

lemma Keeps.bind {x : EStateM ε σ α} {next : α → EStateM ε σ β} (h : Keeps names env x)
    (hnext : ∀ a, Keeps names env (next a)) : Keeps names env (x >>= next) := by
  intro s
  have hx := h s
  simp only [Bind.bind, EStateM.bind]
  cases hs : x s with
  | ok a s' =>
    rw [hs] at hx
    exact hx.trans (hnext a s')
  | error e s' =>
    rw [hs] at hx
    exact hx

lemma Keeps.ite {b : Bool} {x y : EStateM ε σ α} (hx : Keeps names env x)
    (hy : Keeps names env y) : Keeps names env (if b then x else y) := by
  cases b
  · exact hy
  · exact hx

end keeps

section evaluation

lemma keeps_liftExcept (r : Except RuntimeError Value) :
    Keeps [] id (Expr.eval.liftExcept r) := by
  intro env
  cases r <;> exact ScopesKept.refl [] env

lemma keeps_lookup (name : Token) : Keeps [] id (Environment.lookup name) := by
  intro env
  unfold Environment.lookup
  cases env.get? name.lexeme <;> exact ScopesKept.refl [] env

lemma keeps_assign (name : Token) (value : Value) :
    Keeps [] id (Environment.assign name value) := by
  intro env
  unfold Environment.assign
  cases h : env.assign? name.lexeme value with
  | none => exact ScopesKept.refl [] env
  | some env' => exact Environment.scopesKept_assign? h

lemma keeps_eval (e : Expr) : Keeps [] id e.eval := by
  induction e with
  | literal value => exact Keeps.pure value
  | grouping e ih => exact ih
  | unary op e ih => exact ih.bind (fun _ => keeps_liftExcept _)
  | binary left op right ihl ihr => exact ihl.bind (fun _ => ihr.bind (fun _ => keeps_liftExcept _))
  | ref name => exact keeps_lookup name
  | assign name e ih =>
    exact ih.bind (fun value => (keeps_assign name value).bind (fun _ => Keeps.pure value))

end evaluation

section execution
variable {names : List String}

lemma keeps_evaluate (e : Expr) : Keeps names Machine.env (Exec.evaluate e) := by
  intro m
  have he := (keeps_eval e m.env).mono (List.nil_subset names)
  unfold Exec.evaluate
  cases h : e.eval m.env with
  | ok value env =>
    rw [h] at he
    exact he
  | error err env =>
    rw [h] at he
    exact he

lemma keeps_write (keyword : Token) (value : Value) :
    Keeps names Machine.env (Exec.write keyword value) := by
  intro m
  unfold Exec.write
  dsimp only
  split <;> exact ScopesKept.refl names m.env

lemma keeps_define (name : String) (value : Value) :
    Keeps [name] Machine.env (Exec.define name value) :=
  fun m => m.env.scopesKept_define name value

lemma keeps_inScope {act : Exec Unit} (h : Keeps names Machine.env act) :
    Keeps [] Machine.env (Exec.inScope act) := by
  intro m
  have hact := h { m with env := m.env.nest }
  unfold Exec.inScope
  cases hm : act { m with env := m.env.nest } with
  | ok _ m' =>
    rw [hm] at hact
    exact Environment.scopesKept_unnest hact
  | error halt m' =>
    rw [hm] at hact
    exact Environment.scopesKept_unnest hact

lemma keeps_loop (condition : Expr) {act : Exec Unit} (h : Keeps names Machine.env act)
    (rounds : Nat) : Keeps names Machine.env (Exec.loop condition act rounds) := by
  induction rounds with
  | zero => exact fun m => ScopesKept.refl names m.env
  | succ n ih =>
    rw [Exec.loop_succ]
    exact (keeps_evaluate condition).bind (fun _ => (h.bind (fun _ => ih)).ite (Keeps.pure ()))

mutual

theorem keeps_exec (rounds : Nat) (s : Stmt) : Keeps s.declared Machine.env (s.exec rounds) := by
  match s with
  | .expr e => exact (keeps_evaluate e).bind (fun _ => Keeps.pure ())
  | .print keyword e => exact (keeps_evaluate e).bind (fun value => keeps_write keyword value)
  | .declare name none => exact keeps_define name.lexeme .nil
  | .declare name (some e) =>
    exact (keeps_evaluate e).bind (fun value => keeps_define name.lexeme value)
  | .block body => exact keeps_inScope (keeps_execAll rounds body)
  | .ifThen condition yes =>
    exact (keeps_evaluate condition).bind (fun _ => (keeps_exec rounds yes).ite (Keeps.pure ()))
  | .ifElse condition yes no =>
    have hyes := (keeps_exec rounds yes).mono (List.subset_append_left yes.declared no.declared)
    have hno := (keeps_exec rounds no).mono (List.subset_append_right yes.declared no.declared)
    exact (keeps_evaluate condition).bind (fun _ => hyes.ite hno)
  | .whileDo condition body => exact keeps_loop condition (keeps_exec rounds body) rounds

theorem keeps_execAll (rounds : Nat) (body : List Stmt) :
    Keeps (Stmt.declaredAll body) Machine.env (Stmt.execAll rounds body) := by
  match body with
  | [] => exact Keeps.pure ()
  | s :: rest =>
    have hs := (keeps_exec rounds s).mono
      (List.subset_append_left s.declared (Stmt.declaredAll rest))
    have hrest := (keeps_execAll rounds rest).mono
      (List.subset_append_right s.declared (Stmt.declaredAll rest))
    exact hs.bind (fun _ => hrest)

end

end execution

/-- When a statement or a list of statements has been executed, with or without a runtime error
and whatever the sink took, the scopes are those from before, and none but the current one binds
other names than before. -/
theorem scopes_restored (rounds : Nat) (m m' : Machine) :
    (∀ s : Stmt, (s.exec rounds m = .ok () m' ∨ ∃ e, s.exec rounds m = .error (.error e) m') →
      ScopesKept s.declared m.env m'.env) ∧
    ∀ body error, m.interpret rounds body = some (error, m') →
      ScopesKept (Stmt.declaredAll body) m.env m'.env := by
  constructor
  · intro s h
    have hs := keeps_exec rounds s m
    rcases h with h | ⟨e, h⟩ <;>
    · rw [h] at hs
      exact hs
  · intro body error h
    have hbody := keeps_execAll rounds body m
    unfold Machine.interpret at h
    cases hrun : Stmt.execAll rounds body m with
    | ok _ m'' =>
      rw [hrun] at h hbody
      cases h
      exact hbody
    | error halt m'' =>
      rw [hrun] at h hbody
      cases halt with
      | error e =>
        cases h
        exact hbody
      | exhausted => cases h

section refused

def keywordPrint : Token := ⟨.keyword .kwPrint, "print", none, 1⟩

/-- Declares `x` and, inside of a block, `y`, and prints there. -/
def printing : List Stmt :=
  let x : Token := ⟨.identifier, "x", none, 1⟩
  let y : Token := ⟨.identifier, "y", none, 1⟩
  [.declare x none, .block [.declare y none, .print keywordPrint (.ref y)]]

theorem scopes_restored_printing :
    let m : Machine := ⟨.inside .empty (.global .empty), .limited 0⟩
    let m' : Machine := ⟨.inside ⟨[("x", .nil)]⟩ (.global .empty), (m.sink.write "nil\n").1⟩
    m.interpret 0 printing = some (some ⟨.refusedOutput "sink full", keywordPrint⟩, m') ∧
      ScopesKept ["x"] m.env m'.env := by
  intro m m'
  have h : m.interpret 0 printing = some (some ⟨.refusedOutput "sink full", keywordPrint⟩, m') := by
    rfl
  exact ⟨h, (scopes_restored 0 m m').2 printing _ h⟩

end refused

end Scriptlet
