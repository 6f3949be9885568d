import Scriptlet.Proofs.SideBySide
import Scriptlet.Session

/-!
# Variables that are not named

Statements that do not name a variable neither see nor touch it. Run in two environments that differ
in its bindings alone they do the same, and in both every scope keeps the binding that it had. The
scopes opened on the way do not bind it either, so what is left with them is nothing of it.
-/

namespace Scriptlet

namespace Stmt

mutual

/-- The names that a statement looks up, assigns to or declares. -/
def names : Stmt → List String
  | .expr e | .print _ e => e.names
  | .declare name none => [name.lexeme]
  | .declare name (some e) => name.lexeme :: e.names
  | .block body => namesAll body
  | .ifThen condition yes => condition.names ++ names yes
  | .ifElse condition yes no => condition.names ++ (names yes ++ names no)
  | .whileDo condition body => condition.names ++ names body

def namesAll : List Stmt → List String
  | [] => []
  | s :: rest => names s ++ namesAll rest

end

end Stmt

/-- The same chain of scopes but for the bindings of one name. -/
inductive AgreeBut (name : String) : Environment → Environment → Prop where
  | global {scope scope' : Scope}
    (h : ∀ other, other ≠ name → scope.get? other = scope'.get? other) :
    AgreeBut name (.global scope) (.global scope')
  | inside {scope scope' : Scope} {outer outer' : Environment}
    (h : ∀ other, other ≠ name → scope.get? other = scope'.get? other)
    (houter : AgreeBut name outer outer') :
    AgreeBut name (.inside scope outer) (.inside scope' outer')

/-- What a name is bound to in each of the scopes, the current one first. -/
def Environment.bindings (env : Environment) (name : String) : List (Option Value) :=
  env.scopes.map (·.get? name)

namespace Scope
variable {name other : String} {value : Value} {scope scope' : Scope}

lemma get?_set_agree (h : ∀ other, other ≠ name → scope.get? other = scope'.get? other) :
    ∀ third, third ≠ name →
      (scope.set other value).get? third = (scope'.set other value).get? third := by
  intro third hthird
  rw [get?_set, get?_set, h third hthird]

lemma get?_set_of_ne (hother : other ≠ name) :
    (scope.set other value).get? name = scope.get? name := by
  rw [get?_set, if_neg hother.symm]

end Scope

section environment
variable {name other : String} {value : Value} {env env' env₁ : Environment}

lemma AgreeBut.get? (h : AgreeBut name env env') (hother : other ≠ name) :
    env.get? other = env'.get? other := by
  induction h with
  | global h => exact h other hother
  | inside h houter ih => rw [Environment.get?, Environment.get?, h other hother, ih]

lemma AgreeBut.assign? (h : AgreeBut name env env') (hother : other ≠ name) :
    Option.Rel (AgreeBut name) (env.assign? other value) (env'.assign? other value) := by
  induction h with
  | global h =>
    rw [Environment.assign?, Environment.assign?, h other hother]
    split
    · exact .some (.global (Scope.get?_set_agree h))
    · exact .none
  | inside h houter ih =>
    rw [Environment.assign?, Environment.assign?, h other hother]
    split
    · exact .some (.inside (Scope.get?_set_agree h) houter)
    · exact optionRel_map (fun _ _ ho => .inside h ho) ih

lemma AgreeBut.define (h : AgreeBut name env env') :
    AgreeBut name (env.define other value) (env'.define other value) := by
  cases h with
  | global h => exact .global (Scope.get?_set_agree h)
  | inside h houter => exact .inside (Scope.get?_set_agree h) houter

lemma AgreeBut.nest (h : AgreeBut name env env') : AgreeBut name env.nest env'.nest :=
  .inside (fun _ _ => rfl) h

lemma AgreeBut.unnest (h : AgreeBut name env env') : AgreeBut name env.unnest env'.unnest := by
  cases h with
  | global h => exact .global h
  | inside h houter => exact houter

namespace Environment

lemma bindings_ne_nil (env : Environment) : env.bindings name ≠ [] := by
  cases env <;> exact List.cons_ne_nil _ _

lemma bindings_of_assign? (hother : other ≠ name) (h : env.assign? other value = some env₁) :
    env₁.bindings name = env.bindings name := by
  induction env generalizing env₁ with
  | global scope =>
    rw [assign?] at h
    split at h <;> cases h
    exact congrArg (fun b => [b]) (Scope.get?_set_of_ne hother)
  | inside scope outer ih =>
    rw [assign?] at h
    split at h
    · cases h
      exact congrArg (· :: outer.bindings name) (Scope.get?_set_of_ne hother)
    · obtain ⟨outer₁, ho, rfl⟩ := Option.map_eq_some_iff.mp h
      exact congrArg (scope.get? name :: ·) (ih ho)

lemma bindings_define (hother : other ≠ name) :
    (env.define other value).bindings name = env.bindings name := by
  cases env with
  | global scope => exact congrArg (fun b => [b]) (Scope.get?_set_of_ne hother)
  | inside scope outer => exact congrArg (· :: outer.bindings name) (Scope.get?_set_of_ne hother)

lemma bindings_unnest {b : Option Value} {bs : List (Option Value)} (hne : bs ≠ [])
    (h : env.bindings name = b :: bs) : env.unnest.bindings name = bs := by
  cases env with
  | global scope => exact absurd (List.cons.inj h).2.symm hne
  | inside scope outer => exact (List.cons.inj h).2

end Environment
end environment

/-- The environments agree but for a name, which is bound in each of them as it was at first. -/
structure Unaware (name : String) (bound bound' : List (Option Value)) (env env' : Environment) :
    Prop where
  agree : AgreeBut name env env'
  left : env.bindings name = bound
  right : env'.bindings name = bound'

section runs
variable {name : String} {bound bound' : List (Option Value)}

lemma Unaware.assign? {env env' : Environment} {other : String}
    (h : Unaware name bound bound' env env') (hother : other ≠ name) (value : Value) :
    Option.Rel (Unaware name bound bound') (env.assign? other value)
      (env'.assign? other value) := by
  have hagree : Option.Rel (AgreeBut name) (env.assign? other value)
    (env'.assign? other value) := h.agree.assign? hother
  have hleft (env₁ : Environment) (h₁ : env.assign? other value = some env₁) :
      env₁.bindings name = bound := (Environment.bindings_of_assign? hother h₁).trans h.left
  have hright (env₁ : Environment) (h₁ : env'.assign? other value = some env₁) :
      env₁.bindings name = bound' := (Environment.bindings_of_assign? hother h₁).trans h.right
  generalize env.assign? other value = r, env'.assign? other value = r' at hagree hleft hright
  cases hagree with
  | some ha => exact .some ⟨ha, hleft _ rfl, hright _ rfl⟩
  | none => exact .none

lemma seenAlike_unaware : SeenAlike (· ≠ name) (Unaware name bound bound') where
  get _ _ _ h hother := h.agree.get? hother
  assign _ _ _ value h hother := h.assign? hother value

lemma Unaware.define {env env' : Environment} {other : String} {value : Value}
    (h : Unaware name bound bound' env env') (hother : other ≠ name) :
    Unaware name bound bound' (env.define other value) (env'.define other value) :=
  ⟨h.agree.define, (Environment.bindings_define hother).trans h.left,
    (Environment.bindings_define hother).trans h.right⟩

lemma unaware_inScope {act : Exec Unit}
    (h : SideBySide (OnMachines (Unaware name (none :: bound) (none :: bound'))) act act) :
    SideBySide (OnMachines (Unaware name bound bound')) (Exec.inScope act) (Exec.inScope act) := by
  intro m m' hm
  have hne : bound ≠ [] := hm.1.left ▸ m.env.bindings_ne_nil
  have hne' : bound' ≠ [] := hm.1.right ▸ m'.env.bindings_ne_nil
  refine sideBySide_inScope _ (fun env env' he => ?_) (fun env env' he => ?_) h m m' hm
  · exact ⟨he.agree.nest, congrArg (none :: ·) he.left, congrArg (none :: ·) he.right⟩
  · exact ⟨he.agree.unnest, Environment.bindings_unnest hne he.left,
      Environment.bindings_unnest hne' he.right⟩

mutual

theorem unaware_exec (rounds : Nat) (s : Stmt) (hs : ∀ other ∈ s.names, other ≠ name)
    {bound bound' : List (Option Value)} :
    SideBySide (OnMachines (Unaware name bound bound')) (s.exec rounds) (s.exec rounds) := by
  match s with
  | .expr e => exact (seenAlike_unaware.evaluate hs).bind (fun _ => SideBySide.pure ())
  | .print keyword e =>
    exact (seenAlike_unaware.evaluate hs).bind (fun value => sideBySide_write keyword value)
  | .declare n none =>
    exact sideBySide_define (fun _ _ h => h.define (hs _ List.mem_cons_self))
  | .declare n (some e) =>
    obtain ⟨hn, he⟩ := List.forall_mem_cons.mp hs
    exact (seenAlike_unaware.evaluate he).bind (fun _ =>
      sideBySide_define (fun _ _ h => h.define hn))
  | .block body => exact unaware_inScope (unaware_execAll rounds body hs)
  | .ifThen condition yes =>
    obtain ⟨hc, hyes⟩ := List.forall_mem_append.mp hs
    exact (seenAlike_unaware.evaluate hc).bind (fun _ =>
      (unaware_exec rounds yes hyes).ite (SideBySide.pure ()))
  | .ifElse condition yes no =>
    obtain ⟨hc, hbranches⟩ := List.forall_mem_append.mp hs
    obtain ⟨hyes, hno⟩ := List.forall_mem_append.mp hbranches
    exact (seenAlike_unaware.evaluate hc).bind (fun _ =>
      (unaware_exec rounds yes hyes).ite (unaware_exec rounds no hno))
  | .whileDo condition body =>
    obtain ⟨hc, hbody⟩ := List.forall_mem_append.mp hs
    exact seenAlike_unaware.loop hc (unaware_exec rounds body hbody) rounds

theorem unaware_execAll (rounds : Nat) (body : List Stmt)
    (hs : ∀ other ∈ Stmt.namesAll body, other ≠ name) {bound bound' : List (Option Value)} :
    SideBySide (OnMachines (Unaware name bound bound')) (Stmt.execAll rounds body)
      (Stmt.execAll rounds body) := by
  match body with
  | [] => exact SideBySide.pure ()
  | s :: rest =>
    obtain ⟨hfirst, hrest⟩ := List.forall_mem_append.mp hs
    exact (unaware_exec rounds s hfirst).bind (fun _ => unaware_execAll rounds rest hrest)

end

end runs

namespace Machine

/-- Statements that do not name a variable, run in environments that agree but for its bindings,
come to an end in both or in neither. They end with the same error or with none and with the same
sink, in environments that agree but for those bindings, which are in each what they were. -/
theorem interpret_unnamed {name : String} {body : List Stmt} {env env' : Environment}
    (hname : name ∉ Stmt.namesAll body) (h : AgreeBut name env env') (rounds : Nat) (sink : Sink) :
    Option.Rel
      (fun (error, m) (error', m') => error = error' ∧ m.sink = m'.sink ∧
        AgreeBut name m.env m'.env ∧ m.env.bindings name = env.bindings name ∧
        m'.env.bindings name = env'.bindings name)
      (interpret rounds ⟨env, sink⟩ body) (interpret rounds ⟨env', sink⟩ body) := by
  have hrun := unaware_execAll rounds body (List.forall_mem_ne'.mpr hname)
    (⟨env, sink⟩ : Machine) ⟨env', sink⟩ ⟨⟨h, rfl, rfl⟩, rfl⟩
  unfold interpret
  generalize Stmt.execAll rounds body ⟨env, sink⟩ = r,
    Stmt.execAll rounds body ⟨env', sink⟩ = r' at hrun
  cases hrun with
  | ok _ hm => exact .some ⟨rfl, hm.2, hm.1.agree, hm.1.left, hm.1.right⟩
  | error halt hm =>
    cases halt with
    | error e => exact .some ⟨rfl, hm.2, hm.1.agree, hm.1.left, hm.1.right⟩
    | exhausted => exact .none

/-- Copies `x` to a variable of a block, unsets `x` and looks up the copy behind the block. -/
def copying : List Stmt :=
  let x : Token := ⟨.identifier, "x", none, 1⟩
  let z : Token := ⟨.identifier, "z", none, 1⟩
  [.block [.declare z (some (.ref x)), .expr (.assign x (.literal .nil))], .expr (.ref z)]

theorem interpret_unnamed_copying :
    let z : Token := ⟨.identifier, "z", none, 1⟩
    let env : Environment := .inside ⟨[("y", .bool true)]⟩ (.global ⟨[("x", .bool false)]⟩)
    let env' : Environment := .inside .empty (.global ⟨[("y", .nil), ("x", .bool false)]⟩)
    let after : Environment := .inside ⟨[("y", .bool true)]⟩ (.global ⟨[("x", .nil)]⟩)
    let sink : Sink := .limited 0
    "y" ∉ Stmt.namesAll copying ∧ AgreeBut "y" env env' ∧
      interpret 0 ⟨env, sink⟩ copying = some (some ⟨.undefinedVariable, z⟩, ⟨after, sink⟩) ∧
      Option.Rel
        (fun (error, m) (error', m') => error = error' ∧ m.sink = m'.sink ∧
          AgreeBut "y" m.env m'.env ∧ m.env.bindings "y" = env.bindings "y" ∧
          m'.env.bindings "y" = env'.bindings "y")
        (interpret 0 ⟨env, sink⟩ copying) (interpret 0 ⟨env', sink⟩ copying) := by
  intro z env env' after sink
  have hname : "y" ∉ Stmt.namesAll copying := by decide
  have hagree : AgreeBut "y" env env' := by
    refine .inside (fun other h => ?_) (.global (fun other h => ?_))
    · simp [Scope.get?, Scope.empty, List.lookup_cons, beq_eq_false_iff_ne.mpr h]
    · simp [Scope.get?, List.lookup_cons, beq_eq_false_iff_ne.mpr h]
  exact ⟨hname, hagree, rfl, interpret_unnamed hname hagree 0 sink⟩

end Machine
end Scriptlet
