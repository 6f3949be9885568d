import Scriptlet.Value

/-!
# Environments

A scope binds names to values. An environment is a chain of scopes, from the current one
outwards to the global one, which is always there. Names are declared in the current scope;
they are looked up and assigned in the nearest scope that binds them.
-/

namespace Scriptlet

structure Scope where
  bindings : List (String × Value)
  deriving DecidableEq

namespace Scope

def empty : Scope := ⟨[]⟩

def get? (s : Scope) (name : String) : Option Value :=
  s.bindings.lookup name

/-- Gives `name` the value, in the place of its old binding or else behind the others. -/
def setIn (name : String) (value : Value) : List (String × Value) → List (String × Value)
  | [] => [(name, value)]
  | (n, v) :: rest => if n = name then (n, value) :: rest else (n, v) :: setIn name value rest

def set (s : Scope) (name : String) (value : Value) : Scope :=
  ⟨setIn name value s.bindings⟩

theorem lookup_setIn (name other : String) (value : Value) (bindings : List (String × Value)) :
    (setIn name value bindings).lookup other =
      if other = name then some value else bindings.lookup other := by
  induction bindings with
  | nil =>
    by_cases h : other = name
    · simp [setIn, h]
    · simp [setIn, List.lookup_cons, h, beq_eq_false_iff_ne.2 h]
  | cons b rest ih =>
    obtain ⟨n, v⟩ := b
    by_cases hn : n = name
    · subst hn
      by_cases h : other = n
      · simp [setIn, h]
      · simp [setIn, List.lookup_cons, h, beq_eq_false_iff_ne.2 h]
    · by_cases ho : other = n
      · subst ho
        simp [setIn, hn]
      · simp [setIn, List.lookup_cons, hn, beq_eq_false_iff_ne.2 ho, ih]

theorem get?_set (s : Scope) (name other : String) (value : Value) :
    (s.set name value).get? other = if other = name then some value else s.get? other :=
  lookup_setIn name other value s.bindings

end Scope

/-- A chain of scopes; the current one is the outermost constructor. -/
inductive Environment where
  | global (scope : Scope)
  | inside (scope : Scope) (outer : Environment)
  deriving DecidableEq

namespace Environment

/-- The environment of a new session. -/
def initial : Environment := global .empty

/-- The number of scopes in the chain. -/
def depth : Environment → Nat
  | global _ => 1
  | inside _ outer => outer.depth + 1

/-- The scopes of the chain, the current one first. -/
def scopes : Environment → List Scope
  | global scope => [scope]
  | inside scope outer => scope :: outer.scopes

/-- The position of the current scope, counted from the global one at zero. -/
def current (env : Environment) : Nat := env.depth - 1

def nest (env : Environment) : Environment := inside .empty env

/-- Leaves the current scope; the global scope is never left. -/
def unnest : Environment → Environment
  | global scope => global scope
  | inside _ outer => outer

def define (env : Environment) (name : String) (value : Value) : Environment :=
  match env with
  | global scope => global (scope.set name value)
  | inside scope outer => inside (scope.set name value) outer

def get? (env : Environment) (name : String) : Option Value :=
  match env with
  | global scope => scope.get? name
  | inside scope outer =>
    match scope.get? name with
    | some value => some value
    | none => outer.get? name

/-- Overwrites the nearest binding of `name`; there is no answer when there is none. -/
def assign? (env : Environment) (name : String) (value : Value) : Option Environment :=
  match env with
  | global scope =>
    if (scope.get? name).isSome then some (global (scope.set name value)) else none
  | inside scope outer =>
    if (scope.get? name).isSome then some (inside (scope.set name value) outer)
    else (outer.assign? name value).map (inside scope)

theorem length_scopes (env : Environment) : env.scopes.length = env.depth := by
  induction env with
  | global scope => rfl
  | inside scope outer ih => rw [scopes, List.length_cons, ih, depth]

@[simp] theorem depth_nest (env : Environment) : env.nest.depth = env.depth + 1 := rfl

@[simp] theorem unnest_nest (env : Environment) : env.nest.unnest = env := rfl

@[simp] theorem depth_define (env : Environment) (name : String) (value : Value) :
    (env.define name value).depth = env.depth := by
  cases env <;> rfl

theorem depth_of_assign? {env env' : Environment} {name : String} {value : Value}
    (h : env.assign? name value = some env') : env'.depth = env.depth := by
  induction env generalizing env' with
  | global scope =>
    simp only [assign?] at h
    split at h <;> cases h
    rfl
  | inside scope outer ih =>
    simp only [assign?] at h
    split at h
    · cases h
      rfl
    · obtain ⟨o, ho, rfl⟩ := Option.map_eq_some_iff.1 h
      simp only [depth, ih ho]

end Environment
end Scriptlet
