import Mathlib.Tactic.Lemma
import Scriptlet.Environment

/-!
# Distances of scopes

A look-up walks outwards and ends at some distance from the current scope. Here the walk and the
access at a given distance are told apart; looking up and assigning are the walk followed by the
access.
-/

namespace Scriptlet
namespace Environment

/-- How many scopes a look-up of `name` leaves behind. -/
def nearest? (env : Environment) (name : String) : Option Nat :=
  env.scopes.findIdx? (fun scope => (scope.get? name).isSome)

/-- The value of `name` in the scope at distance `d`. -/
def valueAt? (env : Environment) (d : Nat) (name : String) : Option Value :=
  env.scopes[d]?.bind (·.get? name)

/-- Gives `name` the value in the scope at a distance. -/
def setAt (name : String) (value : Value) : Nat → Environment → Environment
  | 0, global scope => global (scope.set name value)
  | 0, inside scope outer => inside (scope.set name value) outer
  | _ + 1, global scope => global scope
  | d + 1, inside scope outer => inside scope (outer.setAt name value d)

lemma depth_pos (env : Environment) : 0 < env.depth := by
  cases env with
  | global scope => exact Nat.one_pos
  | inside scope outer => exact Nat.succ_pos _

variable {name : String} {env outer : Environment} {scope : Scope} {d : Nat}

lemma nearest?_global :
    (global scope).nearest? name = if (scope.get? name).isSome then some 0 else none := by
  rw [nearest?, scopes, List.findIdx?_singleton]

lemma nearest?_inside : (inside scope outer).nearest? name =
    if (scope.get? name).isSome then some 0 else (outer.nearest? name).map (· + 1) := by
  rw [nearest?, scopes, List.findIdx?_cons]
  rfl

lemma nearest?_global_some : (global scope).nearest? name = some d ↔
    (scope.get? name).isSome ∧ d = 0 := by
  rw [nearest?_global]
  cases scope.get? name <;> simp [eq_comm]

lemma nearest?_inside_some : (inside scope outer).nearest? name = some d ↔
    (scope.get? name).isSome ∧ d = 0 ∨
      scope.get? name = none ∧ ∃ k, outer.nearest? name = some k ∧ k + 1 = d := by
  rw [nearest?_inside]
  cases scope.get? name with
  | some value => simp [eq_comm]
  | none => simp

lemma nearest?_global_none : (global scope).nearest? name = none ↔ scope.get? name = none := by
  rw [nearest?_global]
  cases scope.get? name <;> simp

lemma nearest?_inside_none : (inside scope outer).nearest? name = none ↔
    scope.get? name = none ∧ outer.nearest? name = none := by
  rw [nearest?_inside]
  cases scope.get? name <;> simp

lemma get?_of_nearest? (h : env.nearest? name = some d) :
    ∃ value, env.get? name = some value ∧ env.valueAt? d name = some value := by
  induction env generalizing d with
  | global scope =>
    obtain ⟨hs, rfl⟩ := nearest?_global_some.mp h
    obtain ⟨value, hv⟩ := Option.isSome_iff_exists.mp hs
    exact ⟨value, hv, hv⟩
  | inside scope outer ih =>
    rcases nearest?_inside_some.mp h with ⟨hs, rfl⟩ | ⟨hs, k, hk, rfl⟩
    · obtain ⟨value, hv⟩ := Option.isSome_iff_exists.mp hs
      refine ⟨value, ?_, hv⟩
      rw [get?, hv]
    · rw [get?, hs]
      exact ih hk

lemma get?_of_nearest?_none (h : env.nearest? name = none) : env.get? name = none := by
  induction env with
  | global scope => exact nearest?_global_none.mp h
  | inside scope outer ih =>
    obtain ⟨hs, ho⟩ := nearest?_inside_none.mp h
    rw [get?, hs]
    exact ih ho

lemma assign?_of_nearest? (value : Value) (h : env.nearest? name = some d) :
    env.assign? name value = some (env.setAt name value d) := by
  induction env generalizing d with
  | global scope =>
    obtain ⟨hs, rfl⟩ := nearest?_global_some.mp h
    rw [assign?, if_pos hs, setAt]
  | inside scope outer ih =>
    rcases nearest?_inside_some.mp h with ⟨hs, rfl⟩ | ⟨hs, k, hk, rfl⟩
    · rw [assign?, if_pos hs, setAt]
    · rw [assign?, hs, Option.isSome_none, if_neg Bool.false_ne_true, ih hk, Option.map_some, setAt]

lemma assign?_of_nearest?_none (value : Value) (h : env.nearest? name = none) :
    env.assign? name value = none := by
  induction env with
  | global scope => rw [assign?, nearest?_global_none.mp h, Option.isSome_none, if_neg Bool.false_ne_true]
  | inside scope outer ih =>
    obtain ⟨hs, ho⟩ := nearest?_inside_none.mp h
    rw [assign?, hs, Option.isSome_none, if_neg Bool.false_ne_true, ih ho, Option.map_none]

end Environment
end Scriptlet
