import Scriptlet.Proofs.ScopeStack

/-!
# Scopes in an arena

A chain of scopes may also be kept in one list, in which each scope holds the place of the one
around it. The operations then go by places and links, and one that meets a place at which there
is no scope, or more links than scopes, has no answer. The arena of an environment is its chain in
order, so an arena that began with the global scope alone always has an answer.
-/

namespace Scriptlet

structure ArenaScope where
  bindings : Scope
  enclosing : Option Nat

/-- Scopes by their places, with the place of the current one. -/
structure Arena where
  scopes : List ArenaScope
  current : Nat

namespace Arena

def initial : Arena := ⟨[⟨.empty, none⟩], 0⟩

def depth (a : Arena) : Nat := a.scopes.length

def nest (a : Arena) : Arena := ⟨a.scopes ++ [⟨.empty, some a.current⟩], a.scopes.length⟩

def unnest (a : Arena) : Arena :=
  if a.depth = 1 then a
  else
    match a.scopes.getLast? with
    | some s => ⟨a.scopes.dropLast, s.enclosing.getD 0⟩
    | none => a

/-- Binds a name in the scope at a place, which has to be there. -/
def bindAt (a : Arena) (place : Nat) (name : String) (value : Value) : Option Arena :=
  a.scopes[place]?.map fun s =>
    { a with scopes := a.scopes.set place { s with bindings := s.bindings.set name value } }

/-- Follows the links outwards from a place to a scope that binds the name, if there is one; at
most `links` scopes are visited. -/
def resolveFrom (scopes : List ArenaScope) (name : String) :
    Nat → Option Nat → Option (Option Nat)
  | _, none => some none
  | 0, some _ => none
  | links + 1, some place =>
    match scopes[place]? with
    | none => none
    | some s =>
      if (s.bindings.get? name).isSome then some (some place)
      else resolveFrom scopes name links s.enclosing

def resolve (a : Arena) (name : String) : Option (Option Nat) :=
  resolveFrom a.scopes name a.depth (some a.current)

def step : ScopeOp → Arena → Option (ScopeAnswer × Arena)
  | .nest, a => some (.opened a.nest.current, a.nest)
  | .unnest, a => some (.done, a.unnest)
  | .define name value, a => (a.bindAt a.current name value).map (.done, ·)
  | .get name, a => do
    match ← a.resolve name.lexeme with
    | none => return (.undefined name, a)
    | some place =>
      let s ← a.scopes[place]?
      match s.bindings.get? name.lexeme with
      | none => return (.undefined name, a)
      | some value => return (.value value, a)
  | .assign name value, a => do
    match ← a.resolve name.lexeme with
    | none => return (.undefined name, a)
    | some place => (a.bindAt place name.lexeme value).map (.done, ·)

/-- One operation after the other, as long as each has an answer. -/
def run : List ScopeOp → Arena → Option (List ScopeAnswer × Arena)
  | [], a => some ([], a)
  | op :: ops, a => do
    let (answer, a') ← step op a
    let (answers, a'') ← run ops a'
    return (answer :: answers, a'')

end Arena

namespace Environment

def arenaScopes : Environment → List ArenaScope
  | global scope => [⟨scope, none⟩]
  | inside scope outer => outer.arenaScopes ++ [⟨scope, some outer.current⟩]

/-- The scopes of an environment from the outside in, each linked to the one before it. -/
def arena (env : Environment) : Arena := ⟨env.arenaScopes, env.current⟩

section arena
variable {env outer : Environment} {scope : Scope} {name : String} {value : Value} {d : Nat}

@[simp] lemma length_arenaScopes : env.arenaScopes.length = env.depth := by
  induction env with
  | global scope => rfl
  | inside scope outer ih => rw [arenaScopes, List.length_append, ih]; rfl

lemma frames_arena (env : Environment) :
    (env.arena.scopes.map (·.bindings.frame)).reverse = env.frames := by
  induction env with
  | global scope => rfl
  | inside scope outer ih =>
    unfold arena at ih ⊢
    rw [arenaScopes, List.map_append, List.reverse_append, ih]
    rfl

lemma current_inside : (inside scope outer).current = outer.depth := Nat.add_sub_cancel _ 1

lemma current_lt_depth (env : Environment) : env.current < env.depth := by
  have hpos := env.depth_pos
  unfold current
  omega

lemma enclosing_arenaScopes {i : Nat} {s : ArenaScope} (h : env.arenaScopes[i]? = some s) :
    s.enclosing = if i = 0 then none else some (i - 1) := by
  induction env with
  | global scope =>
    obtain ⟨rfl, rfl⟩ : i = 0 ∧ _ = s := by
      rw [arenaScopes, List.getElem?_singleton] at h
      split at h
      · exact ⟨‹_›, Option.some.inj h⟩
      · cases h
    rfl
  | inside scope outer ih =>
    by_cases hi : i < outer.depth
    · rw [arenaScopes, List.getElem?_append_left (by rwa [length_arenaScopes])] at h
      exact ih h
    · have hlast : i = outer.arenaScopes.length := by
        have hlt := (List.getElem?_eq_some_iff.mp h).1
        rw [length_arenaScopes, depth] at hlt
        rw [length_arenaScopes]
        omega
      subst hlast
      rw [arenaScopes, List.getElem?_concat_length] at h
      cases h
      have hpos := outer.depth_pos
      rw [length_arenaScopes, if_neg (by omega)]
      rfl

lemma depth_setAt : (env.setAt name value d).depth = env.depth := by
  induction env generalizing d with
  | global scope => cases d <;> rfl
  | inside scope outer ih =>
    cases d with
    | zero => rfl
    | succ d => rw [setAt, depth, ih, depth]

lemma arenaScopes_at (name : String) (value : Value) (h : d < env.depth) :
    ∃ s, env.arenaScopes[env.current - d]? = some s ∧ env.scopes[d]? = some s.bindings ∧
      env.arenaScopes.set (env.current - d) { s with bindings := s.bindings.set name value } =
        (env.setAt name value d).arenaScopes := by
  induction env generalizing d with
  | global scope =>
    obtain rfl : d = 0 := Nat.lt_one_iff.mp h
    exact ⟨⟨scope, none⟩, rfl, rfl, rfl⟩
  | inside scope outer ih =>
    rw [current_inside]
    cases d with
    | zero =>
      refine ⟨⟨scope, some outer.current⟩, ?_, rfl, ?_⟩
      · rw [Nat.sub_zero, ← length_arenaScopes, arenaScopes, List.getElem?_concat_length]
      · rw [Nat.sub_zero, arenaScopes, List.set_append, length_arenaScopes,
          if_neg (Nat.lt_irrefl _), Nat.sub_self]
        rfl
    | succ d =>
      have hd : d < outer.depth := Nat.lt_of_succ_lt_succ h
      have hplace : outer.depth - (d + 1) = outer.current - d := by
        unfold current
        omega
      have hlt : outer.current - d < outer.arenaScopes.length := by
        have := outer.current_lt_depth
        rw [length_arenaScopes]
        omega
      obtain ⟨s, hs, hscope, hset⟩ := ih hd
      refine ⟨s, ?_, hscope, ?_⟩
      · rw [hplace, arenaScopes, List.getElem?_append_left hlt, hs]
      · rw [hplace, arenaScopes, List.set_append, if_pos hlt, hset]
        rw [setAt, arenaScopes, current, current, depth_setAt]

lemma nearest?_lt_depth (h : env.nearest? name = some d) : d < env.depth := by
  rw [← length_scopes]
  exact (List.findIdx?_eq_some_iff_findIdx_eq.mp h).1

lemma resolveFrom_arenaScopes (name : String) (extra : List ArenaScope) {links : Nat}
    (h : env.depth ≤ links) :
    Arena.resolveFrom (env.arenaScopes ++ extra) name links (some env.current) =
      some ((env.nearest? name).map (env.current - ·)) := by
  induction env generalizing links extra with
  | global scope =>
    obtain ⟨n, rfl⟩ := Nat.exists_eq_add_of_le' h
    rw [nearest?_global]
    by_cases hs : (scope.get? name).isSome
    · simp [Arena.resolveFrom, arenaScopes, current, depth, hs]
    · simp [Arena.resolveFrom, arenaScopes, current, depth, hs]
  | inside scope outer ih =>
    obtain ⟨n, rfl⟩ : ∃ n, links = n + 1 := ⟨links - 1, by rw [depth] at h; omega⟩
    have hfound : ((inside scope outer).arenaScopes ++ extra)[outer.depth]? =
        some ⟨scope, some outer.current⟩ := by
      rw [arenaScopes, List.append_assoc, ← length_arenaScopes]
      simp
    rw [current_inside, Arena.resolveFrom, hfound, nearest?_inside]
    by_cases hs : (scope.get? name).isSome
    · simp [hs]
    · have hn : outer.depth ≤ n := Nat.le_of_succ_le_succ h
      have hplace : (outer.depth - ·) ∘ (· + 1) = (outer.current - ·) := by
        funext d
        simp only [Function.comp_apply, current]
        omega
      dsimp only
      rw [if_neg hs, if_neg hs, arenaScopes, List.append_assoc, Option.map_map, hplace]
      exact ih _ hn

lemma resolve_arena :
    env.arena.resolve name = some ((env.nearest? name).map (env.current - ·)) := by
  have h := resolveFrom_arenaScopes name [] (Nat.le_refl env.depth)
  rw [List.append_nil] at h
  unfold Arena.resolve Arena.depth arena
  rwa [length_arenaScopes]

lemma bindAt_arena (name : String) (value : Value) (h : d < env.depth) :
    env.arena.bindAt (env.current - d) name value = some (env.setAt name value d).arena := by
  obtain ⟨s, hs, -, hset⟩ := env.arenaScopes_at name value h
  unfold Arena.bindAt arena
  rw [hs, Option.map_some, hset, current, current, depth_setAt]

lemma arena_unnest : env.arena.unnest = env.unnest.arena := by
  cases env with
  | global scope => rfl
  | inside scope outer =>
    have hdepth : ¬ outer.depth = 0 := Nat.ne_of_gt outer.depth_pos
    simp [Arena.unnest, Arena.depth, arena, arenaScopes, unnest, hdepth]

lemma arena_nest : env.arena.nest = env.nest.arena := by
  unfold Arena.nest arena
  rw [length_arenaScopes, nest, current_inside]
  rfl

lemma define_eq_setAt : env.define name value = env.setAt name value 0 := by
  cases env <;> rfl

/-- An operation has an answer on the arena of an environment, the same as on the environment, and
leaves the arena of what that becomes. -/
lemma step_arena (op : ScopeOp) (env : Environment) :
    Arena.step op env.arena = some ((step op env).1, (step op env).2.arena) := by
  cases op with
  | nest =>
    rw [Arena.step, arena_nest]
    rfl
  | unnest =>
    rw [Arena.step, arena_unnest]
    rfl
  | define name value =>
    have hbind := env.bindAt_arena name value env.depth_pos
    rw [Nat.sub_zero, ← define_eq_setAt] at hbind
    have hcurrent : env.arena.current = env.current := rfl
    rw [Arena.step, hcurrent, hbind]
    rfl
  | get name =>
    rw [Arena.step, resolve_arena, step, lookup]
    cases hn : env.nearest? name.lexeme with
    | none =>
      rw [get?_of_nearest?_none hn]
      rfl
    | some d =>
      obtain ⟨value, hget, hat⟩ := get?_of_nearest? hn
      obtain ⟨s, hs, hscope, -⟩ := env.arenaScopes_at name.lexeme value (nearest?_lt_depth hn)
      have hvalue : s.bindings.get? name.lexeme = some value := by
        rwa [valueAt?, hscope, Option.bind_some] at hat
      have hplace : env.arena.scopes[env.current - d]? = some s := hs
      simp only [hget, Option.map_some, bind, Option.bind_some, hplace, hvalue]
      rfl
  | assign name value =>
    rw [Arena.step, resolve_arena, step, assign]
    cases hn : env.nearest? name.lexeme with
    | none =>
      rw [assign?_of_nearest?_none value hn]
      rfl
    | some d =>
      have hbind := env.bindAt_arena name.lexeme value (nearest?_lt_depth hn)
      simp only [assign?_of_nearest? value hn, Option.map_some, bind, Option.bind_some, hbind]

lemma run_arena (ops : List ScopeOp) (env : Environment) :
    Arena.run ops env.arena = some ((runOps step ops env).1, (runOps step ops env).2.arena) := by
  induction ops generalizing env with
  | nil => rfl
  | cons op ops ih =>
    rw [Arena.run, step_arena]
    simp only [bind, Option.bind_some, ih]
    rfl

end arena
end Environment

lemma runOps_frames (ops : List ScopeOp) (env : Environment) :
    runOps ScopeStack.step ops env.frames =
      ((runOps Environment.step ops env).1, (runOps Environment.step ops env).2.frames) := by
  induction ops generalizing env with
  | nil => rfl
  | cons op ops ih =>
    rw [runOps, step_frames]
    dsimp only
    rw [ih]
    rfl

/-- Whatever operations are done from the beginning on, an environment, an arena and a stack of
finite maps, which is never empty, answer alike and bind the same values in each of their scopes.
In the arena the last place is the current one and each place links to the one before it, so every
search ends in bounds. -/
theorem scopes_refine_stack (ops : List ScopeOp) : ∃ answers stack env arena,
    runOps ScopeStack.step ops [∅] = (answers, stack) ∧
    runOps Environment.step ops .initial = (answers, env) ∧
    Arena.run ops .initial = some (answers, arena) ∧
    stack ≠ [] ∧
    (env.frames = stack ∧ env.depth = stack.length ∧ env.current = stack.length - 1) ∧
    (arena.scopes.map (·.bindings.frame)).reverse = stack ∧
    arena.depth = stack.length ∧ arena.current = stack.length - 1 ∧
    (∀ i s, arena.scopes[i]? = some s → s.enclosing = if i = 0 then none else some (i - 1)) ∧
    ∀ name, arena.resolve name ≠ none := by
  have hstack := runOps_frames ops .initial
  have harena := Environment.run_arena ops .initial
  generalize henv : runOps Environment.step ops .initial = result at hstack harena
  obtain ⟨answers, env⟩ := result
  have hlength : env.frames.length = env.depth := Environment.length_frames
  refine ⟨answers, env.frames, env, env.arena, hstack, rfl, harena, ?_, ⟨rfl, hlength.symm, ?_⟩,
    env.frames_arena, ?_, ?_, fun i s hs => Environment.enclosing_arenaScopes hs, ?_⟩
  · have hpos := env.depth_pos
    exact List.ne_nil_of_length_pos (by omega)
  · rw [hlength]
    rfl
  · rw [hlength]
    exact Environment.length_arenaScopes
  · rw [hlength]
    rfl
  · intro name
    rw [Environment.resolve_arena]
    exact Option.some_ne_none _

end Scriptlet
