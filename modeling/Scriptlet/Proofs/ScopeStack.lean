import Mathlib.Data.Finmap
import Mathlib.Data.List.Basic
import Scriptlet.Evaluation
import Scriptlet.Proofs.ScopeDistance

/-!
# Scopes as a stack of finite maps

The five operations on scopes, said of a list of finite maps with the current one in front. An
environment answers them as this stack does and shows the same maps after each.
-/

namespace Scriptlet

/-- The bindings of one scope. -/
abbrev Frame := Finmap (fun _ : String => Value)

inductive ScopeOp where
  | nest
  | unnest
  | define (name : String) (value : Value)
  | get (name : Token)
  | assign (name : Token) (value : Value)

/-- What an operation answers. A scope that is opened is told by its place, the global scope
being at zero. -/
inductive ScopeAnswer where
  | opened (place : Nat)
  | done
  | value (v : Value)
  | failed (token : Token) (message : String)

namespace ScopeAnswer

def undefined (name : Token) : ScopeAnswer :=
  failed name ("undefined variable '" ++ name.lexeme ++ "'.")

def ofError (e : RuntimeError) : ScopeAnswer := failed e.token e.message

end ScopeAnswer

/-- One operation after the other, with all answers in order. -/
def runOps {σ : Type} (step : ScopeOp → σ → ScopeAnswer × σ) :
    List ScopeOp → σ → List ScopeAnswer × σ
  | [], s => ([], s)
  | op :: ops, s =>
    let (answer, s') := step op s
    let (answers, s'') := runOps step ops s'
    (answer :: answers, s'')

namespace ScopeStack

/-- The stack without its front map, unless only one map is left. -/
def pop : List Frame → List Frame
  | _ :: f :: fs => f :: fs
  | fs => fs

/-- The value in the front map of those that have the name. -/
def get? (fs : List Frame) (name : String) : Option Value := fs.findSome? (·.lookup name)

/-- Overwrites the value in the front map of those that have the name. -/
def assign? (fs : List Frame) (name : String) (value : Value) : Option (List Frame) :=
  (fs.findIdx? (name ∈ ·)).map (fun i => fs.modify i (·.insert name value))

def step : ScopeOp → List Frame → ScopeAnswer × List Frame
  | .nest, fs => (.opened fs.length, ∅ :: fs)
  | .unnest, fs => (.done, pop fs)
  | .define name value, fs => (.done, fs.modifyHead (·.insert name value))
  | .get name, fs =>
    match get? fs name.lexeme with
    | some value => (.value value, fs)
    | none => (.undefined name, fs)
  | .assign name value, fs =>
    match assign? fs name.lexeme value with
    | some fs' => (.done, fs')
    | none => (.undefined name, fs)

end ScopeStack

namespace Environment

def step : ScopeOp → Environment → ScopeAnswer × Environment
  | .nest, env => (.opened env.nest.current, env.nest)
  | .unnest, env => (.done, env.unnest)
  | .define name value, env => (.done, env.define name value)
  | .get name, env =>
    match lookup name env with
    | .ok value env' => (.value value, env')
    | .error e env' => (.ofError e, env')
  | .assign name value, env =>
    match assign name value env with
    | .ok _ env' => (.done, env')
    | .error e env' => (.ofError e, env')

end Environment

namespace Scope

def frame (s : Scope) : Frame := (s.bindings.map (fun b => Sigma.mk b.1 b.2)).toFinmap

lemma lookup_frame (s : Scope) (name : String) : s.frame.lookup name = s.get? name := by
  obtain ⟨bindings⟩ := s
  unfold frame get?
  rw [Finmap.dlookup_list_toFinmap]
  induction bindings with
  | nil => rfl
  | cons b rest ih =>
    rw [List.map_cons, List.lookup_cons]
    by_cases h : name = b.1
    · subst h
      simp [List.dlookup_cons_eq]
    · rw [List.dlookup_cons_ne _ _ h, ih, beq_eq_false_iff_ne.mpr h]

lemma mem_frame_iff {s : Scope} {name : String} : name ∈ s.frame ↔ (s.get? name).isSome := by
  rw [← Finmap.lookup_isSome, lookup_frame]

lemma frame_set (s : Scope) (name : String) (value : Value) :
    (s.set name value).frame = s.frame.insert name value := by
  apply Finmap.ext_lookup
  intro other
  rw [lookup_frame, get?_set]
  by_cases h : other = name
  · subst h
    simp
  · rw [if_neg h, Finmap.lookup_insert_of_ne _ h, lookup_frame]

end Scope

namespace Environment
variable {env : Environment} {name : String} {value : Value}

/-- The maps that an environment shows, the current one in front. -/
def frames (env : Environment) : List Frame := env.scopes.map Scope.frame

lemma length_frames : env.frames.length = env.depth := by
  rw [frames, List.length_map, length_scopes]

lemma frames_unnest : env.unnest.frames = ScopeStack.pop env.frames := by
  cases env with
  | global scope => rfl
  | inside scope outer => cases outer <;> rfl

lemma frames_define :
    (env.define name value).frames = env.frames.modifyHead (·.insert name value) := by
  cases env with
  | global scope => simp [define, frames, scopes, Scope.frame_set]
  | inside scope outer => simp [define, frames, scopes, Scope.frame_set]

lemma get?_frames : ScopeStack.get? env.frames name = env.get? name := by
  induction env with
  | global scope => simp [ScopeStack.get?, frames, scopes, get?, Scope.lookup_frame]
  | inside scope outer ih =>
    have hframes : (inside scope outer).frames = scope.frame :: outer.frames := rfl
    unfold ScopeStack.get? at ih ⊢
    rw [hframes, List.findSome?_cons, Scope.lookup_frame, get?, ih]
    cases scope.get? name <;> rfl

lemma assign?_frames :
    ScopeStack.assign? env.frames name value = (env.assign? name value).map frames := by
  induction env with
  | global scope =>
    by_cases h : (scope.get? name).isSome
    · simp [ScopeStack.assign?, frames, scopes, assign?, h, Scope.mem_frame_iff, Scope.frame_set]
    · simp [ScopeStack.assign?, frames, scopes, assign?, h, Scope.mem_frame_iff]
  | inside scope outer ih =>
    have hframes : (inside scope outer).frames = scope.frame :: outer.frames := rfl
    unfold ScopeStack.assign? at ih ⊢
    rw [hframes, List.findIdx?_cons, assign?]
    by_cases h : (scope.get? name).isSome
    · simp [h, Scope.mem_frame_iff, frames, scopes, Scope.frame_set]
    · have hmem : name ∉ scope.frame := mt Scope.mem_frame_iff.mp h
      have hinside : frames ∘ inside scope = (scope.frame :: ·) ∘ frames := rfl
      rw [if_neg h, Option.map_map, hinside, ← Option.map_map, ← ih]
      simp [hmem, Option.map_map, Function.comp_def]

end Environment

lemma step_frames (op : ScopeOp) (env : Environment) :
    ScopeStack.step op env.frames =
      ((Environment.step op env).1, (Environment.step op env).2.frames) := by
  cases op with
  | nest =>
    have hplace : env.nest.current = env.depth := Nat.add_sub_cancel env.depth 1
    simp only [ScopeStack.step, Environment.step, Environment.length_frames, hplace]
    rfl
  | unnest => simp only [ScopeStack.step, Environment.step, Environment.frames_unnest]
  | define name value => simp only [ScopeStack.step, Environment.step, Environment.frames_define]
  | get name =>
    simp only [ScopeStack.step, Environment.step, Environment.lookup, Environment.get?_frames]
    cases env.get? name.lexeme <;> rfl
  | assign name value =>
    simp only [ScopeStack.step, Environment.step, Environment.assign, Environment.assign?_frames]
    cases env.assign? name.lexeme value <;> rfl

end Scriptlet
