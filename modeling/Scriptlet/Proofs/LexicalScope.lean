import Scriptlet.Proofs.ParserSoundness
import Scriptlet.Proofs.ScopeDistance
import Scriptlet.Proofs.Sequencing
import Scriptlet.Session

/-!
# Lexical scope

The lexical interpreter computes from the text alone in which scope a name is looked up: in that
of the nearest block around it that has declared the name so far, or else in the global one. It
goes astray where a look-up would end in any other scope. On a program that was parsed without
any error it never does, and it runs like the interpreter. The invariant is that each open scope
binds exactly the names that its block has declared.
-/

namespace Scriptlet
namespace Lexical
open EStateM (adaptExcept)

/-- The names declared so far in each of the blocks around, from the inside out. -/
abbrev Context := List (List String)

namespace Context

/-- The distance of the nearest block that declares `name`, or else of the global scope. -/
def distance (ctx : Context) (name : String) : Nat := ctx.findIdx (·.contains name)

/-- What is declared behind a statement; outside of all blocks nothing is kept. -/
def after (ctx : Context) : Stmt → Context
  | .declare name _ =>
    match ctx with
    | [] => []
    | names :: outer => (name.lexeme :: names) :: outer
  | _ => ctx

end Context

inductive Stop where
  | error (e : RuntimeError)
  | exhausted
  | astray (name : Token)

def Stop.ofHalt : Halt → Stop
  | .error e => error e
  | .exhausted => exhausted

/-- A computation that may stop early or go astray. -/
abbrev Run := EStateM Stop

/-- The distance of a name by its context, which has to be where the name is bound nearest. A name
that no block declares and no scope binds is undefined. -/
def resolve (ctx : Context) (name : Token) : Run Environment Nat := fun env =>
  let d := ctx.distance name.lexeme
  if env.nearest? name.lexeme = some d then .ok d env
  else if env.nearest? name.lexeme = none ∧ d = ctx.length then
    .error (.error ⟨.undefinedVariable, name⟩) env
  else .error (.astray name) env

def lookup (ctx : Context) (name : Token) : Run Environment Value := do
  let d ← resolve ctx name
  fun env =>
    match env.valueAt? d name.lexeme with
    | some value => .ok value env
    | none => .error (.astray name) env

def assign (ctx : Context) (name : Token) (value : Value) : Run Environment Unit := do
  let d ← resolve ctx name
  fun env => .ok () (env.setAt name.lexeme value d)

def eval (ctx : Context) : Expr → Run Environment Value
  | .literal value => pure value
  | .grouping inner => eval ctx inner
  | .unary op operand => do
    let value ← eval ctx operand
    adaptExcept .error (Expr.eval.liftExcept (Value.applyUnary op value))
  | .binary left op right => do
    let x ← eval ctx left
    let y ← eval ctx right
    adaptExcept .error (Expr.eval.liftExcept (Value.applyBinary op x y))
  | .ref name => lookup ctx name
  | .assign name e => do
    let value ← eval ctx e
    assign ctx name value
    return value

def evaluate (ctx : Context) (e : Expr) : Run Machine Value := fun m =>
  match eval ctx e m.env with
  | .ok value env => .ok value { m with env }
  | .error stop env => .error stop { m with env }

def inScope (act : Run Machine Unit) : Run Machine Unit := fun m =>
  match act { m with env := m.env.nest } with
  | .ok () m' => .ok () { m' with env := m'.env.unnest }
  | .error stop m' => .error stop { m' with env := m'.env.unnest }

def loop (condition : Run Machine Value) (act : Run Machine Unit) : Nat → Run Machine Unit
  | 0 => throw .exhausted
  | n + 1 => do
    if (← condition).isTruthy then
      act
      loop condition act n

mutual

def exec (rounds : Nat) (ctx : Context) : Stmt → Run Machine Unit
  | .expr e => do
    let _ ← evaluate ctx e
  | .print keyword e => do
    adaptExcept .ofHalt (Exec.write keyword (← evaluate ctx e))
  | .declare name none => adaptExcept .ofHalt (Exec.define name.lexeme .nil)
  | .declare name (some e) => do
    adaptExcept .ofHalt (Exec.define name.lexeme (← evaluate ctx e))
  | .block body => inScope (execAll rounds ([] :: ctx) body)
  | .ifThen condition yes => do
    if (← evaluate ctx condition).isTruthy then exec rounds ctx yes
  | .ifElse condition yes no => do
    if (← evaluate ctx condition).isTruthy then exec rounds ctx yes else exec rounds ctx no
  | .whileDo condition body => loop (evaluate ctx condition) (exec rounds ctx body) rounds

/-- Each statement sees what is declared before it. -/
def execAll (rounds : Nat) (ctx : Context) : List Stmt → Run Machine Unit
  | [] => pure ()
  | s :: rest => do
    exec rounds ctx s
    execAll rounds (ctx.after s) rest

end

/-- Each open scope binds exactly the names that its block has declared. -/
def Fits : Context → Environment → Prop
  | [], .global _ => True
  | names :: ctx, .inside scope outer =>
    (∀ name, (scope.get? name).isSome ↔ name ∈ names) ∧ Fits ctx outer
  | _, _ => False

section fits
variable {ctx : Context} {names : List String} {env env' : Environment} {name : String}
  {value : Value}

lemma Fits.nest (h : Fits ctx env) : Fits ([] :: ctx) env.nest :=
  ⟨fun _ => iff_of_false Bool.false_ne_true List.not_mem_nil, h⟩

lemma Fits.unnest (h : Fits (names :: ctx) env) : Fits ctx env.unnest := by
  cases env with
  | global scope => cases h
  | inside scope outer => exact h.2

lemma isSome_get?_set {scope : Scope} {other : String} :
    ((scope.set name value).get? other).isSome ↔ other = name ∨ (scope.get? other).isSome := by
  rw [Scope.get?_set]
  by_cases h : other = name
  · simp [h]
  · simp [h]

lemma Fits.define {token : Token} {init : Option Expr} (h : Fits ctx env) :
    Fits (ctx.after (.declare token init)) (env.define token.lexeme value) := by
  cases ctx with
  | nil =>
    cases env with
    | global scope => trivial
    | inside scope outer => cases h
  | cons names ctx =>
    cases env with
    | global scope => cases h
    | inside scope outer =>
      refine ⟨fun other => ?_, h.2⟩
      rw [isSome_get?_set, h.1 other, List.mem_cons]

lemma Fits.assign? (h : Fits ctx env) (ha : env.assign? name value = some env') :
    Fits ctx env' := by
  induction env generalizing ctx env' with
  | global scope =>
    cases ctx with
    | nil =>
      rw [Environment.assign?] at ha
      split at ha
      · cases ha
        trivial
      · cases ha
    | cons names ctx => cases h
  | inside scope outer ih =>
    cases ctx with
    | nil => cases h
    | cons names ctx =>
      rw [Environment.assign?] at ha
      split at ha
      · rename_i hs
        cases ha
        refine ⟨fun other => ?_, h.2⟩
        rw [isSome_get?_set, h.1 other, or_iff_right_of_imp]
        rintro rfl
        exact (h.1 other).mp hs
      · obtain ⟨outer', ho, rfl⟩ := Option.map_eq_some_iff.mp ha
        exact ⟨h.1, ih h.2 ho⟩

lemma Fits.nearest? (h : Fits ctx env) (name : String) :
    env.nearest? name = some (ctx.distance name) ∨
      env.nearest? name = none ∧ ctx.distance name = ctx.length := by
  induction ctx generalizing env with
  | nil =>
    cases env with
    | global scope =>
      rw [Environment.nearest?_global]
      by_cases hs : (scope.get? name).isSome
      · exact Or.inl (if_pos hs)
      · exact Or.inr ⟨if_neg hs, rfl⟩
    | inside scope outer => cases h
  | cons names ctx ih =>
    cases env with
    | global scope => cases h
    | inside scope outer =>
      rw [Environment.nearest?_inside, Context.distance, List.findIdx_cons]
      by_cases hs : (scope.get? name).isSome
      · have hmem : names.contains name = true := List.contains_iff_mem.mpr ((h.1 name).mp hs)
        rw [if_pos hs, hmem]
        exact Or.inl rfl
      · have hmem : names.contains name = false := by
          rw [Bool.eq_false_iff]
          intro hc
          exact hs ((h.1 name).mpr (List.contains_iff_mem.mp hc))
        rw [if_neg hs, hmem]
        rcases ih h.2 with hsome | ⟨hnone, hdist⟩
        · rw [hsome]
          exact Or.inl rfl
        · rw [hnone]
          exact Or.inr ⟨rfl, congrArg (· + 1) hdist⟩

end fits

/-- From state `s` two computations run alike, and where they succeed `inv` holds. -/
structure Agrees {ε σ α : Type} (f : ε → Stop) (inv : σ → Prop) (y : Run σ α)
    (x : EStateM ε σ α) (s : σ) : Prop where
  same : y s = adaptExcept f x s
  holds : ∀ a s', x s = .ok a s' → inv s'

section agrees
variable {ε σ α β : Type} {f : ε → Stop} {inv inv' : σ → Prop} {s : σ}

lemma Agrees.adaptExcept {x : EStateM ε σ α} (h : ∀ a s', x s = .ok a s' → inv s') :
    Agrees f inv (adaptExcept f x) x s := ⟨rfl, h⟩

lemma Agrees.pure (a : α) (h : inv s) : Agrees f inv (pure a) (pure a) s := by
  refine ⟨rfl, fun b s' hs => ?_⟩
  cases hs
  exact h

lemma Agrees.bind {y : Run σ α} {x : EStateM ε σ α} {next' : α → Run σ β}
    {next : α → EStateM ε σ β} (h : Agrees f inv y x s)
    (hnext : ∀ a s', inv s' → Agrees f inv' (next' a) (next a) s') :
    Agrees f inv' (y >>= next') (x >>= next) s := by
  obtain ⟨hsame, hholds⟩ := h
  unfold EStateM.adaptExcept at hsame
  cases hx : x s with
  | error e s' =>
    rw [hx] at hsame
    constructor
    · simp only [EStateM.adaptExcept, Bind.bind, EStateM.bind, hsame, hx]
    · intro a s' hs
      simp only [Bind.bind, EStateM.bind, hx] at hs
      cases hs
  | ok a s' =>
    rw [hx] at hsame
    obtain ⟨hsame', hholds'⟩ := hnext a s' (hholds a s' hx)
    constructor
    · simp only [EStateM.adaptExcept, Bind.bind, EStateM.bind, hsame, hx]
      exact hsame'
    · intro b s'' hs
      simp only [Bind.bind, EStateM.bind, hx] at hs
      exact hholds' b s'' hs

end agrees

section evaluation
variable {ctx : Context} {env : Environment}

lemma agrees_lookup (h : Fits ctx env) (name : Token) :
    Agrees .error (Fits ctx) (lookup ctx name) (Environment.lookup name) env := by
  rcases h.nearest? name.lexeme with hsome | ⟨hnone, hdist⟩
  · obtain ⟨value, hget, hat⟩ := Environment.get?_of_nearest? hsome
    have hlook : Environment.lookup name env = .ok value env := by
      rw [Environment.lookup, hget]
    constructor
    · simp [lookup, resolve, adaptExcept, bind, EStateM.bind, hsome, hat, hlook]
    · intro a env' he
      rw [hlook] at he
      cases he
      exact h
  · have hlook : Environment.lookup name env = .error ⟨.undefinedVariable, name⟩ env := by
      rw [Environment.lookup, Environment.get?_of_nearest?_none hnone]
    constructor
    · simp [lookup, resolve, adaptExcept, bind, EStateM.bind, hnone, hdist, hlook]
    · intro a env' he
      rw [hlook] at he
      cases he

lemma agrees_assign (h : Fits ctx env) (name : Token) (value : Value) :
    Agrees .error (Fits ctx) (assign ctx name value) (Environment.assign name value) env := by
  rcases h.nearest? name.lexeme with hsome | ⟨hnone, hdist⟩
  · have ha := Environment.assign?_of_nearest? value hsome
    have hassign : Environment.assign name value env =
        .ok () (env.setAt name.lexeme value (ctx.distance name.lexeme)) := by
      rw [Environment.assign, ha]
    constructor
    · simp [assign, resolve, adaptExcept, bind, EStateM.bind, hsome, hassign]
    · intro a env' he
      rw [hassign] at he
      cases he
      exact h.assign? ha
  · have hassign : Environment.assign name value env =
        .error ⟨.undefinedVariable, name⟩ env := by
      rw [Environment.assign, Environment.assign?_of_nearest?_none value hnone]
    constructor
    · simp [assign, resolve, adaptExcept, bind, EStateM.bind, hnone, hdist, hassign]
    · intro a env' he
      rw [hassign] at he
      cases he

lemma agrees_liftExcept (h : Fits ctx env) (r : Except RuntimeError Value) :
    Agrees .error (Fits ctx) (adaptExcept .error (Expr.eval.liftExcept r)) (Expr.eval.liftExcept r)
      env := by
  apply Agrees.adaptExcept
  intro a env' he
  cases r with
  | ok value =>
    cases he
    exact h
  | error e => cases he

lemma agrees_eval (e : Expr) (h : Fits ctx env) :
    Agrees .error (Fits ctx) (eval ctx e) e.eval env := by
  induction e generalizing env with
  | literal value => exact Agrees.pure value h
  | grouping e ih => exact ih h
  | unary op e ih =>
    apply (ih h).bind
    intro value env' h'
    exact agrees_liftExcept h' _
  | binary left op right ihl ihr =>
    apply (ihl h).bind
    intro x env' h'
    apply (ihr h').bind
    intro y env'' h''
    exact agrees_liftExcept h'' _
  | ref name => exact agrees_lookup h name
  | assign name e ih =>
    apply (ih h).bind
    intro value env' h'
    apply (agrees_assign h' name value).bind
    intro _ env'' h''
    exact Agrees.pure value h''

end evaluation

section execution
variable {ctx ctx' : Context} {m : Machine}

lemma agrees_evaluate (e : Expr) (h : Fits ctx m.env) :
    Agrees .ofHalt (Fits ctx ·.env) (evaluate ctx e) (Exec.evaluate e) m := by
  obtain ⟨hsame, hholds⟩ := agrees_eval e h
  unfold adaptExcept at hsame
  constructor
  · simp only [evaluate, Exec.evaluate, adaptExcept, hsame]
    cases e.eval m.env <;> rfl
  · intro value m' he
    unfold Exec.evaluate at he
    cases hev : e.eval m.env with
    | error err env =>
      rw [hev] at he
      cases he
    | ok v env =>
      rw [hev] at he
      cases he
      exact hholds _ _ hev

lemma agrees_write (keyword : Token) (value : Value) (h : Fits ctx m.env) :
    Agrees .ofHalt (Fits ctx ·.env) (adaptExcept .ofHalt (Exec.write keyword value))
      (Exec.write keyword value) m := by
  apply Agrees.adaptExcept
  intro _ m' he
  unfold Exec.write at he
  dsimp only at he
  split at he
  · cases he
    exact h
  · cases he

lemma agrees_define (name : Token) (init : Option Expr) (value : Value) (h : Fits ctx m.env) :
    Agrees .ofHalt (Fits (ctx.after (.declare name init)) ·.env)
      (adaptExcept .ofHalt (Exec.define name.lexeme value)) (Exec.define name.lexeme value) m := by
  apply Agrees.adaptExcept
  intro _ m' he
  cases he
  exact h.define

lemma agrees_inScope {names : List String} {act' : Run Machine Unit} {act : Exec Unit}
    (h : Agrees .ofHalt (Fits (names :: ctx) ·.env) act' act { m with env := m.env.nest }) :
    Agrees .ofHalt (Fits ctx ·.env) (inScope act') (Exec.inScope act) m := by
  obtain ⟨hsame, hholds⟩ := h
  unfold adaptExcept at hsame
  constructor
  · simp only [inScope, Exec.inScope, adaptExcept, hsame]
    cases act { m with env := m.env.nest } <;> rfl
  · intro _ m' he
    unfold Exec.inScope at he
    cases hact : act { m with env := m.env.nest } with
    | error halt m'' =>
      rw [hact] at he
      cases he
    | ok _ m'' =>
      rw [hact] at he
      cases he
      exact (hholds _ m'' hact).unnest

lemma agrees_loop {condition : Expr} {act' : Run Machine Unit} {act : Exec Unit}
    (hact : ∀ m, Fits ctx m.env → Agrees .ofHalt (Fits ctx ·.env) act' act m) (rounds : Nat)
    (h : Fits ctx m.env) :
    Agrees .ofHalt (Fits ctx ·.env) (loop (evaluate ctx condition) act' rounds)
      (Exec.loop condition act rounds) m := by
  induction rounds generalizing m with
  | zero => exact ⟨rfl, fun _ _ he => by cases he⟩
  | succ n ih =>
    rw [loop, Exec.loop_succ]
    apply (agrees_evaluate condition h).bind
    intro value m' h'
    split
    · exact (hact m' h').bind (fun _ _ h'' => ih h'')
    · exact Agrees.pure _ h'

lemma after_of_not_isDeclaration {s : Stmt} (h : ¬ s.isDeclaration) : ctx.after s = ctx := by
  cases s with
  | declare name init => exact absurd rfl h
  | _ => rfl

lemma foldl_after_cons (ctx : Context) (names : List String) (body : List Stmt) :
    ∃ names', body.foldl Context.after (names :: ctx) = names' :: ctx := by
  induction body generalizing names with
  | nil => exact ⟨names, rfl⟩
  | cons s rest ih =>
    cases s with
    | declare name init => exact ih _
    | _ => exact ih names

mutual

theorem agrees_exec (rounds : Nat) (s : Stmt) (hs : s.Canonical) {ctx : Context} {m : Machine}
    (h : Fits ctx m.env) :
    Agrees .ofHalt (Fits (ctx.after s) ·.env) (exec rounds ctx s) (s.exec rounds) m := by
  match s with
  | .expr e =>
    apply (agrees_evaluate e h).bind
    intro _ m' h'
    exact Agrees.pure () h'
  | .print keyword e =>
    apply (agrees_evaluate e h).bind
    intro value m' h'
    exact agrees_write keyword value h'
  | .declare name none => exact agrees_define name none .nil h
  | .declare name (some e) =>
    apply (agrees_evaluate e h).bind
    intro value m' h'
    exact agrees_define name (some e) value h'
  | .block body =>
    -- whatever the body declares is dropped with its scope
    obtain ⟨names, hnames⟩ := foldl_after_cons ctx [] body
    have hbody : Agrees .ofHalt (Fits (body.foldl Context.after ([] :: ctx)) ·.env)
        (execAll rounds ([] :: ctx) body) (Stmt.execAll rounds body)
        { m with env := m.env.nest } := agrees_execAll rounds body hs h.nest
    rw [hnames] at hbody
    exact agrees_inScope hbody
  | .ifThen condition yes =>
    obtain ⟨-, hyes, hplain⟩ := hs
    apply (agrees_evaluate condition h).bind
    intro value m' h'
    have hy := agrees_exec rounds yes hyes h'
    -- a declaration in a branch would be bound or not as the condition says
    rw [after_of_not_isDeclaration hplain] at hy
    split
    · exact hy
    · exact Agrees.pure _ h'
  | .ifElse condition yes no =>
    obtain ⟨-, hyes, hyplain, -, hno, hnplain⟩ := hs
    apply (agrees_evaluate condition h).bind
    intro value m' h'
    have hy := agrees_exec rounds yes hyes h'
    have hn := agrees_exec rounds no hno h'
    rw [after_of_not_isDeclaration hyplain] at hy
    rw [after_of_not_isDeclaration hnplain] at hn
    split
    · exact hy
    · exact hn
  | .whileDo condition body =>
    obtain ⟨-, hbody, hplain⟩ := hs
    refine agrees_loop (fun m' h' => ?_) rounds h
    have hb := agrees_exec rounds body hbody h'
    rw [after_of_not_isDeclaration hplain] at hb
    exact hb

theorem agrees_execAll (rounds : Nat) (body : List Stmt) (hs : Stmt.CanonicalAll body)
    {ctx : Context} {m : Machine} (h : Fits ctx m.env) :
    Agrees .ofHalt (Fits (body.foldl Context.after ctx) ·.env) (execAll rounds ctx body)
      (Stmt.execAll rounds body) m := by
  match body with
  | [] => exact Agrees.pure () h
  | s :: rest =>
    apply (agrees_exec rounds s hs.1 h).bind
    intro _ m' h'
    exact agrees_execAll rounds rest hs.2 h'

end

end execution

/-- When tokens are parsed without any error and run on global variables alone, every look-up ends
where the text says: the lexical interpreter does not go astray in any number of rounds, and it
stops with the same error, globals and output. -/
theorem execAll_lexical {tokens : List Token} (h : (parse tokens).errors = []) (rounds : Nat)
    (globals : Scope) (sink : Sink) :
    execAll rounds [] (parse tokens).statements ⟨.global globals, sink⟩ =
      adaptExcept .ofHalt (Stmt.execAll rounds (parse tokens).statements)
        ⟨.global globals, sink⟩ := by
  have hcan := (readStmts_parse h).canonical
  have hfits : Fits [] (Environment.global globals) := trivial
  exact (agrees_execAll rounds _ hcan hfits).same

/-- The inner `x` begins with the value of the outer one. -/
def shadowing : String := "\x7b var x = true; \x7b var x = x; x = nil; \x7d print x; \x7d"

theorem execAll_lexical_shadowing :
    (parse (scan shadowing).tokens).errors = [] ∧
      execAll 0 [] (parse (scan shadowing).tokens).statements ⟨.global .empty, .unlimited⟩ =
        adaptExcept .ofHalt (Stmt.execAll 0 (parse (scan shadowing).tokens).statements)
          ⟨.global .empty, .unlimited⟩ := by
  have h : (parse (scan shadowing).tokens).errors = [] := by decide +kernel
  exact ⟨h, execAll_lexical h 0 .empty .unlimited⟩

end Lexical
end Scriptlet
