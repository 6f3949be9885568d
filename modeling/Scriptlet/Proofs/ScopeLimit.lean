import Scriptlet.Proofs.NestingCounter
import Scriptlet.Proofs.ScopeRestoration

/-!
# The nesting limit at run time

As many levels as a statement nests, so many scopes at most do its blocks open in each other. To say
that there are no more at any time of a run, execution is given a limit: where a scope would be
opened beyond it, something else is done instead. When that never happens, it does not matter what
is done instead.
-/

namespace Scriptlet

/-- Runs `act` in a new scope unless that makes more scopes than the limit, and else `otherwise`. -/
def Exec.inScopeWithin (limit : Nat) (otherwise act : Exec Unit) : Exec Unit := fun m =>
  if m.env.depth < limit then inScope act m else otherwise m

namespace Stmt

mutual

/-- Executes a statement with `otherwise` for its blocks where there are as many scopes already as
the limit allows. -/
def execWithin (limit : Nat) (otherwise : Exec Unit) (rounds : Nat) : Stmt → Exec Unit
  | .block body => Exec.inScopeWithin limit otherwise (execAllWithin limit otherwise rounds body)
  | .ifThen condition yes => do
    if (← Exec.evaluate condition).isTruthy then execWithin limit otherwise rounds yes
  | .ifElse condition yes no => do
    if (← Exec.evaluate condition).isTruthy then execWithin limit otherwise rounds yes
    else execWithin limit otherwise rounds no
  | .whileDo condition body => Exec.loop condition (execWithin limit otherwise rounds body) rounds
  | .expr e => exec rounds (.expr e)
  | .print keyword e => exec rounds (.print keyword e)
  | .declare name init => exec rounds (.declare name init)

def execAllWithin (limit : Nat) (otherwise : Exec Unit) (rounds : Nat) : List Stmt → Exec Unit
  | [] => pure ()
  | s :: rest => do
    execWithin limit otherwise rounds s
    execAllWithin limit otherwise rounds rest

end

end Stmt

section within
variable {α β : Type} {limit : Nat} {otherwise : Exec Unit} {rounds : Nat} {m : Machine}

lemma depth_evaluate (e : Expr) (m : Machine) :
    (finalState (Exec.evaluate e m)).env.depth = m.env.depth := by
  have hkeeps : Keeps [] Machine.env (Exec.evaluate e) := keeps_evaluate e
  exact (hkeeps m).depth

lemma depth_exec (rounds : Nat) (s : Stmt) (m : Machine) :
    (finalState (s.exec rounds m)).env.depth = m.env.depth :=
  (keeps_exec rounds s m).depth

lemma Exec.bind_congr_of_depth {x y : Exec α} {next next' : α → Exec β} (hx : y m = x m)
    (hdepth : (finalState (x m)).env.depth = m.env.depth)
    (hnext : ∀ a m', m'.env.depth = m.env.depth → next' a m' = next a m') :
    (y >>= next') m = (x >>= next) m := by
  simp only [bind, EStateM.bind, hx]
  cases hm : x m with
  | error halt m' => rfl
  | ok a m' =>
    rw [hm] at hdepth
    exact hnext a m' hdepth

lemma Exec.loop_congr_of_depth {condition : Expr} {act act' : Exec Unit}
    (hact : ∀ m', m'.env.depth = m.env.depth → act' m' = act m')
    (hdepth : ∀ m', (finalState (act m')).env.depth = m'.env.depth) (n : Nat) :
    loop condition act' n m = loop condition act n m := by
  -- the machine changes from round to round, but not its number of scopes
  suffices h : ∀ m', m'.env.depth = m.env.depth →
      loop condition act' n m' = loop condition act n m' from h m rfl
  induction n with
  | zero => exact fun _ _ => rfl
  | succ n ih =>
    intro m₁ h₁
    rw [loop_succ, loop_succ]
    refine bind_congr_of_depth rfl (depth_evaluate condition m₁) (fun value m₂ h₂ => ?_)
    split
    · exact bind_congr_of_depth (hact m₂ (h₂.trans h₁)) (hdepth m₂)
        (fun _ m₃ h₃ => ih m₃ (h₃.trans (h₂.trans h₁)))
    · rfl

mutual

lemma execWithin_eq (s : Stmt) {m : Machine} (h : m.env.depth + s.nest ≤ limit) :
    s.execWithin limit otherwise rounds m = s.exec rounds m := by
  match s with
  | .block body =>
    rw [Stmt.nest] at h
    have hbody : Stmt.execAllWithin limit otherwise rounds body { m with env := m.env.nest } =
        Stmt.execAll rounds body { m with env := m.env.nest } := by
      refine execAllWithin_eq body ?_
      rw [Environment.depth_nest]
      omega
    rw [Stmt.execWithin, Exec.inScopeWithin, if_pos (by omega), Stmt.exec, Exec.inScope,
      Exec.inScope, hbody]
  | .ifThen condition yes =>
    rw [Stmt.nest] at h
    refine Exec.bind_congr_of_depth rfl (depth_evaluate condition m) (fun value m' h' => ?_)
    split
    · exact execWithin_eq yes (by omega)
    · rfl
  | .ifElse condition yes no =>
    rw [Stmt.nest] at h
    refine Exec.bind_congr_of_depth rfl (depth_evaluate condition m) (fun value m' h' => ?_)
    split
    · exact execWithin_eq yes (by omega)
    · exact execWithin_eq no (by omega)
  | .whileDo condition body =>
    rw [Stmt.nest] at h
    exact Exec.loop_congr_of_depth (fun m' h' => execWithin_eq body (by omega))
      (depth_exec rounds body) rounds
  | .expr e => rfl
  | .print keyword e => rfl
  | .declare name init => rfl

lemma execAllWithin_eq (body : List Stmt) {m : Machine}
    (h : m.env.depth + Stmt.nestAll body ≤ limit) :
    Stmt.execAllWithin limit otherwise rounds body m = Stmt.execAll rounds body m := by
  match body with
  | [] => rfl
  | s :: rest =>
    rw [Stmt.nestAll] at h
    exact Exec.bind_congr_of_depth (execWithin_eq s (by omega)) (depth_exec rounds s m)
      (fun _ m' h' => execAllWithin_eq rest (by omega))

end

end within

/-- Read with a counter, any tokens give the same statements and errors, and at every call the
counter is the number of nested parts that are being read, at most the limit, before and behind it.
What is read nests within the limit, and while it is executed from the global scope there are never
more scopes than one above the limit. -/
theorem parse_nests_within_limit (tokens : List Token) :
    (∀ stack, maxNesting < stack →
      let r := Counting.program stack (beforeEnd tokens)
      (parse tokens).statements = r.value ∧
        (parse tokens).errors = r.reported.map (Complaint.resolve (endToken tokens)) ∧
        r.counter = 0 ∧
        ∀ c ∈ r.calls, c.entered = c.inside ∧ c.returned = c.inside ∧ c.inside ≤ maxNesting) ∧
      ∀ s ∈ (parse tokens).statements, s.nest ≤ maxNesting ∧
        ∀ rounds globals sink otherwise,
          s.execWithin (maxNesting + 1) otherwise rounds ⟨.global globals, sink⟩ =
            s.exec rounds ⟨.global globals, sink⟩ := by
  constructor
  · intro stack hstack r
    obtain ⟨hreading, hcounter, hcalls⟩ := mirrors_program hstack (beforeEnd tokens)
    refine ⟨(congrArg Reading.value hreading).symm, ?_, hcounter, hcalls⟩
    exact congrArg (fun r' => r'.reported.map (Complaint.resolve (endToken tokens))) hreading.symm
  · intro s hs
    have hnest := nest_le_of_mem_parse hs
    refine ⟨hnest, fun rounds globals sink otherwise => execWithin_eq s ?_⟩
    rw [Environment.depth]
    omega

/-- The tokens of `{ print -x; } = ;`. -/
def strayEqual : List Token :=
  [⟨.symbol .leftBrace, "\x7b", none, 1⟩, ⟨.keyword .kwPrint, "print", none, 1⟩,
    ⟨.symbol .minus, "-", none, 1⟩, ⟨.identifier, "x", none, 1⟩, ⟨.symbol .semicolon, ";", none, 1⟩,
    ⟨.symbol .rightBrace, "\x7d", none, 1⟩, ⟨.symbol .equal, "=", none, 1⟩,
    ⟨.symbol .semicolon, ";", none, 1⟩, .endOfInput 1]

theorem parse_nests_within_limit_strayEqual :
    maxNesting < 200 ∧ (parse strayEqual).errors.length = 1 ∧
      (Counting.program 200 (beforeEnd strayEqual)).calls.map Call.inside =
        [0, 0, 1, 1, 1, 1, 1, 2, 1, 0, 0, 0, 0] ∧
      (Counting.program 200 (beforeEnd strayEqual)).counter = 0 ∧
      (∀ c ∈ (Counting.program 200 (beforeEnd strayEqual)).calls,
        c.entered = c.inside ∧ c.returned = c.inside ∧ c.inside ≤ maxNesting) ∧
      (parse strayEqual).statements.length = 1 ∧
      ∀ s ∈ (parse strayEqual).statements, s.nest ≤ maxNesting := by
  have hcalls : (Counting.program 200 (beforeEnd strayEqual)).calls.map Call.inside =
      [0, 0, 1, 1, 1, 1, 1, 2, 1, 0, 0, 0, 0] := by
    decide +kernel
  have hone : (parse strayEqual).statements.length = 1 := by decide +kernel
  have hstack : maxNesting < 200 := by decide
  obtain ⟨hcounting, hkept⟩ := parse_nests_within_limit strayEqual
  obtain ⟨-, -, hcounter, hsteady⟩ := hcounting 200 hstack
  exact ⟨hstack, by decide +kernel, hcalls, hcounter, hsteady, hone, fun s hs => (hkept s hs).1⟩

end Scriptlet
