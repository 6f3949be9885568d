import Scriptlet.Proofs.NestingBound
import Scriptlet.Proofs.SideBySide

/-!
# Braces around branches

A branch that is no declaration does the same with braces around it, because nothing is ever bound
in the scope that they open. While the braces are open one run has more scopes than the other; which
of them are too many is told by a row of marks, one for each scope but the global one.
-/

namespace Scriptlet

namespace Stmt

mutual

/-- No branch and no loop body anywhere in the statement is a declaration. -/
def PlainBranches : Stmt → Prop
  | .expr _ | .print _ _ | .declare _ _ => True
  | .block body => PlainBranchesAll body
  | .ifThen _ yes => ¬ yes.isDeclaration ∧ PlainBranches yes
  | .ifElse _ yes no =>
    (¬ yes.isDeclaration ∧ PlainBranches yes) ∧ ¬ no.isDeclaration ∧ PlainBranches no
  | .whileDo _ body => ¬ body.isDeclaration ∧ PlainBranches body

def PlainBranchesAll : List Stmt → Prop
  | [] => True
  | s :: rest => PlainBranches s ∧ PlainBranchesAll rest

end

lemma plainBranchesAll_iff {body : List Stmt} :
    PlainBranchesAll body ↔ ∀ s ∈ body, s.PlainBranches := by
  induction body with
  | nil => simp [PlainBranchesAll]
  | cons s rest ih => rw [PlainBranchesAll, ih, List.forall_mem_cons]

mutual

/-- The second statement is the first one, perhaps in braces, with any of its branches in braces. -/
inductive Braced : Stmt → Stmt → Prop where
  | bare {s t : Stmt} (h : BracedInside s t) : Braced s t
  | braces {s t : Stmt} (h : Braced s t) : Braced s (.block [t])

/-- The same without braces around the statement itself. -/
inductive BracedInside : Stmt → Stmt → Prop where
  | expr (e : Expr) : BracedInside (.expr e) (.expr e)
  | print (keyword : Token) (e : Expr) : BracedInside (.print keyword e) (.print keyword e)
  | declare (name : Token) (init : Option Expr) :
    BracedInside (.declare name init) (.declare name init)
  | block {body body' : List Stmt} (h : BracedInsideAll body body') :
    BracedInside (.block body) (.block body')
  | ifThen (condition : Expr) {yes yes' : Stmt} (h : Braced yes yes') :
    BracedInside (.ifThen condition yes) (.ifThen condition yes')
  | ifElse (condition : Expr) {yes yes' no no' : Stmt} (hyes : Braced yes yes')
    (hno : Braced no no') : BracedInside (.ifElse condition yes no) (.ifElse condition yes' no')
  | whileDo (condition : Expr) {body body' : Stmt} (h : Braced body body') :
    BracedInside (.whileDo condition body) (.whileDo condition body')

inductive BracedInsideAll : List Stmt → List Stmt → Prop where
  | nil : BracedInsideAll [] []
  | cons {s t : Stmt} {rest rest' : List Stmt} (h : BracedInside s t)
    (hrest : BracedInsideAll rest rest') : BracedInsideAll (s :: rest) (t :: rest')

end

end Stmt

/-- The second environment has the scopes of the first one and, where the marks say so, empty scopes
between them. -/
inductive Padded : List Bool → Environment → Environment → Prop where
  | global (scope : Scope) : Padded [] (.global scope) (.global scope)
  | inside {extra : List Bool} {outer outer' : Environment} (scope : Scope)
    (h : Padded extra outer outer') :
    Padded (false :: extra) (.inside scope outer) (.inside scope outer')
  | empty {extra : List Bool} {env env' : Environment} (h : Padded extra env env') :
    Padded (true :: extra) env (.inside .empty env')

section padded
variable {extra : List Bool} {env env' : Environment} {name : String} {value : Value}

lemma Padded.get? (h : Padded extra env env') (name : String) : env.get? name = env'.get? name := by
  induction h with
  | global scope => rfl
  | inside scope h ih => rw [Environment.get?, Environment.get?, ih]
  | empty h ih => exact ih

lemma Padded.assign? (h : Padded extra env env') (name : String) (value : Value) :
    Option.Rel (Padded extra) (env.assign? name value) (env'.assign? name value) := by
  induction h with
  | global scope =>
    rw [Environment.assign?]
    split
    · exact .some (.global _)
    · exact .none
  | inside scope h ih =>
    rw [Environment.assign?, Environment.assign?]
    split
    · exact .some (.inside _ h)
    · exact optionRel_map (fun _ _ ho => .inside scope ho) ih
  | @empty extra env env' h ih =>
    have hempty : (Scope.empty.get? name).isSome = false := rfl
    have hself : env.assign? name value = (env.assign? name value).map (fun e => e) :=
      Option.map_id'.symm
    rw [Environment.assign?, hempty, if_neg Bool.false_ne_true, hself]
    exact optionRel_map (fun _ _ ho => .empty ho) ih

lemma seenAlike_padded : SeenAlike (fun _ => True) (Padded extra) where
  get _ _ name h _ := h.get? name
  assign _ _ name value h _ := h.assign? name value

lemma Padded.define (h : Padded extra env env') (hextra : extra.head? ≠ some true) :
    Padded extra (env.define name value) (env'.define name value) := by
  cases h with
  | global scope => exact .global _
  | inside scope h => exact .inside _ h
  | empty h => exact absurd rfl hextra

lemma Padded.unnest (h : Padded (false :: extra) env env') :
    Padded extra env.unnest env'.unnest := by
  cases h with
  | inside scope h => exact h

lemma Padded.unnest_empty (h : Padded (true :: extra) env env') : Padded extra env env'.unnest := by
  cases h with
  | empty h => exact h

lemma Padded.eq (h : Padded extra env env') (hextra : ∀ b ∈ extra, b = false) : env = env' := by
  induction h with
  | global scope => rfl
  | inside scope h ih => rw [ih (List.forall_mem_cons.mp hextra).2]
  | empty h ih => cases (List.forall_mem_cons.mp hextra).1

lemma exists_padded_self (env : Environment) :
    ∃ extra, Padded extra env env ∧ ∀ b ∈ extra, b = false := by
  induction env with
  | global scope => exact ⟨[], .global scope, fun _ hb => absurd hb List.not_mem_nil⟩
  | inside scope outer ih =>
    obtain ⟨extra, h, hextra⟩ := ih
    exact ⟨false :: extra, .inside scope h, List.forall_mem_cons.mpr ⟨rfl, hextra⟩⟩

end padded

section execution
variable {extra : List Bool}

lemma padded_evaluate (e : Expr) :
    SideBySide (OnMachines (Padded extra)) (Exec.evaluate e) (Exec.evaluate e) :=
  seenAlike_padded.evaluate (fun _ _ => trivial)

lemma padded_braces {act act' : Exec Unit}
    (h : SideBySide (OnMachines (Padded (true :: extra))) act act') :
    SideBySide (OnMachines (Padded extra)) act (Exec.inScope act') := by
  intro m m' ⟨henv, hsink⟩
  have hact := h m { m' with env := m'.env.nest } ⟨.empty henv, hsink⟩
  unfold Exec.inScope
  generalize act m = r, act' { m' with env := m'.env.nest } = r' at hact
  cases hact with
  | ok _ h => exact .ok () ⟨h.1.unnest_empty, h.2⟩
  | error halt h => exact .error halt ⟨h.1.unnest_empty, h.2⟩

mutual

lemma padded_exec (rounds : Nat) {s t : Stmt} (h : Stmt.BracedInside s t) (hplain : s.PlainBranches)
    {extra : List Bool} (hextra : extra.head? ≠ some true ∨ ¬ s.isDeclaration) :
    SideBySide (OnMachines (Padded extra)) (s.exec rounds) (t.exec rounds) := by
  match h with
  | .expr e => exact (padded_evaluate e).bind (fun _ => SideBySide.pure ())
  | .print keyword e =>
    exact (padded_evaluate e).bind (fun value => sideBySide_write keyword value)
  | .declare name none =>
    have hhead := hextra.resolve_right (fun hd => hd rfl)
    exact sideBySide_define (fun _ _ hp => hp.define hhead)
  | .declare name (some e) =>
    have hhead := hextra.resolve_right (fun hd => hd rfl)
    exact (padded_evaluate e).bind (fun _ => sideBySide_define (fun _ _ hp => hp.define hhead))
  | .block hbody =>
    refine sideBySide_inScope (Padded (false :: extra)) (fun _ _ hp => .inside _ hp)
      (fun _ _ hp => hp.unnest) ?_
    exact padded_execAll rounds hbody hplain (fun hf => by cases hf)
  | .ifThen condition hyes =>
    exact (padded_evaluate condition).bind (fun _ =>
      (padded_braced rounds hyes hplain.2 hplain.1).ite (SideBySide.pure ()))
  | .ifElse condition hyes hno =>
    exact (padded_evaluate condition).bind (fun _ =>
      (padded_braced rounds hyes hplain.1.2 hplain.1.1).ite
        (padded_braced rounds hno hplain.2.2 hplain.2.1))
  | .whileDo condition hbody =>
    exact seenAlike_padded.loop (fun _ _ => trivial)
      (padded_braced rounds hbody hplain.2 hplain.1) rounds

lemma padded_execAll (rounds : Nat) {body body' : List Stmt} (h : Stmt.BracedInsideAll body body')
    (hplain : Stmt.PlainBranchesAll body) {extra : List Bool} (hextra : extra.head? ≠ some true) :
    SideBySide (OnMachines (Padded extra)) (Stmt.execAll rounds body)
      (Stmt.execAll rounds body') := by
  match h with
  | .nil => exact SideBySide.pure ()
  | .cons hs hrest =>
    exact (padded_exec rounds hs hplain.1 (Or.inl hextra)).bind (fun _ =>
      padded_execAll rounds hrest hplain.2 hextra)

lemma padded_braced (rounds : Nat) {s t : Stmt} (h : Stmt.Braced s t) (hplain : s.PlainBranches)
    (hdeclares : ¬ s.isDeclaration) {extra : List Bool} :
    SideBySide (OnMachines (Padded extra)) (s.exec rounds) (t.exec rounds) := by
  match h with
  | .bare h => exact padded_exec rounds h hplain (Or.inr hdeclares)
  | .braces h =>
    rw [Stmt.exec, Stmt.execAll_singleton]
    exact padded_braces (padded_braced rounds h hplain hdeclares)

end

end execution
lemma inherited_plainBranches : Grammar.Inherited (fun _ _ => True)
    (fun _ s => ¬ s.isDeclaration ∧ s.PlainBranches) (fun _ s => s.PlainBranches)
    (fun _ body => Stmt.PlainBranchesAll body) where
  read _ _ _ _ := trivial
  expr _ _ _ := ⟨Bool.false_ne_true, trivial⟩
  print _ _ _ _ := ⟨Bool.false_ne_true, trivial⟩
  block _ _ hbody := ⟨Bool.false_ne_true, hbody⟩
  ifThen _ _ _ _ hyes := ⟨Bool.false_ne_true, hyes⟩
  ifElse _ _ _ _ _ hyes hno := ⟨Bool.false_ne_true, hyes, hno⟩
  whileDo _ _ _ _ hbody := ⟨Bool.false_ne_true, hbody⟩
  declare _ _ _ _ := trivial
  branch _ _ hs := hs.2
  body _ _ hbody := Stmt.plainBranchesAll_iff.mpr hbody

/-- A statement that is no declaration, with no declaration for a branch in it, does the same on
every machine with any of its branches and itself in braces. In what is read of any tokens no
declaration is a branch. -/
theorem exec_braced :
    (∀ s t : Stmt, ¬ s.isDeclaration → s.PlainBranches → Stmt.Braced s t →
      ∀ rounds m, t.exec rounds m = s.exec rounds m) ∧
      ∀ tokens, ∀ s ∈ (parse tokens).statements, s.PlainBranches := by
  constructor
  · intro s t hdeclares hplain hbraced rounds m
    obtain ⟨extra, hself, hnone⟩ := exists_padded_self m.env
    have hrun := padded_braced rounds hbraced hplain hdeclares m m ⟨hself, rfl⟩
    have hsame {m₁ m₁' : Machine} (hm : OnMachines (Padded extra) m₁ m₁') : m₁' = m₁ := by
      obtain ⟨env, sink⟩ := m₁
      obtain ⟨env', sink'⟩ := m₁'
      obtain ⟨henv, hsink⟩ := hm
      obtain rfl : env = env' := henv.eq hnone
      obtain rfl : sink = sink' := hsink
      rfl
    generalize s.exec rounds m = r, t.exec rounds m = r' at hrun
    cases hrun with
    | ok _ hm => rw [hsame hm]
    | error halt hm => rw [hsame hm]
  · exact fun tokens => inherited_plainBranches.forall_mem_parse tokens

/-- The loop `while (x) x = nil;` and the same in braces with its body in braces. -/
def unsetting : Stmt × Stmt :=
  let x : Token := ⟨.identifier, "x", none, 1⟩
  let unset : Stmt := .expr (.assign x (.literal .nil))
  (.whileDo (.ref x) unset, .block [.whileDo (.ref x) (.block [unset])])

theorem exec_braced_unsetting :
    ¬ unsetting.1.isDeclaration ∧ unsetting.1.PlainBranches ∧
      Stmt.Braced unsetting.1 unsetting.2 ∧
      ∀ rounds m, unsetting.2.exec rounds m = unsetting.1.exec rounds m := by
  have hdeclares : ¬ unsetting.1.isDeclaration := by decide
  have hplain : unsetting.1.PlainBranches := ⟨by decide, trivial⟩
  have hbraced : Stmt.Braced unsetting.1 unsetting.2 :=
    .braces (.bare (.whileDo _ (.braces (.bare (.expr _)))))
  exact ⟨hdeclares, hplain, hbraced, exec_braced.1 _ _ hdeclares hplain hbraced⟩

end Scriptlet
