import Scriptlet.Proofs.ParserSoundness

/-!
# The nesting limit

What is read with `n` levels left nests less than `n` levels. Unlike what a clean reading says of
its tokens, this holds beside reports and skipped statements too, because it speaks only of the
trees that are kept. So no statement of any program, faulty or not, nests beyond the limit. Any
other property that trees inherit from their parts holds of what is kept in the same way.
-/

namespace Scriptlet

/-- Whatever the parser reads has the property, with or without reports. -/
def Parser.Yields {α : Type} (p : Parser α) (P : α → Prop) : Prop :=
  ∀ ts a, (p ts).value = .ok a → P a

namespace Parser
variable {α β : Type} {P : α → Prop} {Q : β → Prop} {p : Parser α} {f : α → Parser β}

lemma yields_succeed {a : α} (h : P a) : Yields (succeed a) P := by
  intro ts b hb
  cases hb
  exact h

lemma yields_fail (fault : SyntaxFault) : Yields (fail fault) P := by
  intro ts a ha
  cases ha

lemma yields_always {read : List Token → Reading α} (h : ∀ ts, P (read ts).value) :
    Yields (always read) P := by
  intro ts a ha
  cases ha
  exact h ts

lemma yields_andThen (hp : Yields p P) (hf : ∀ a, P a → Yields (f a) Q) :
    Yields (p.andThen f) Q := by
  intro ts b hb
  unfold andThen at hb
  dsimp only at hb
  split at hb
  · cases hb
  · rename_i a ha
    exact hf a (hp ts a ha) _ b hb

lemma yields_andThen_any (hf : ∀ a, Yields (f a) Q) : Yields (p.andThen f) Q := by
  have hp : Yields p (fun _ => True) := fun _ _ _ => trivial
  exact yields_andThen hp (fun a _ => hf a)

lemma yields_onFront {choose : Token → Option (Parser α)} {otherwise : Parser α}
    (hc : ∀ t p, choose t = some p → Yields p P) (ho : Yields otherwise P) :
    Yields (onFront choose otherwise) P := by
  intro ts a ha
  unfold onFront at ha
  split at ha
  · exact ho _ a ha
  · split at ha
    · rename_i p hp
      exact hc _ p hp _ a ha
    · exact ho _ a ha

end Parser

namespace Grammar
open Scriptlet.Parser

section expressions
variable {n : Nat} {operandBelow exprBelow : Parser Expr}

lemma yields_operandOver (ho : operandBelow.Yields (fun e => e.nest < n))
    (he : exprBelow.Yields (fun e => e.nest < n)) :
    (operandOver operandBelow exprBelow).Yields (fun e => e.nest < n + 1) := by
  refine yields_onFront (fun t p h => ?_) (yields_fail _)
  unfold operandFrom at h
  split at h <;> cases h
  · exact yields_andThen ho (fun e h => yields_succeed (Nat.succ_lt_succ h))
  · exact yields_andThen ho (fun e h => yields_succeed (Nat.succ_lt_succ h))
  · exact yields_andThen he (fun e h => yields_andThen_any (fun _ =>
      yields_succeed (Nat.succ_lt_succ h)))
  all_goals exact yields_succeed (Nat.succ_pos n)

/-- Operators cost no level: a chain of them nests as deep as its deepest operand. -/
lemma yields_operations {operand : Parser Expr} (h : operand.Yields (fun e => e.nest < n))
    {left : Expr} (hleft : left.nest < n) :
    Yields (operations operand left) (fun e => e.nest < n) := by
  intro ts
  fun_induction operations operand left ts with
  | case1 left =>
    intro e he
    cases he
    exact hleft
  | case2 left op rest _ r fault hr =>
    intro e he
    cases he
  | case3 left op rest _ r right hr s ih =>
    have hright : right.nest < n := h rest right hr
    have hattach : (left.attach op right).nest < n := by
      rw [Expr.nest_attach]
      exact Nat.max_lt.mpr ⟨hleft, hright⟩
    exact ih hattach
  | case4 left op rest _ =>
    intro e he
    cases he
    exact hleft

lemma yields_assignment {target value : Expr} (ht : target.nest < n + 1) (hv : value.nest < n)
    (equals : Token) : (assignment target equals value).Yields (fun e => e.nest < n + 1) := by
  unfold assignment
  split
  · exact yields_succeed (Nat.succ_lt_succ hv)
  · exact yields_andThen_any (fun _ => yields_succeed ht)

lemma yields_exprOver (ho : operandBelow.Yields (fun e => e.nest < n))
    (he : exprBelow.Yields (fun e => e.nest < n)) :
    (exprOver operandBelow exprBelow).Yields (fun e => e.nest < n + 1) := by
  have hoperand := yields_operandOver ho he
  refine yields_andThen hoperand (fun first hfirst =>
    yields_andThen (yields_operations hoperand hfirst) (fun left hleft =>
      yields_andThen_any (fun equals => ?_)))
  split
  · exact yields_succeed hleft
  · exact yields_andThen he (fun value hvalue => yields_assignment hleft hvalue _)

end expressions

lemma yields_operand_expr (n : Nat) :
    Yields (operand n) (fun e => e.nest < n) ∧ Yields (expr n) (fun e => e.nest < n) := by
  induction n with
  | zero =>
    rw [operand_zero, expr_zero]
    exact ⟨yields_fail _, yields_fail _⟩
  | succ n ih =>
    rw [operand_succ, expr_succ]
    exact ⟨yields_operandOver ih.1 ih.2, yields_exprOver ih.1 ih.2⟩

/-- Properties of what is read with `n` levels left, which statements have when their parts do: of
expressions, of branches, of what may stand in a block, and of whole blocks. -/
structure Inherited (ofExpr : Nat → Expr → Prop) (ofBranch ofItem : Nat → Stmt → Prop)
    (ofBody : Nat → List Stmt → Prop) : Prop where
  read : ∀ n, Yields (expr n) (ofExpr n)
  expr : ∀ n e, ofExpr (n + 1) e → ofBranch (n + 1) (.expr e)
  print : ∀ n keyword e, ofExpr (n + 1) e → ofBranch (n + 1) (.print keyword e)
  block : ∀ n body, ofBody n body → ofBranch (n + 1) (.block body)
  ifThen : ∀ n condition yes, ofExpr (n + 1) condition → ofBranch n yes →
    ofBranch (n + 1) (.ifThen condition yes)
  ifElse : ∀ n condition yes no, ofExpr (n + 1) condition → ofBranch n yes → ofBranch n no →
    ofBranch (n + 1) (.ifElse condition yes no)
  whileDo : ∀ n condition body, ofExpr (n + 1) condition → ofBranch n body →
    ofBranch (n + 1) (.whileDo condition body)
  declare : ∀ n name init, (∀ e ∈ init, ofExpr (n + 1) e) → ofItem (n + 1) (.declare name init)
  branch : ∀ n s, ofBranch (n + 1) s → ofItem (n + 1) s
  body : ∀ n body, (∀ s ∈ body, ofItem (n + 1) s) → ofBody (n + 1) body

section items

lemma forall_mem_recovering {p : Parser Stmt} {P : Stmt → Prop} (h : p.Yields P)
    (ts : List Token) : ∀ s ∈ (recovering p ts).value, P s := by
  intro s hs
  unfold recovering at hs
  dsimp only at hs
  split at hs
  · rename_i s' hv
    cases hs
    exact h ts s hv
  · cases hs

lemma forall_mem_items (closes : Token → Bool) {item : List Token → Reading (Option Stmt)}
    {P : Stmt → Prop} (h : ∀ ts, ∀ s ∈ (item ts).value, P s) (ts : List Token) :
    ∀ s ∈ (items closes item ts).value, P s := by
  fun_induction items closes item ts with
  | case1 => exact fun s hs => absurd hs List.not_mem_nil
  | case2 => exact fun s hs => absurd hs List.not_mem_nil
  | case3 t rest _ r others ih =>
    intro s hs
    rcases List.mem_append.mp hs with hfirst | hothers
    · exact h (t :: rest) s (Option.mem_toList.mp hfirst)
    · exact ih s hothers

end items

namespace Inherited
variable {ofExpr : Nat → Expr → Prop} {ofBranch ofItem : Nat → Stmt → Prop}
  {ofBody : Nat → List Stmt → Prop} {n : Nat}

lemma yields_declarationRest (h : Inherited ofExpr ofBranch ofItem ofBody) :
    (declarationRest (Grammar.expr (n + 1))).Yields (ofItem (n + 1)) := by
  have hinit : (initializer (Grammar.expr (n + 1))).Yields
      (fun init => ∀ e ∈ init, ofExpr (n + 1) e) := by
    refine yields_andThen_any (fun equals => ?_)
    split
    · exact yields_succeed (fun e he => by cases he)
    · refine yields_andThen (h.read (n + 1)) (fun e he => yields_succeed (fun e' he' => ?_))
      cases he'
      exact he
  exact yields_andThen_any (fun name => yields_andThen hinit (fun init hi =>
    yields_andThen_any (fun _ => yields_succeed (h.declare n name init hi))))

lemma yields_ifRest (h : Inherited ofExpr ofBranch ofItem ofBody) {branch : Parser Stmt}
    (hb : branch.Yields (ofBranch n)) :
    (ifRest (Grammar.expr (n + 1)) branch).Yields (ofBranch (n + 1)) := by
  refine yields_andThen_any (fun _ => yields_andThen (h.read (n + 1)) (fun condition hc =>
    yields_andThen_any (fun _ => yields_andThen hb (fun yes hyes =>
      yields_andThen_any (fun otherwise => ?_)))))
  split
  · exact yields_succeed (h.ifThen n condition yes hc hyes)
  · exact yields_andThen hb (fun no hno =>
      yields_succeed (h.ifElse n condition yes no hc hyes hno))

lemma yields_whileRest (h : Inherited ofExpr ofBranch ofItem ofBody) {branch : Parser Stmt}
    (hb : branch.Yields (ofBranch n)) :
    (whileRest (Grammar.expr (n + 1)) branch).Yields (ofBranch (n + 1)) :=
  yields_andThen_any (fun _ => yields_andThen (h.read (n + 1)) (fun condition hc =>
    yields_andThen_any (fun _ => yields_andThen hb (fun body hbody =>
      yields_succeed (h.whileDo n condition body hc hbody)))))

lemma yields_statementOver (h : Inherited ofExpr ofBranch ofItem ofBody) {branch : Parser Stmt}
    {body : Parser (List Stmt)} (hb : branch.Yields (ofBranch n)) (hs : body.Yields (ofBody n)) :
    (statementOver (Grammar.expr (n + 1)) branch body).Yields (ofBranch (n + 1)) := by
  refine yields_onFront (fun t p hp => ?_) ?_
  · split at hp <;> cases hp
    · exact h.yields_ifRest hb
    · exact h.yields_whileRest hb
    · exact yields_andThen (h.read (n + 1)) (fun e he =>
        yields_andThen_any (fun _ => yields_succeed (h.print n t e he)))
    · exact yields_andThen hs (fun body hbody => yields_succeed (h.block n body hbody))
  · exact yields_andThen (h.read (n + 1)) (fun e he =>
      yields_andThen_any (fun _ => yields_succeed (h.expr n e he)))

lemma forall_mem_item (h : Inherited ofExpr ofBranch ofItem ofBody)
    (hs : Yields (statement (n + 1)) (ofBranch (n + 1))) (ts : List Token) :
    ∀ s ∈ (item (n + 1) ts).value, ofItem (n + 1) s := by
  have hparser : Yields (itemParser (n + 1)) (ofItem (n + 1)) := by
    refine yields_onFront (fun t p hp => ?_) (fun ts s hv => h.branch n s (hs ts s hv))
    split at hp <;> cases hp
    exact h.yields_declarationRest
  rw [item_eq]
  exact forall_mem_recovering hparser ts

lemma yields_statement_blockRest (h : Inherited ofExpr ofBranch ofItem ofBody) (n : Nat) :
    Yields (statement n) (ofBranch n) ∧ Yields (blockRest n) (ofBody n) := by
  induction n with
  | zero =>
    rw [statement_zero, blockRest_zero]
    exact ⟨yields_fail _, yields_fail _⟩
  | succ n ih =>
    have hs : Yields (statement (n + 1)) (ofBranch (n + 1)) := by
      rw [statement_succ]
      exact h.yields_statementOver ih.1 ih.2
    have hbody : Yields (always (items (·.kind == .symbol .rightBrace) (item (n + 1))))
        (ofBody (n + 1)) :=
      yields_always (fun ts => h.body n _ (forall_mem_items _ (h.forall_mem_item hs) ts))
    refine ⟨hs, ?_⟩
    rw [blockRest_succ_eq]
    exact yields_andThen hbody (fun body hb => yields_andThen_any (fun _ => yields_succeed hb))

lemma forall_mem_parse (h : Inherited ofExpr ofBranch ofItem ofBody) (tokens : List Token) :
    ∀ s ∈ (parse tokens).statements, ofItem (maxNesting + 1) s :=
  forall_mem_items _ (h.forall_mem_item (h.yields_statement_blockRest (maxNesting + 1)).1)
    (beforeEnd tokens)

end Inherited

lemma inherited_nest : Inherited (fun n e => e.nest < n) (fun n s => s.nest < n)
    (fun n s => s.nest < n) (fun n body => Stmt.nestAll body < n) where
  read n := (yields_operand_expr n).2
  expr _ _ he := he
  print _ _ _ he := he
  block _ _ hbody := Nat.succ_lt_succ hbody
  ifThen n condition yes hc hyes := by
    rw [Stmt.nest]
    omega
  ifElse n condition yes no hc hyes hno := by
    rw [Stmt.nest]
    omega
  whileDo n condition body hc hbody := by
    rw [Stmt.nest]
    omega
  declare n name init hinit := by
    cases init with
    | none => exact Nat.succ_pos n
    | some e => exact hinit e rfl
  branch _ _ hs := hs
  body n body hbody :=
    Nat.lt_succ_of_le (Stmt.nestAll_le_iff.mpr (fun s hs => Nat.le_of_lt_succ (hbody s hs)))

end Grammar

/-- Every statement that is kept lies within the nesting limit, whatever errors stand beside it. -/
theorem nest_le_of_mem_parse {tokens : List Token} {s : Stmt}
    (h : s ∈ (parse tokens).statements) : s.nest ≤ maxNesting :=
  Nat.le_of_lt_succ (Grammar.inherited_nest.forall_mem_parse tokens s h)

end Scriptlet
