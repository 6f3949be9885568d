import Scriptlet.Proofs.Productions

/-!
# Faults that stop no parser

An invalid target is reported, and the expression goes on. No parser is stopped by one, so whatever
could not be read has a fault of another kind.
-/

namespace Scriptlet

/-- The fault never stops the parser. -/
def Parser.Survives {α : Type} (p : Parser α) (fault : SyntaxFault) : Prop :=
  ∀ ts, (p ts).value ≠ .error fault

namespace Parser
variable {α β : Type} {p : Parser α} {f : α → Parser β} {fault : SyntaxFault}

lemma survives_succeed (a : α) : (succeed a).Survives fault := fun _ h => by cases h

lemma survives_fail {other : SyntaxFault} (h : other ≠ fault) :
    (fail other : Parser α).Survives fault := fun _ hv => h (Except.error.inj hv)

lemma survives_always (read : List Token → Reading α) : (always read).Survives fault :=
  fun _ h => by cases h

lemma survives_andThen (hp : p.Survives fault) (hf : ∀ a, (f a).Survives fault) :
    (p.andThen f).Survives fault := by
  intro ts h
  unfold andThen at h
  cases hv : (p ts).value with
  | error other =>
    simp only [hv] at h
    cases h
    exact hp ts hv
  | ok a =>
    simp only [hv] at h
    exact hf a _ h

lemma survives_onFront {choose : Token → Option (Parser α)} {otherwise : Parser α}
    (hc : ∀ t p, choose t = some p → p.Survives fault) (ho : otherwise.Survives fault) :
    (onFront choose otherwise).Survives fault := by
  intro ts
  unfold onFront
  split
  · exact ho []
  · split
    · rename_i p hp
      exact hc _ p hp _
    · exact ho _

lemma survives_expect {kind : TokenKind} {other : SyntaxFault} (h : other ≠ fault) :
    (expect kind other).Survives fault := by
  refine survives_onFront (fun t p hc => ?_) (survives_fail h)
  split at hc <;> cases hc
  exact survives_succeed t

lemma survives_accept (kind : TokenKind) : (accept kind).Survives fault := by
  refine survives_onFront (fun t p hc => ?_) (survives_succeed none)
  split at hc <;> cases hc
  exact survives_succeed _

end Parser

namespace Grammar
open Scriptlet.Parser

section productions
variable {n : Nat} {operandBelow exprBelow expr : Parser Expr} {branch : Parser Stmt}
  {body : Parser (List Stmt)}

lemma survives_operandOver (ho : operandBelow.Survives .invalidTarget)
    (he : exprBelow.Survives .invalidTarget) :
    (operandOver operandBelow exprBelow).Survives .invalidTarget := by
  refine survives_onFront (fun t p h => ?_) (survives_fail (by decide))
  unfold operandFrom at h
  split at h <;> cases h
  · exact survives_andThen ho (fun e => survives_succeed _)
  · exact survives_andThen ho (fun e => survives_succeed _)
  · exact survives_andThen he (fun e => survives_andThen (survives_expect (by decide))
      (fun _ => survives_succeed _))
  all_goals exact survives_succeed _

lemma survives_operations {operand : Parser Expr} (h : operand.Survives .invalidTarget)
    (left : Expr) : Survives (operations operand left) .invalidTarget := by
  intro ts
  fun_induction operations operand left ts with
  | case1 | case4 => exact fun hv => by cases hv
  | case2 left op rest _ r fault hr => exact hr ▸ h rest
  | case3 left op rest _ r right hr s ih => exact ih

lemma survives_exprOver (ho : operandBelow.Survives .invalidTarget)
    (he : exprBelow.Survives .invalidTarget) :
    (exprOver operandBelow exprBelow).Survives .invalidTarget := by
  have h := survives_operandOver ho he
  refine survives_andThen h (fun first => survives_andThen (survives_operations h first)
    (fun left => survives_andThen (survives_accept _) (fun equals => ?_)))
  split
  · exact survives_succeed _
  · refine survives_andThen he (fun value => ?_)
    unfold assignment
    -- the report goes on with the target
    split
    · exact survives_succeed _
    · exact survives_andThen (fun _ hv => by cases hv) (fun _ => survives_succeed _)

lemma survives_operand_expr (n : Nat) :
    Survives (operand n) .invalidTarget ∧ Survives (Grammar.expr n) .invalidTarget := by
  induction n with
  | zero =>
    rw [operand_zero, expr_zero]
    exact ⟨survives_fail (by decide), survives_fail (by decide)⟩
  | succ n ih =>
    rw [operand_succ, expr_succ]
    exact ⟨survives_operandOver ih.1 ih.2, survives_exprOver ih.1 ih.2⟩

lemma survives_upTo_semicolon {α : Type} {p : Parser α} {fault : SyntaxFault} {make : α → Stmt}
    (hp : p.Survives .invalidTarget) (h : fault ≠ .invalidTarget) :
    (p.andThen (fun a => (expect (.symbol .semicolon) fault).andThen
      (fun _ => succeed (make a)))).Survives .invalidTarget :=
  survives_andThen hp (fun _ => survives_andThen (survives_expect h) (fun _ => survives_succeed _))

lemma survives_declarationRest (he : expr.Survives .invalidTarget) :
    (declarationRest expr).Survives .invalidTarget := by
  have hinit : (initializer expr).Survives .invalidTarget := by
    refine survives_andThen (survives_accept _) (fun equals => ?_)
    split
    · exact survives_succeed _
    · exact survives_andThen he (fun e => survives_succeed _)
  exact survives_andThen (survives_expect (by decide)) (fun name =>
    survives_upTo_semicolon hinit (by decide))

lemma survives_condition {f f' : SyntaxFault} {next : Expr → Parser Stmt}
    (he : expr.Survives .invalidTarget) (hf : f ≠ .invalidTarget) (hf' : f' ≠ .invalidTarget)
    (hnext : ∀ e, (next e).Survives .invalidTarget) :
    ((expect (.symbol .leftParen) f).andThen (fun _ => expr.andThen (fun e =>
      (expect (.symbol .rightParen) f').andThen (fun _ => next e)))).Survives .invalidTarget :=
  survives_andThen (survives_expect hf) (fun _ => survives_andThen he (fun e =>
    survives_andThen (survives_expect hf') (fun _ => hnext e)))

lemma survives_statementOver (he : expr.Survives .invalidTarget)
    (hb : branch.Survives .invalidTarget) (hs : body.Survives .invalidTarget) :
    (statementOver expr branch body).Survives .invalidTarget := by
  refine survives_onFront (fun t p h => ?_) (survives_upTo_semicolon he (by decide))
  split at h <;> cases h
  · refine survives_condition he (by decide) (by decide) (fun condition =>
      survives_andThen hb (fun yes => survives_andThen (survives_accept _) (fun otherwise => ?_)))
    split
    · exact survives_succeed _
    · exact survives_andThen hb (fun no => survives_succeed _)
  · exact survives_condition he (by decide) (by decide) (fun condition =>
      survives_andThen hb (fun body => survives_succeed _))
  · exact survives_upTo_semicolon he (by decide)
  · exact survives_andThen hs (fun ss => survives_succeed _)

lemma survives_statement_blockRest (n : Nat) :
    Survives (statement n) .invalidTarget ∧ Survives (blockRest n) .invalidTarget := by
  induction n with
  | zero =>
    rw [statement_zero, blockRest_zero]
    exact ⟨survives_fail (by decide), survives_fail (by decide)⟩
  | succ n ih =>
    rw [statement_succ, blockRest_succ_eq]
    exact ⟨survives_statementOver (survives_operand_expr (n + 1)).2 ih.1 ih.2,
      survives_andThen (survives_always _) (fun ss => survives_andThen (survives_expect (by decide))
        (fun _ => survives_succeed _))⟩

end productions

/-- An item is a declaration or a statement. -/
def itemParser (n : Nat) : Parser Stmt :=
  onFront (fun t => if t.kind = .keyword .kwVar then some (declarationRest (expr n)) else none)
    (statement n)

lemma item_eq (n : Nat) : item n = recovering (itemParser n) := rfl

lemma advances_itemParser (n : Nat) : Advances (itemParser n) :=
  advances_onFront (advances_statement n)

lemma survives_itemParser (n : Nat) : (itemParser n).Survives .invalidTarget := by
  refine survives_onFront (fun t p h => ?_) (survives_statement_blockRest n).1
  split at h
  · cases h
    exact survives_declarationRest (survives_operand_expr n).2
  · cases h

end Grammar
end Scriptlet
