import Mathlib.Data.List.Forall2
import Scriptlet.Proofs.ErrorContainment

/-!
# Tokens of the same kinds

Of a token the parser looks at the kind alone. Whatever relates tokens of the same kind, two lists
of tokens that are related one by one are read alike: as many tokens are used, the same faults are
met, and they are blamed on related tokens. Trees may differ in the tokens that they keep.
-/

namespace Scriptlet

variable {α β α' β' : Type} {R : Token → Token → Prop}

/-- Complaints of one fault, blamed on related tokens or both on the end of input. -/
structure Complaint.Alike (R : Token → Token → Prop) (c c' : Complaint) : Prop where
  fault : c.fault = c'.fault
  blamed : Option.Rel R c.blamed c'.blamed

/-- Readings that use as many tokens, report alike and have related values. -/
structure Reading.Alike (R : Token → Token → Prop) (V : α → α' → Prop) (r : Reading α)
    (r' : Reading α') : Prop where
  value : V r.value r'.value
  used : r.used = r'.used
  reported : List.Forall₂ (Complaint.Alike R) r.reported r'.reported

/-- Both are stopped by one fault, or both go on with related values. -/
inductive SameOutcome (V : α → α' → Prop) :
    Except SyntaxFault α → Except SyntaxFault α' → Prop where
  | error (fault : SyntaxFault) : SameOutcome V (.error fault) (.error fault)
  | ok {a : α} {a' : α'} (h : V a a') : SameOutcome V (.ok a) (.ok a')

lemma optionRel_imp {P Q : α → α' → Prop} (h : ∀ a a', P a a' → Q a a') {o : Option α}
    {o' : Option α'} (ho : Option.Rel P o o') : Option.Rel Q o o' := by
  cases ho with
  | none => exact .none
  | some ha => exact .some (h _ _ ha)

namespace Parser

/-- From related tokens the parsers read alike. -/
def Alike (R : Token → Token → Prop) (V : α → α' → Prop) (p : Parser α) (p' : Parser α') : Prop :=
  ∀ ts ts', List.Forall₂ R ts ts' → (p ts).Alike R (SameOutcome V) (p' ts')

section combinators
variable {V : α → α' → Prop} {W : β → β' → Prop} {p : Parser α} {p' : Parser α'}
  {f : α → Parser β} {f' : α' → Parser β'} {ts ts' : List Token}

lemma alike_succeed {a : α} {a' : α'} (h : V a a') : Alike R V (succeed a) (succeed a') :=
  fun _ _ _ => ⟨.ok h, rfl, .nil⟩

lemma alike_fail (fault : SyntaxFault) :
    Alike R V (fail fault : Parser α) (fail fault : Parser α') :=
  fun _ _ _ => ⟨.error fault, rfl, .nil⟩

lemma alike_report (fault : SyntaxFault) {t t' : Token} (h : R t t') :
    Alike R (fun _ _ => True) (report fault t) (report fault t') :=
  fun _ _ _ => ⟨.ok trivial, rfl, .cons ⟨rfl, .some h⟩ .nil⟩

lemma Alike.andThen_at (hp : (p ts).Alike R (SameOutcome V) (p' ts')) (hts : List.Forall₂ R ts ts')
    (hf : ∀ a a', V a a' → List.Forall₂ R (ts.drop (p ts).used) (ts'.drop (p ts).used) →
      (f a (ts.drop (p ts).used)).Alike R (SameOutcome W) (f' a' (ts'.drop (p ts).used))) :
    (p.andThen f ts).Alike R (SameOutcome W) (p'.andThen f' ts') := by
  obtain ⟨hvalue, hused, hreported⟩ := hp
  cases hv : (p ts).value with
  | error fault =>
    rw [hv] at hvalue
    generalize hv' : (p' ts').value = v' at hvalue
    cases hvalue
    rw [andThen_of_error hv, andThen_of_error hv']
    exact ⟨.error fault, hused, hreported⟩
  | ok a =>
    rw [hv] at hvalue
    generalize hv' : (p' ts').value = v' at hvalue
    cases hvalue with
    | ok hV =>
      obtain ⟨hfvalue, hfused, hfreported⟩ := hf a _ hV (List.forall₂_drop _ hts)
      rw [andThen_of_ok hv, andThen_of_ok hv', ← hused]
      refine ⟨hfvalue, ?_, List.rel_append hreported hfreported⟩
      rw [hused, ← hused, hfused]

lemma Alike.andThen (hp : Alike R V p p') (hf : ∀ a a', V a a' → Alike R W (f a) (f' a')) :
    Alike R W (p.andThen f) (p'.andThen f') :=
  fun ts ts' hts => Alike.andThen_at (hp ts ts' hts) hts (fun a a' ha => hf a a' ha _ _)

section onFront
variable {choose : Token → Option (Parser α)} {choose' : Token → Option (Parser α')}
  {otherwise : Parser α} {otherwise' : Parser α'}

lemma Alike.onFront_at (hts : List.Forall₂ R ts ts')
    (hc : ∀ t t' rest rest', ts = t :: rest → R t t' → List.Forall₂ R rest rest' →
      Option.Rel (fun q q' => (q rest).Alike R (SameOutcome V) (q' rest')) (choose t) (choose' t'))
    (ho : (otherwise ts).Alike R (SameOutcome V) (otherwise' ts')) :
    (onFront choose otherwise ts).Alike R (SameOutcome V) (onFront choose' otherwise' ts') := by
  cases hts with
  | nil => exact ho
  | @cons t t' rest rest' ht hrest =>
    have hchoice := hc t t' rest rest' rfl ht hrest
    rw [Parser.onFront, Parser.onFront]
    cases hq : choose t with
    | none =>
      rw [hq] at hchoice
      generalize choose' t' = o' at hchoice
      cases hchoice
      exact ho
    | some q =>
      rw [hq] at hchoice
      generalize choose' t' = o' at hchoice
      cases hchoice with
      | some h => exact ⟨h.value, congrArg (1 + ·) h.used, h.reported⟩

lemma Alike.onFront
    (hc : ∀ t t', R t t' → Option.Rel (Alike R V) (choose t) (choose' t'))
    (ho : Alike R V otherwise otherwise') :
    Alike R V (onFront choose otherwise) (onFront choose' otherwise') := by
  intro ts ts' hts
  refine Alike.onFront_at hts (fun t t' rest rest' _ ht hrest => ?_) (ho ts ts' hts)
  exact optionRel_imp (fun q q' hq => hq rest rest' hrest) (hc t t' ht)

end onFront

lemma alike_expect (hR : ∀ t t', R t t' → t.kind = t'.kind) (kind : TokenKind)
    (fault : SyntaxFault) : Alike R R (expect kind fault) (expect kind fault) := by
  refine Alike.onFront (fun t t' ht => ?_) (alike_fail fault)
  rw [hR t t' ht]
  split
  · exact .some (alike_succeed ht)
  · exact .none

lemma alike_accept (hR : ∀ t t', R t t' → t.kind = t'.kind) (kind : TokenKind) :
    Alike R (Option.Rel R) (accept kind) (accept kind) := by
  refine Alike.onFront (fun t t' ht => ?_) (alike_succeed .none)
  rw [hR t t' ht]
  split
  · exact .some (alike_succeed (.some ht))
  · exact .none

end combinators
end Parser

/-- Of an expression the parser asks only whether it is a bare name. -/
def Expr.isName : Expr → Bool
  | ref _ => true
  | _ => false

lemma Expr.isName_attach (e : Expr) (op : Token) (right : Expr) :
    (e.attach op right).isName = false := by
  unfold attach
  split
  · split <;> rfl
  · rfl

namespace Grammar
open Scriptlet.Parser

/-- The expressions read are bare names, both or neither of them. -/
abbrev AlikeExpr (R : Token → Token → Prop) (p p' : Parser Expr) : Prop :=
  Alike R (fun e e' => e.isName = e'.isName) p p'

/-- Of other trees the parser asks nothing. -/
abbrev AlikeTree (R : Token → Token → Prop) {α : Type} (p p' : Parser α) : Prop :=
  Alike R (fun _ _ => True) p p'

variable (hR : ∀ t t', R t t' → t.kind = t'.kind)

include hR

section expressions
variable {operandBelow exprBelow : Parser Expr}

lemma alike_operandFrom
    (ho : AlikeExpr R operandBelow operandBelow) (he : AlikeExpr R exprBelow exprBelow)
    {t t' : Token} (ht : R t t') :
    Option.Rel (AlikeExpr R) (operandFrom operandBelow exprBelow t)
      (operandFrom operandBelow exprBelow t') := by
  unfold operandFrom
  rw [hR t t' ht]
  split
  · exact .some (ho.andThen (fun _ _ _ => alike_succeed rfl))
  · exact .some (ho.andThen (fun _ _ _ => alike_succeed rfl))
  · exact .some (he.andThen (fun _ _ _ =>
      (alike_expect hR _ _).andThen (fun _ _ _ => alike_succeed rfl)))
  all_goals first
  | exact .some (alike_succeed rfl)
  | exact .none

lemma alike_operandOver
    (ho : AlikeExpr R operandBelow operandBelow) (he : AlikeExpr R exprBelow exprBelow) :
    AlikeExpr R (operandOver operandBelow exprBelow) (operandOver operandBelow exprBelow) :=
  Alike.onFront (fun _ _ ht => alike_operandFrom hR ho he ht) (alike_fail _)

lemma alike_operations {operand : Parser Expr}
    (ho : AlikeExpr R operand operand) {left left' : Expr} (hleft : left.isName = left'.isName) :
    AlikeExpr R (operations operand left) (operations operand left') := by
  intro ts ts' hts
  induction hlen : ts.length using Nat.strongRecOn generalizing left left' ts ts' with
  | _ n ih =>
    have hend : AlikeExpr R (succeed left) (succeed left') := alike_succeed hleft
    rw [operations_eq, operations_eq]
    refine Alike.onFront_at hts (fun op op' rest rest' heq hop hrest => ?_) (hend ts ts' hts)
    rw [hR op op' hop]
    split
    · refine .some (Alike.andThen_at (ho rest rest' hrest) hrest (fun right right' _ hmore => ?_))
      refine ih _ ?_ ?_ _ _ hmore rfl
      · rw [← hlen, heq, List.length_drop, List.length_cons]
        omega
      · rw [Expr.isName_attach, Expr.isName_attach]
    · exact .none

omit hR in
lemma alike_assignment {target target' : Expr} (htarget : target.isName = target'.isName)
    {equals equals' : Token} (hequals : R equals equals') (value value' : Expr) :
    AlikeExpr R (assignment target equals value) (assignment target' equals' value') := by
  have hreport {e e' : Expr} (h : e.isName = e'.isName) :
      AlikeExpr R ((report .invalidTarget equals).andThen (fun _ => succeed e))
        ((report .invalidTarget equals').andThen (fun _ => succeed e')) :=
    (alike_report _ hequals).andThen (fun _ _ _ => alike_succeed h)
  cases target with
  | ref name =>
    cases target' with
    | ref name' => exact alike_succeed rfl
    | _ => cases htarget
  | _ =>
    cases target' with
    | ref name' => cases htarget
    | _ => exact hreport htarget

lemma alike_exprOver
    (ho : AlikeExpr R operandBelow operandBelow) (he : AlikeExpr R exprBelow exprBelow) :
    AlikeExpr R (exprOver operandBelow exprBelow) (exprOver operandBelow exprBelow) := by
  have hoperand := alike_operandOver hR ho he
  refine hoperand.andThen (fun _ _ hfirst => (alike_operations hR hoperand hfirst).andThen
    (fun left left' hleft => (alike_accept hR _).andThen (fun equals equals' hequals => ?_)))
  cases hequals with
  | none => exact alike_succeed hleft
  | some h => exact he.andThen (fun value value' _ => alike_assignment hleft h value value')

end expressions

lemma alike_operand_expr (n : Nat) :
    AlikeExpr R (operand n) (operand n) ∧ AlikeExpr R (expr n) (expr n) := by
  induction n with
  | zero =>
    rw [operand_zero, expr_zero]
    exact ⟨alike_fail _, alike_fail _⟩
  | succ n ih =>
    rw [operand_succ, expr_succ]
    exact ⟨alike_operandOver hR ih.1 ih.2, alike_exprOver hR ih.1 ih.2⟩

section statements
variable {expr : Parser Expr} {branch : Parser Stmt} {body : Parser (List Stmt)}

lemma alike_upTo_semicolon {α : Type}
    {V : α → α → Prop} {p : Parser α} (hp : Alike R V p p) {fault : SyntaxFault}
    {make make' : α → Stmt} :
    AlikeTree R
      (p.andThen (fun a => (expect (.symbol .semicolon) fault).andThen (fun _ => succeed (make a))))
      (p.andThen (fun a => (expect (.symbol .semicolon) fault).andThen
        (fun _ => succeed (make' a)))) :=
  hp.andThen (fun _ _ _ => (alike_expect hR _ _).andThen (fun _ _ _ => alike_succeed trivial))

lemma alike_condition {f f' : SyntaxFault}
    (he : AlikeExpr R expr expr) : AlikeTree R (condition expr f f') (condition expr f f') :=
  (alike_expect hR _ _).andThen (fun _ _ _ => he.andThen (fun _ _ _ =>
    (alike_expect hR _ _).andThen (fun _ _ _ => alike_succeed trivial)))

lemma alike_declarationRest
    (he : AlikeExpr R expr expr) : AlikeTree R (declarationRest expr) (declarationRest expr) := by
  have hinit : AlikeTree R (initializer expr) (initializer expr) := by
    refine (alike_accept hR _).andThen (fun equals equals' hequals => ?_)
    cases hequals with
    | none => exact alike_succeed trivial
    | some _ => exact he.andThen (fun _ _ _ => alike_succeed trivial)
  exact (alike_expect hR _ _).andThen (fun name name' _ => alike_upTo_semicolon hR hinit)

lemma alike_statementOver (he : AlikeExpr R expr expr)
    (hb : AlikeTree R branch branch) (hs : AlikeTree R body body) :
    AlikeTree R (statementOver expr branch body) (statementOver expr branch body) := by
  refine Alike.onFront (fun t t' ht => ?_) (alike_upTo_semicolon hR he)
  rw [hR t t' ht]
  split
  · rw [ifRest_eq]
    refine .some ((alike_condition hR he).andThen (fun _ _ _ => hb.andThen (fun _ _ _ =>
      (alike_accept hR _).andThen (fun otherwise otherwise' hother => ?_))))
    cases hother with
    | none => exact alike_succeed trivial
    | some _ => exact hb.andThen (fun _ _ _ => alike_succeed trivial)
  · rw [whileRest_eq]
    exact .some ((alike_condition hR he).andThen (fun _ _ _ => hb.andThen (fun _ _ _ =>
      alike_succeed trivial)))
  · exact .some (alike_upTo_semicolon hR he)
  · exact .some (hs.andThen (fun _ _ _ => alike_succeed trivial))
  · exact .none

end statements

section items
variable {p : Parser Stmt} {item : List Token → Reading (Option Stmt)} {closes : Token → Bool}
  {ts ts' : List Token}

/-- Of what is read or skipped nothing is asked any more. -/
abbrev AlikeRow (R : Token → Token → Prop) {α : Type} (read : List Token → Reading α) : Prop :=
  ∀ ts ts', List.Forall₂ R ts ts' → (read ts).Alike R (fun _ _ => True) (read ts')

lemma skipped_eq_of_forall₂ (hts : List.Forall₂ R ts ts') : skipped ts = skipped ts' := by
  induction hts with
  | nil => rfl
  | @cons t t' rest rest' ht hrest ih =>
    cases hrest with
    | nil => rfl
    | cons hu _ => rw [skipped, skipped, hR _ _ ht, hR _ _ hu, ih]

omit hR in
lemma head?_rel_of_forall₂ (hts : List.Forall₂ R ts ts') : Option.Rel R ts.head? ts'.head? := by
  cases hts with
  | nil => exact .none
  | cons ht _ => exact .some ht

lemma alike_recovering (hp : AlikeTree R p p) : AlikeRow R (recovering p) := by
  intro ts ts' hts
  obtain ⟨hvalue, hused, hreported⟩ := hp ts ts' hts
  have hrest := List.forall₂_drop (p ts).used hts
  cases hv : (p ts).value with
  | error fault =>
    rw [hv] at hvalue
    generalize hv' : (p ts').value = v' at hvalue
    cases hvalue
    rw [recovering_of_error hv, recovering_of_error hv', ← hused, skipped_eq_of_forall₂ hR hrest]
    exact ⟨trivial, rfl,
      List.rel_append hreported (.cons ⟨rfl, head?_rel_of_forall₂ hrest⟩ .nil)⟩
  | ok s =>
    rw [hv] at hvalue
    generalize hv' : (p ts').value = v' at hvalue
    cases hvalue
    rw [recovering_of_ok hv, recovering_of_ok hv']
    exact ⟨trivial, hused, hreported⟩

omit hR in
lemma alike_items (hcloses : ∀ t t', R t t' → closes t = closes t') (hitem : AlikeRow R item)
    (hpos : ∀ t ts, 0 < (item (t :: ts)).used) : AlikeRow R (items closes item) := by
  intro ts ts' hts
  induction hlen : ts.length using Nat.strongRecOn generalizing ts ts' with
  | _ n ih =>
    cases hts with
    | nil =>
      rw [items]
      exact ⟨trivial, rfl, .nil⟩
    | @cons t t' rest rest' ht hrest =>
      by_cases hc : closes t
      · have hc' : closes t' := hcloses t t' ht ▸ hc
        rw [items, items, if_pos hc, if_pos hc']
        exact ⟨trivial, rfl, .nil⟩
      · have hgoes : ¬ Ends closes (t :: rest) := fun h => hc (h t rfl)
        have hgoes' : ¬ Ends closes (t' :: rest') := fun h => hc (hcloses t t' ht ▸ h t' rfl)
        have hts : List.Forall₂ R (t :: rest) (t' :: rest') := .cons ht hrest
        obtain ⟨-, hused, hreported⟩ := hitem _ _ hts
        have hpos₀ := hpos t rest
        have hless : ((t :: rest).drop (item (t :: rest)).used).length < n := by
          rw [← hlen, List.length_drop, List.length_cons]
          omega
        obtain ⟨-, hothers, hmore⟩ := ih _ hless _ _ (List.forall₂_drop _ hts) rfl
        rw [items_step hgoes hpos₀, items_step hgoes' (hpos t' rest'), ← hused]
        exact ⟨trivial, by rw [hothers], List.rel_append hreported hmore⟩

end items

lemma alike_blockOver {item : List Token → Reading (Option Stmt)} (hitem : AlikeRow R item)
    (hpos : ∀ t ts, 0 < (item (t :: ts)).used) : AlikeTree R (blockOver item) (blockOver item) := by
  have hbody : AlikeTree R (always (items (·.kind == .symbol .rightBrace) item))
      (always (items (·.kind == .symbol .rightBrace) item)) := by
    intro ts ts' hts
    have hcloses (t t' : Token) (ht : R t t') :
        (t.kind == .symbol .rightBrace) = (t'.kind == .symbol .rightBrace) := by
      rw [hR t t' ht]
    have hrow := alike_items hcloses hitem hpos ts ts' hts
    exact ⟨.ok trivial, hrow.used, hrow.reported⟩
  unfold blockOver
  rw [bind_eq]
  exact hbody.andThen (fun _ _ _ =>
    (alike_expect hR _ _).andThen (fun _ _ _ => alike_succeed trivial))

lemma alike_itemParser {n : Nat} (hs : AlikeTree R (statement n) (statement n)) :
    AlikeTree R (itemParser n) (itemParser n) := by
  refine Alike.onFront (fun t t' ht => ?_) hs
  rw [hR t t' ht]
  split
  · exact .some (alike_declarationRest hR (alike_operand_expr hR n).2)
  · exact .none

lemma alike_statement_blockRest (n : Nat) :
    AlikeTree R (statement n) (statement n) ∧ AlikeTree R (blockRest n) (blockRest n) := by
  induction n with
  | zero =>
    rw [statement_zero, blockRest_zero]
    exact ⟨alike_fail _, alike_fail _⟩
  | succ n ih =>
    have hs : AlikeTree R (statement (n + 1)) (statement (n + 1)) := by
      rw [statement_succ]
      exact alike_statementOver hR (alike_operand_expr hR (n + 1)).2 ih.1 ih.2
    have hitem : AlikeRow R (item (n + 1)) := by
      rw [item_eq]
      exact alike_recovering hR (alike_itemParser hR hs)
    refine ⟨hs, ?_⟩
    rw [blockRest_succ_eq]
    exact alike_blockOver hR hitem (used_pos_item (n + 1))

lemma alike_program : AlikeRow R program := by
  have hs := (alike_statement_blockRest hR (maxNesting + 1)).1
  have hitem : AlikeRow R (item (maxNesting + 1)) := by
    rw [item_eq]
    exact alike_recovering hR (alike_itemParser hR hs)
  exact alike_items (fun _ _ _ => rfl) hitem (used_pos_item _)

end Grammar
end Scriptlet
