import Scriptlet.Proofs.GrammarTracking

/-!
# Sentences are read

A parser takes tokens when it reads exactly these, complaining of assignment targets at most, or finds
too much nesting in them. Every phrase of the grammar is taken by the production of its sort as long
as nothing behind it could continue it. A statement in which an `else` is hung to a distant `if`
is first brought into the shape in which each `else` belongs to the nearest one.
-/

namespace Scriptlet
namespace Parser
variable {α β : Type}

/-- Before `rest` the parser reads the tokens `w`, or finds too much nesting. -/
def Takes (p : Parser α) (w rest : List Token) : Prop :=
  (∃ a reported, OnTargets reported ∧ p (w ++ rest) = ⟨.ok a, w.length, reported⟩) ∨
    (p.firstBlock? (w ++ rest)).map Complaint.fault = some .tooMuchNesting

section Takes
variable {p q : Parser α} {f : α → Parser β} {v w rest : List Token} {t : Token}

lemma takes_succeed {a : α} : (succeed a).Takes [] rest :=
  Or.inl ⟨a, [], OnTargets.nil, rfl⟩

lemma takes_tooDeep : (Grammar.tooDeep : Parser α).Takes w rest :=
  Or.inr (congrArg (Option.map Complaint.fault) (firstBlock?_fail (by decide)))

lemma Takes.andThen (hp : p.Takes v (w ++ rest)) (hf : ∀ a, (f a).Takes w rest) :
    (p.andThen f).Takes (v ++ w) rest := by
  unfold Takes
  rw [List.append_assoc]
  rcases hp with ⟨a, reported, htargets, hread⟩ | hdeep
  · rcases hf a with ⟨b, reported', htargets', hread'⟩ | hdeep
    · refine Or.inl ⟨b, reported ++ reported', htargets.append htargets', ?_⟩
      simp only [Parser.andThen, hread, List.drop_left, hread', List.length_append]
    · exact Or.inr (by rw [firstBlock?_andThen_of_read hread htargets, hdeep])
  · obtain ⟨c, hc, hfault⟩ := Option.map_eq_some_iff.mp hdeep
    exact Or.inr (by rw [firstBlock?_andThen hc, Option.map_some, hfault])

lemma Takes.andThen_nil (hp : p.Takes w rest) (hf : ∀ a, (f a).Takes [] rest) :
    (p.andThen f).Takes w rest := by
  have h := Takes.andThen (w := []) hp hf
  rwa [List.append_nil] at h

lemma Takes.map {g : α → β} (hp : p.Takes w rest) :
    (p.andThen (fun a => succeed (g a))).Takes w rest :=
  hp.andThen_nil (fun _ => takes_succeed)

lemma Takes.onFront_some {choose : Token → Option (Parser α)} {otherwise : Parser α}
    (hq : q.Takes w rest) (hc : choose t = some q) :
    (onFront choose otherwise).Takes (t :: w) rest := by
  rcases hq with ⟨a, reported, htargets, hread⟩ | hdeep
  · refine Or.inl ⟨a, reported, htargets, ?_⟩
    rw [List.cons_append, onFront, hc]
    dsimp only
    rw [hread, Reading.after, List.length_cons, Nat.add_comm]
  · exact Or.inr (by rw [List.cons_append, firstBlock?_onFront_some hc, hdeep])

lemma Takes.onFront_none {choose : Token → Option (Parser α)} {otherwise : Parser α}
    (ho : otherwise.Takes w rest) (hc : ∀ t ∈ (w ++ rest).head?, choose t = none) :
    (onFront choose otherwise).Takes w rest := by
  have heq : onFront choose otherwise (w ++ rest) = otherwise (w ++ rest) := by
    unfold onFront
    split
    · rename_i hnil
      rw [hnil]
    · rename_i t more hcons
      rw [hc t (by rw [hcons]; rfl), hcons]
  unfold Takes firstBlock? at *
  rwa [heq]

lemma Takes.expect {kind : TokenKind} {fault : SyntaxFault} {f : Token → Parser β}
    (h : (f t).Takes w rest) (ht : t.kind = kind) :
    ((Parser.expect kind fault).andThen f).Takes (t :: w) rest := by
  rw [expect_andThen]
  exact h.onFront_some (if_pos ht)

lemma Takes.accept_some {kind : TokenKind} {f : Option Token → Parser β}
    (h : (f (some t)).Takes w rest) (ht : t.kind = kind) :
    ((accept kind).andThen f).Takes (t :: w) rest := by
  rw [accept_andThen]
  exact h.onFront_some (if_pos ht)

lemma Takes.accept_none {kind : TokenKind} {f : Option Token → Parser β}
    (h : (f none).Takes [] rest) (hk : ¬ Fronts kind rest) :
    ((accept kind).andThen f).Takes [] rest := by
  rw [accept_andThen]
  exact h.onFront_none (fun t ht => if_neg (fun ht' => hk ⟨t, ht, ht'⟩))

end Takes

end Parser

namespace Grammar
open Scriptlet.Parser
variable {w : List Token}

section expressions
variable {n : Nat} {rest : List Token}

/-- An operand and the operators behind it, hung to what `g` makes of it. -/
def chainFrom (operand : Parser Expr) (g : Expr → Expr) : Parser Expr :=
  operand.andThen (fun first => operations operand (g first))

lemma exprOver_eq {operandBelow exprBelow : Parser Expr} :
    exprOver operandBelow exprBelow =
      (chainFrom (operandOver operandBelow exprBelow) id).andThen (fun left =>
        (accept (.symbol .equal)).andThen (fun equals =>
          match equals with
          | none => succeed left
          | some equals => exprBelow.andThen (fun value => assignment left equals value))) :=
  (andThen_assoc _ _ _).symm

lemma takes_operations_nil {operand : Parser Expr} {left : Expr}
    (h : ∀ t ∈ rest.head?, t.kind.precedence? = none) :
    Parser.Takes (operations operand left) [] rest := by
  rw [operations_eq]
  refine takes_succeed.onFront_none (fun t ht => if_neg ?_)
  rw [h t ht]
  exact Bool.false_ne_true

lemma takes_operations_cons {operand : Parser Expr} {left : Expr} {op : Token}
    (h : (chainFrom operand (left.attach op)).Takes w rest) (hop : op.kind.precedence?.isSome) :
    Parser.Takes (operations operand left) (op :: w) rest := by
  rw [operations_eq]
  exact h.onFront_some (if_pos hop)

/-- Whatever level its operators have, a phrase is read as a part of a chain, before what goes on
with the chain. -/
def TakesChain (w : List Token) : Prop :=
  ∀ n g u rest, (∀ left, Parser.Takes (operations (operand n) left) u rest) →
    (chainFrom (operand n) g).Takes (w ++ u) rest

lemma TakesChain.takes (h : TakesChain w) (hrest : ∀ t ∈ rest.head?, t.kind.precedence? = none) :
    (chainFrom (operand n) id).Takes w rest := by
  have hchain := h n id [] rest (fun _ => takes_operations_nil hrest)
  rwa [List.append_nil] at hchain

lemma TakesChain.binary {op : Token} {p : Nat} {v : List Token} (hv : TakesChain v)
    (hop : op.kind.precedence? = some p) (hw : TakesChain w) : TakesChain (v ++ op :: w) := by
  intro n g u rest hu
  have hright : ∀ left, Parser.Takes (operations (operand n) left) (op :: (w ++ u)) rest :=
    fun left => takes_operations_cons (hw n (left.attach op) u rest hu) (Option.isSome_of_eq_some hop)
  have hall := hv n g _ rest hright
  rwa [← List.cons_append, ← List.append_assoc] at hall

def TakesExpr (w : List Token) : Prop :=
  ∀ n rest, ExprEnds rest → Parser.Takes (expr n) w rest

lemma takes_assignment {target value : Expr} {equals : Token} :
    (assignment target equals value).Takes [] rest := by
  unfold assignment
  split
  · exact takes_succeed
  · exact Or.inl ⟨target, [⟨.invalidTarget, some equals⟩], OnTargets.singleton equals, rfl⟩

section exprOver
variable {operandBelow exprBelow : Parser Expr}

lemma takes_exprOver_value (h : (chainFrom (operandOver operandBelow exprBelow) id).Takes w rest)
    (hends : ExprEnds rest) : (exprOver operandBelow exprBelow).Takes w rest := by
  rw [exprOver_eq]
  refine h.andThen_nil (fun left => Takes.accept_none ?_ ?_)
  · exact takes_succeed
  · rintro ⟨t, ht, hk⟩
    exact (hends t ht).2 hk

lemma takes_exprOver_assignment {equals : Token} {v : List Token}
    (hv : (chainFrom (operandOver operandBelow exprBelow) id).Takes v (equals :: w ++ rest))
    (hequals : equals.kind = .symbol .equal) (hw : exprBelow.Takes w rest) :
    (exprOver operandBelow exprBelow).Takes (v ++ equals :: w) rest := by
  rw [exprOver_eq]
  exact hv.andThen (fun left =>
    (hw.andThen_nil (fun _ => takes_assignment)).accept_some hequals)

end exprOver

lemma takes_expr_levels (h : ∀ m, (exprOver (operand m) (expr m)).Takes w rest) :
    Parser.Takes (expr n) w rest := by
  cases n with
  | zero =>
    rw [expr_zero]
    exact takes_tooDeep
  | succ m =>
    rw [expr_succ]
    exact h m

lemma TakesChain.takes_over (h : TakesChain w)
    (hrest : ∀ t ∈ rest.head?, t.kind.precedence? = none) :
    (chainFrom (operandOver (operand n) (expr n)) id).Takes w rest := by
  rw [← operand_succ]
  exact h.takes hrest

lemma TakesChain.takesExpr (h : TakesChain w) : TakesExpr w :=
  fun _ _ hends => takes_expr_levels
    (fun _ => takes_exprOver_value (h.takes_over (fun t ht => (hends t ht).1)) hends)

lemma TakesChain.assignment {equals : Token} {v : List Token} (hv : TakesChain v)
    (hequals : equals.kind = .symbol .equal) (hw : TakesExpr w) : TakesExpr (v ++ equals :: w) := by
  intro n rest hends
  have hnoop : ∀ t ∈ (equals :: w ++ rest).head?, t.kind.precedence? = none := by
    intro t ht
    cases ht
    rw [hequals]
    rfl
  exact takes_expr_levels
    (fun m => takes_exprOver_assignment (hv.takes_over hnoop) hequals (hw m rest hends))

end expressions

section statements
variable {t : Token} {rest : List Token}

/-- A statement in which each `else` belongs to the nearest `if` that has none, and whether it ends
in an `if` that could take one more. Of the parts that are not statements it is known that they can
be read. -/
inductive Shaped : Bool → List Token → Prop where
  | simple {w : List Token} (h : ∀ n rest, Parser.Takes (statement n) w rest) : Shaped false w
  | ifThen {opened : Bool} {t l r : Token} {c y : List Token} (ht : t.kind = .keyword .kwIf)
      (hl : l.kind = .symbol .leftParen) (hc : TakesExpr c) (hr : r.kind = .symbol .rightParen)
      (hy : Shaped opened y) : Shaped true (t :: l :: (c ++ r :: y))
  | ifElse {opened : Bool} {t l r e : Token} {c y n : List Token} (ht : t.kind = .keyword .kwIf)
      (hl : l.kind = .symbol .leftParen) (hc : TakesExpr c) (hr : r.kind = .symbol .rightParen)
      (hy : Shaped false y) (he : e.kind = .keyword .kwElse) (hn : Shaped opened n) :
      Shaped opened (t :: l :: (c ++ r :: (y ++ e :: n)))
  | whileDo {opened : Bool} {t l r : Token} {c b : List Token} (ht : t.kind = .keyword .kwWhile)
      (hl : l.kind = .symbol .leftParen) (hc : TakesExpr c) (hr : r.kind = .symbol .rightParen)
      (hb : Shaped opened b) : Shaped opened (t :: l :: (c ++ r :: b))

lemma Shaped.attach {e : Token} {v : List Token} {opened : Bool} (hw : Shaped true w)
    (he : e.kind = .keyword .kwElse) (hv : Shaped opened v) :
    ∃ opened', Shaped opened' (w ++ e :: v) := by
  generalize hopen : true = o at hw
  induction hw with
  | simple h => cases hopen
  | @ifThen inner t l r c y ht hl hc hr hy ih =>
    cases inner with
    | false =>
      refine ⟨opened, ?_⟩
      simpa using Shaped.ifElse ht hl hc hr hy he hv
    | true =>
      obtain ⟨opened', hinner⟩ := ih rfl
      refine ⟨true, ?_⟩
      simpa using Shaped.ifThen ht hl hc hr hinner
  | ifElse ht hl hc hr hy he' _ _ ih =>
    obtain ⟨opened', hinner⟩ := ih hopen
    refine ⟨opened', ?_⟩
    simpa using Shaped.ifElse ht hl hc hr hy he' hinner
  | whileDo ht hl hc hr _ ih =>
    obtain ⟨opened', hinner⟩ := ih hopen
    refine ⟨opened', ?_⟩
    simpa using Shaped.whileDo ht hl hc hr hinner

section parts
variable {expr : Parser Expr} {branch : Parser Stmt} {body : Parser (List Stmt)}
  {c y v : List Token}

lemma takes_condition {f f' : SyntaxFault} {next : Expr → Parser Stmt} {l r : Token}
    (hl : l.kind = .symbol .leftParen) (hc : ∀ rest, ExprEnds rest → expr.Takes c rest)
    (hr : r.kind = .symbol .rightParen) (hnext : ∀ e, (next e).Takes w rest) :
    ((expect (.symbol .leftParen) f).andThen (fun _ => expr.andThen (fun e =>
      (expect (.symbol .rightParen) f').andThen (fun _ => next e)))).Takes
      (l :: (c ++ r :: w)) rest := by
  have hcond := hc (r :: w ++ rest) (exprEnds_cons hr rfl (by decide))
  exact (hcond.andThen (fun e => (hnext e).expect hr)).expect hl

lemma takes_upTo_semicolon {fault : SyntaxFault} {make : Expr → Stmt} {stop : Token}
    (h : ∀ rest, ExprEnds rest → expr.Takes w rest) (hstop : stop.kind = .symbol .semicolon) :
    (expr.andThen (fun e => (expect (.symbol .semicolon) fault).andThen
      (fun _ => succeed (make e)))).Takes (w ++ [stop]) rest := by
  have hexpr := h ([stop] ++ rest) (exprEnds_cons hstop rfl (by decide))
  refine hexpr.andThen (fun e => Takes.expect ?_ hstop)
  exact takes_succeed

lemma takes_ifThen {l r : Token} (hl : l.kind = .symbol .leftParen)
    (hc : ∀ rest, ExprEnds rest → expr.Takes c rest) (hr : r.kind = .symbol .rightParen)
    (hy : branch.Takes y rest) (hrest : ¬ Fronts (.keyword .kwElse) rest) :
    (ifRest expr branch).Takes (l :: (c ++ r :: y)) rest := by
  refine takes_condition hl hc hr (fun e => hy.andThen_nil (fun yes => Takes.accept_none ?_ hrest))
  exact takes_succeed

lemma takes_ifElse {l r e : Token} (hl : l.kind = .symbol .leftParen)
    (hc : ∀ rest, ExprEnds rest → expr.Takes c rest) (hr : r.kind = .symbol .rightParen)
    (hy : branch.Takes y (e :: v ++ rest)) (he : e.kind = .keyword .kwElse)
    (hv : branch.Takes v rest) :
    (ifRest expr branch).Takes (l :: (c ++ r :: (y ++ e :: v))) rest := by
  refine takes_condition hl hc hr (fun _ => hy.andThen (fun yes => Takes.accept_some ?_ he))
  exact hv.map

lemma takes_whileDo {l r : Token} (hl : l.kind = .symbol .leftParen)
    (hc : ∀ rest, ExprEnds rest → expr.Takes c rest) (hr : r.kind = .symbol .rightParen)
    (hb : branch.Takes v rest) : (whileRest expr branch).Takes (l :: (c ++ r :: v)) rest :=
  takes_condition hl hc hr (fun _ => hb.map)

lemma takes_print {t stop : Token} (ht : t.kind = .keyword .kwPrint)
    (h : ∀ rest, ExprEnds rest → expr.Takes w rest) (hstop : stop.kind = .symbol .semicolon) :
    (statementOver expr branch body).Takes (t :: (w ++ [stop])) rest := by
  have hrest : (printRest t expr).Takes (w ++ [stop]) rest := takes_upTo_semicolon h hstop
  apply hrest.onFront_some
  rw [ht]

lemma takes_block {t : Token} (ht : t.kind = .symbol .leftBrace) (h : body.Takes w rest) :
    (statementOver expr branch body).Takes (t :: w) rest := by
  have hblock : (Stmt.block <$> body).Takes w rest := h.map
  apply hblock.onFront_some
  rw [ht]

lemma takes_expressionStatement {stop : Token} (hbegins : Derives.Front .expression w)
    (h : ∀ rest, ExprEnds rest → expr.Takes w rest) (hstop : stop.kind = .symbol .semicolon) :
    (statementOver expr branch body).Takes (w ++ [stop]) rest := by
  obtain ⟨t, more, rfl, ht⟩ := hbegins
  refine Takes.onFront_none (takes_upTo_semicolon h hstop) (fun u hu => ?_)
  cases hu
  exact statementOver_of_begins ht

end parts

lemma takes_statement_levels {n : Nat}
    (h : ∀ m, (statementOver (expr (m + 1)) (statement m) (blockRest m)).Takes w rest) :
    Parser.Takes (statement n) w rest := by
  cases n with
  | zero =>
    rw [statement_zero]
    exact takes_tooDeep
  | succ m =>
    rw [statement_succ]
    exact h m

/-- With any number of levels a statement is taken, where no `else` follows an `if` that could
have it. -/
lemma Shaped.takes {opened : Bool} (h : Shaped opened w) :
    ∀ n rest, (opened → ¬ Fronts (.keyword .kwElse) rest) → Parser.Takes (statement n) w rest := by
  induction h with
  | simple h => exact fun n rest _ => h n rest
  | ifThen ht hl hc hr _ ih =>
    intro n rest hrest
    refine takes_statement_levels (fun m => ?_)
    apply Takes.onFront_some
    · exact takes_ifThen hl (hc (m + 1)) hr (ih m rest (fun _ => hrest rfl)) (hrest rfl)
    · rw [ht]
  | @ifElse opened t l r e c y v ht hl hc hr _ he _ ihy ihv =>
    intro n rest hrest
    refine takes_statement_levels (fun m => ?_)
    have hyes := ihy m (e :: v ++ rest) (fun h => absurd h Bool.false_ne_true)
    apply Takes.onFront_some
    · exact takes_ifElse hl (hc (m + 1)) hr hyes he (ihv m rest hrest)
    · rw [ht]
  | whileDo ht hl hc hr _ ih =>
    intro n rest hrest
    refine takes_statement_levels (fun m => ?_)
    apply Takes.onFront_some
    · exact takes_whileDo hl (hc (m + 1)) hr (ih m rest hrest)
    · rw [ht]

section items
variable {n : Nat} {expr : Parser Expr} {p : Parser Stmt} {closes : Token → Bool} {v : List Token}

lemma takes_declarationRest {x stop : Token} (hx : x.kind = .identifier)
    (hstop : stop.kind = .symbol .semicolon) : (declarationRest expr).Takes [x, stop] rest := by
  have hnone : ¬ Fronts (.symbol .equal) ([stop] ++ rest) := by
    rintro ⟨t, ht, hk⟩
    cases ht
    rw [hstop] at hk
    cases hk
  have hinit : (initializer expr).Takes [] ([stop] ++ rest) := by
    refine Takes.accept_none ?_ hnone
    exact takes_succeed
  refine Takes.expect (hinit.andThen (fun init => Takes.expect ?_ hstop)) hx
  exact takes_succeed

lemma takes_initializationRest {x equals stop : Token} (hx : x.kind = .identifier)
    (hequals : equals.kind = .symbol .equal) (h : ∀ rest, ExprEnds rest → expr.Takes w rest)
    (hstop : stop.kind = .symbol .semicolon) :
    (declarationRest expr).Takes (x :: equals :: (w ++ [stop])) rest := by
  have hvalue := h ([stop] ++ rest) (exprEnds_cons hstop rfl (by decide))
  have hinit : (initializer expr).Takes (equals :: w) ([stop] ++ rest) := by
    refine Takes.accept_some ?_ hequals
    exact hvalue.map
  refine Takes.expect (hinit.andThen (fun init => Takes.expect ?_ hstop)) hx
  exact takes_succeed

lemma takes_items (hv : p.Takes v (w ++ rest)) (hadv : Advances p)
    (hgoes : ¬ Ends closes (v ++ (w ++ rest)))
    (hw : (always (items closes (recovering p))).Takes w rest) :
    (always (items closes (recovering p))).Takes (v ++ w) rest := by
  unfold Takes
  rw [List.append_assoc]
  rcases hv with ⟨s, reported, htargets, hread⟩ | hdeep
  · rcases hw with ⟨body, reported', htargets', hread'⟩ | hdeep
    · refine Or.inl ⟨s :: body, reported ++ reported', htargets.append htargets', ?_⟩
      unfold always at hread' ⊢
      rw [Reading.mk.injEq, Except.ok.injEq] at hread'
      obtain ⟨hvalue, hlength, hreported⟩ := hread'
      rw [items_of_read hadv hgoes hread, hvalue, hlength, hreported, List.length_append]
    · exact Or.inr (by rw [firstBlock?_items_of_read hadv hgoes hread htargets, hdeep])
  · obtain ⟨c, hc, hfault⟩ := Option.map_eq_some_iff.mp hdeep
    exact Or.inr (by rw [firstBlock?_items hadv hgoes hc, Option.map_some, hfault])

end items

/-- What a phrase of the sort is for the parsers. -/
def Accepted : Nonterminal → List Token → Prop
  | .operand, w => ∀ n rest, Parser.Takes (operand n) w rest
  | .level _, w => TakesChain w
  | .expression, w => TakesExpr w
  | .statement, w => ∃ opened, Shaped opened w
  | .blockRest, w => ∀ n rest, Parser.Takes (blockRest n) w rest
  | .item, w => ∀ n rest, ¬ Fronts (.keyword .kwElse) rest → (itemParser n).Takes w rest
  | .program, w => ∀ n closes rest, (∀ t : Token, t.kind ≠ .symbol .rightBrace → ¬ closes t) →
      Ends closes rest → ¬ Fronts (.keyword .kwElse) rest →
      (always (items closes (recovering (itemParser n)))).Takes w rest

end statements

section accepted
variable {v : List Token} {n : Nat} {rest : List Token}

lemma takes_operand_levels (h : ∀ m, (operandOver (operand m) (expr m)).Takes w rest) :
    Parser.Takes (operand n) w rest := by
  cases n with
  | zero =>
    rw [operand_zero]
    exact takes_tooDeep
  | succ m =>
    rw [operand_succ]
    exact h m

lemma accepted_grouping {l r : Token} (hl : l.kind = .symbol .leftParen) (h : TakesExpr w)
    (hr : r.kind = .symbol .rightParen) : Accepted .operand (l :: (w ++ [r])) := by
  intro n rest
  refine takes_operand_levels (fun m => Takes.onFront_some ?_ (operandFrom_grouping hl))
  have hinner := h m ([r] ++ rest) (exprEnds_cons hr rfl (by decide))
  refine hinner.andThen (fun e => Takes.expect ?_ hr)
  exact takes_succeed

lemma accepted_ifElse {t l r e : Token} {c y : List Token} (ht : t.kind = .keyword .kwIf)
    (hl : l.kind = .symbol .leftParen) (hc : TakesExpr c) (hr : r.kind = .symbol .rightParen)
    (hy : Accepted .statement y) (he : e.kind = .keyword .kwElse) (hv : Accepted .statement v) :
    Accepted .statement (t :: l :: (c ++ r :: (y ++ e :: v))) := by
  obtain ⟨first, hy⟩ := hy
  obtain ⟨second, hv⟩ := hv
  cases first with
  | false => exact ⟨second, .ifElse ht hl hc hr hy he hv⟩
  | true =>
    obtain ⟨inner, hattach⟩ := hy.attach he hv
    exact ⟨true, .ifThen ht hl hc hr hattach⟩

lemma accepted_closing {r : Token} (h : Accepted .program w) (hr : r.kind = .symbol .rightBrace) :
    Accepted .blockRest (w ++ [r]) := by
  intro n rest
  cases n with
  | zero =>
    rw [blockRest_zero]
    exact takes_tooDeep
  | succ n =>
    have hends : Ends (·.kind == .symbol .rightBrace) ([r] ++ rest) := by
      intro t ht
      cases ht
      exact beq_iff_eq.mpr hr
    have hnoelse : ¬ Fronts (.keyword .kwElse) ([r] ++ rest) := by
      rintro ⟨t, ht, hk⟩
      cases ht
      rw [hr] at hk
      cases hk
    have hbody := h (n + 1) _ _ (fun t ht => mt beq_iff_eq.mp ht) hends hnoelse
    rw [blockRest_succ_eq, blockOver, item_eq]
    refine hbody.andThen (fun body => Takes.expect ?_ hr)
    exact takes_succeed

lemma accepted_plain (hfront : Derives.Front .statement w) (h : Accepted .statement w) :
    Accepted .item w := by
  intro n rest hrest
  obtain ⟨t, more, rfl, ht⟩ := hfront
  obtain ⟨opened, h⟩ := h
  refine Takes.onFront_none (h.takes n rest (fun _ => hrest)) (fun u hu => if_neg (fun hk => ?_))
  cases hu
  rw [hk] at ht
  exact Stmt.not_begins_var ht

lemma accepted_empty : Accepted .program [] := by
  intro n closes rest _ hends _
  refine Or.inl ⟨[], [], OnTargets.nil, ?_⟩
  unfold always
  rw [List.nil_append, items_of_ends hends]
  rfl

lemma accepted_more (hfront : Derives.Front .item v) (hv : Accepted .item v)
    (hnext : Derives.Front .program w) (hw : Accepted .program w) : Accepted .program (v ++ w) := by
  -- what begins an item is neither `else` nor a closing brace
  have hkinds : ∀ t : Token, Stmt.Begins t.kind ∨ t.kind = .keyword .kwVar →
      t.kind ≠ .keyword .kwElse ∧ t.kind ≠ .symbol .rightBrace := by
    intro t ht
    constructor <;>
    · intro hk
      rw [hk] at ht
      simp [Stmt.Begins, Expr.Begins] at ht
  intro n closes rest hcloses hends hrest
  have hnoelse : ¬ Fronts (.keyword .kwElse) (w ++ rest) := by
    rcases hnext with rfl | ⟨t, more, rfl, ht⟩
    · exact hrest
    · rintro ⟨u, hu, hk⟩
      cases hu
      exact (hkinds t ht).1 hk
  obtain ⟨t, more, rfl, ht⟩ := hfront
  have hgoes : ¬ Ends closes (t :: more ++ (w ++ rest)) :=
    fun h => hcloses t (hkinds t ht).2 (h t rfl)
  exact takes_items (hv n (w ++ rest) hnoelse) (advances_itemParser n) hgoes
    (hw n closes rest hcloses hends hrest)

lemma accepted {sort : Nonterminal} (h : Derives sort w) : Accepted sort w := by
  induction h with
  | literal ht =>
    obtain ⟨v, hv⟩ := Option.isSome_iff_exists.mp ht
    exact fun n rest => takes_operand_levels
      (fun m => takes_succeed.onFront_some (operandFrom_literal hv))
  | name ht =>
    exact fun n rest => takes_operand_levels
      (fun m => takes_succeed.onFront_some (operandFrom_ref ht))
  | unary hop _ ih =>
    exact fun n rest => takes_operand_levels
      (fun m => (ih m rest).map.onFront_some (operandFrom_unary hop))
  | grouping hl _ hr ih => exact accepted_grouping hl ih hr
  | single _ ih => exact fun n g u rest hu => (ih n (u ++ rest)).andThen (fun first => hu (g first))
  | binary hop _ _ _ ihv ihw => exact ihv.binary hop ihw
  | value _ ih => exact ih.takesExpr
  | assignment _ hequals _ ihv ihw => exact ihv.assignment hequals ihw
  | expression h hstop ih =>
    exact ⟨false, .simple (fun n rest => takes_statement_levels
      (fun m => takes_expressionStatement h.front (ih (m + 1)) hstop))⟩
  | print ht _ hstop ih =>
    exact ⟨false, .simple (fun n rest => takes_statement_levels
      (fun m => takes_print ht (ih (m + 1)) hstop))⟩
  | block ht _ ih =>
    exact ⟨false, .simple (fun n rest => takes_statement_levels
      (fun m => takes_block ht (ih m rest)))⟩
  | ifThen ht hl _ hr _ ihc ihy =>
    obtain ⟨opened, hy⟩ := ihy
    exact ⟨true, .ifThen ht hl ihc hr hy⟩
  | ifElse ht hl _ hr _ he _ ihc ihy ihn => exact accepted_ifElse ht hl ihc hr ihy he ihn
  | whileDo ht hl _ hr _ ihc ihb =>
    obtain ⟨opened, hb⟩ := ihb
    exact ⟨opened, .whileDo ht hl ihc hr hb⟩
  | closing _ hr ih => exact accepted_closing ih hr
  | plain h ih => exact accepted_plain h.front ih
  | declaration ht hx hstop =>
    exact fun n rest _ => (takes_declarationRest hx hstop).onFront_some (if_pos ht)
  | initialization ht hx hequals _ hstop ih =>
    exact fun n rest _ => (takes_initializationRest hx hequals (ih n) hstop).onFront_some (if_pos ht)
  | empty => exact accepted_empty
  | more hv hw ihv ihw => exact accepted_more hv.front ihv hw.front ihw

end accepted

theorem takes_program (h : Derives .program w) : (always program).Takes w [] := by
  unfold program
  rw [item_eq]
  exact accepted h (maxNesting + 1) _ [] (fun _ _ => Bool.false_ne_true) (fun _ ht => by cases ht)
    (fun ⟨_, ht, _⟩ => by cases ht)

end Grammar
end Scriptlet
