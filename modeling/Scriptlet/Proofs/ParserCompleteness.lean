import Scriptlet.Proofs.ParserSoundness

/-!
# Reading what a tree writes

Tokens that write a canonical tree are read as this tree as long as it keeps the nesting limit.
When it does not, too much nesting is the first fault, since up to the first place that lies too
deep everything is read cleanly. As before, the proof is one induction on the number of levels.
-/

namespace Scriptlet
namespace Grammar
open Scriptlet.Parser

lemma readsWhen_tooDeep {α : Type} {front rest : List Token} {a : α} :
    ReadsWhen False tooDeep front a rest :=
  ⟨False.elim, fun _ => rfl⟩

/-- With `n` levels left the parser reads every canonical operand that nests less than `n` deep. -/
def ReadsOperands (n : Nat) (p : Parser Expr) : Prop :=
  ∀ e front rest, e.Canonical → e.rank = 5 → Written e.marks front →
    ReadsWhen (e.nest < n) p front e rest

/-- Neither an operator nor `=` stands at the front, so an expression ends here. -/
def ExprEnds (rest : List Token) : Prop :=
  ∀ t ∈ rest.head?, t.kind.precedence? = none ∧ t.kind ≠ .symbol .equal

/-- The same for expressions, which end where nothing continues them. -/
def ReadsExprs (n : Nat) (p : Parser Expr) : Prop :=
  ∀ e front rest, e.Canonical → Written e.marks front → ExprEnds rest →
    ReadsWhen (e.nest < n) p front e rest

section expressions
variable {n : Nat} {operandBelow exprBelow : Parser Expr}

lemma exprEnds_cons {t : Token} {ts : List Token} {k : TokenKind} (hk : t.kind = k)
    (hp : k.precedence? = none) (he : k ≠ .symbol .equal) : ExprEnds (t :: ts) := by
  intro u hu
  cases hu
  rw [hk]
  exact ⟨hp, he⟩

lemma readsOperands_operandOver (ho : ReadsOperands n operandBelow)
    (he : ReadsExprs n exprBelow) :
    ReadsOperands (n + 1) (operandOver operandBelow exprBelow) := by
  intro e front rest hcan hrank hw
  unfold operandOver
  cases e with
  | literal v =>
    obtain ⟨t, more, rfl, hv, hnil⟩ := written_cons_iff.mp hw
    obtain rfl := written_nil_iff.mp hnil
    have hread : (succeed (Expr.literal v)).Reads [] (.literal v) rest :=
      reads_succeed.mpr ⟨rfl, rfl⟩
    exact (hread.onFront_some (operandFrom_literal hv)).when.congr
      (iff_true_intro (Nat.succ_pos n))
  | grouping e =>
    obtain ⟨t, more, rfl, hk, hmore⟩ := written_cons_iff.mp hw
    obtain ⟨inner, close, rfl, hinner, hclose⟩ := written_append_iff.mp hmore
    obtain ⟨u, back, rfl, hu, hnil⟩ := written_cons_iff.mp hclose
    obtain rfl := written_nil_iff.mp hnil
    have hread := he e inner ([u] ++ rest) hcan hinner (exprEnds_cons hu rfl (by decide))
    have hend : ((expect (.symbol .rightParen) .expectedClosingParen).andThen
        (fun _ => succeed (Expr.grouping e))).Reads ([u] ++ []) (.grouping e) rest :=
      Reads.andThen (reads_expect.mpr ⟨rfl, hu⟩) (reads_succeed.mpr ⟨rfl, rfl⟩)
    exact ((hread.andThen_reads hend).onFront_some (operandFrom_grouping hk)).congr
      Nat.succ_lt_succ_iff
  | unary op e =>
    obtain ⟨t, more, rfl, rfl, hmore⟩ := written_cons_iff.mp hw
    obtain ⟨hk, hrank', hcan'⟩ := hcan
    have hread := ho e more rest hcan' hrank' hmore
    exact (hread.map.onFront_some (operandFrom_unary hk)).congr Nat.succ_lt_succ_iff
  | binary l op r =>
    obtain ⟨p, hop, -⟩ := hcan
    have hp := Expr.precedence?_bounds hop
    rw [Expr.rank, hop, Option.getD_some] at hrank
    omega
  | ref name =>
    obtain ⟨t, more, rfl, rfl, hnil⟩ := written_cons_iff.mp hw
    obtain rfl := written_nil_iff.mp hnil
    have hread : (succeed (Expr.ref t)).Reads [] (.ref t) rest :=
      reads_succeed.mpr ⟨rfl, rfl⟩
    exact (hread.onFront_some (operandFrom_ref hcan)).when.congr
      (iff_true_intro (Nat.succ_pos n))
  | assign name e => cases hrank

lemma readsWhen_operations {operand : Parser Expr} (left : Expr) (ops : List (Token × Expr))
    {front rest : List Token} (ho : ReadsOperands n operand) (hops : ∀ x ∈ ops, Expr.IsStep x)
    (hw : Written (Expr.chainMarks ops) front)
    (hrest : ∀ t ∈ rest.head?, t.kind.precedence? = none) :
    ReadsWhen (∀ x ∈ ops, x.2.nest < n) (operations operand left) front (left.attachAll ops)
      rest := by
  induction ops generalizing left front with
  | nil =>
    obtain rfl := written_nil_iff.mp hw
    have hread : Reads (operations operand left) [] left rest := by
      rw [operations_eq]
      apply Reads.onFront_none
      · intro t ht
        rw [hrest t ht]
        rfl
      · exact reads_succeed.mpr ⟨rfl, rfl⟩
    exact hread.when.congr (by simp)
  | cons x ops ih =>
    rw [List.forall_mem_cons] at hops
    obtain ⟨⟨⟨p, hp⟩, hcan, hrank⟩, hops⟩ := hops
    rw [Expr.chainMarks, List.flatMap_cons] at hw
    obtain ⟨step, back, rfl, hstep, hback⟩ := written_append_iff.mp hw
    obtain ⟨t, mid, rfl, rfl, hmid⟩ := written_cons_iff.mp hstep
    have hread := ho x.2 mid (back ++ rest) hcan hrank hmid
    have hmore := ih (left.attach x.1 x.2) hops hback
    rw [operations_eq]
    apply ReadsWhen.congr
    · apply ReadsWhen.onFront_some
      · rw [hp]
        rfl
      · exact hread.andThen hmore
    · rw [List.forall_mem_cons]

lemma readsWhen_exprOver_chain {e : Expr} {front rest : List Token}
    (ho : ReadsOperands (n + 1) (operandOver operandBelow exprBelow)) (hcan : e.Canonical)
    (hrank : 0 < e.rank) (hw : Written e.marks front) (hends : ExprEnds rest) :
    ReadsWhen (e.nest < n + 1) (exprOver operandBelow exprBelow) front e rest := by
  rw [Expr.marks_eq_chain] at hw
  obtain ⟨left, right, rfl, hleft, hright⟩ := written_append_iff.mp hw
  obtain ⟨hfcan, hfrank⟩ := Expr.canonical_first hcan hrank
  have hsteps : ∀ x ∈ e.chain, Expr.IsStep x := fun x hx => (Expr.isStep_chain hcan hrank x hx).1
  have hfirst := ho e.first left (right ++ rest) hfcan hfrank hleft
  have hchain := readsWhen_operations e.first e.chain ho hsteps hright
    (fun t ht => (hends t ht).1)
  rw [Expr.attachAll_chain hcan hrank] at hchain
  have hnone : (accept (.symbol .equal)).Reads [] none rest :=
    reads_accept.mpr (Or.inr ⟨rfl, rfl, fun ⟨t, ht, hk⟩ => (hends t ht).2 hk⟩)
  apply ReadsWhen.congr
  · apply hfirst.andThen
    apply hchain.andThen_nil
    exact hnone.andThen_nil (reads_succeed.mpr ⟨rfl, rfl⟩)
  · exact Expr.nest_lt_iff_chain e (n + 1)

lemma readsWhen_exprOver_assign {name : Token} {value : Expr} {front rest : List Token}
    (ho : ReadsOperands (n + 1) (operandOver operandBelow exprBelow))
    (he : ReadsExprs n exprBelow) (hcan : (Expr.assign name value).Canonical)
    (hw : Written (Expr.assign name value).marks front) (hends : ExprEnds rest) :
    ReadsWhen ((Expr.assign name value).nest < n + 1) (exprOver operandBelow exprBelow) front
      (.assign name value) rest := by
  obtain ⟨t, more, rfl, rfl, hmore⟩ := written_cons_iff.mp hw
  obtain ⟨u, back, rfl, hu, hback⟩ := written_cons_iff.mp hmore
  have hnoop : ∀ x ∈ (u :: back ++ rest).head?, x.kind.precedence? = none := by
    intro x hx
    cases hx
    rw [hu]
    rfl
  have hname : Written (Expr.ref t).marks [t] := List.Forall₂.cons rfl List.Forall₂.nil
  have hfirst := (ho (.ref t) [t] (u :: back ++ rest) hcan.1 rfl hname).1 (Nat.succ_pos n)
  have hchain := (readsWhen_operations (.ref t) [] ho
    (fun x hx => by cases hx) List.Forall₂.nil hnoop).1 (fun x hx => by cases hx)
  have hequal : (accept (.symbol .equal)).Reads [u] (some u) (back ++ rest) :=
    reads_accept.mpr (Or.inl ⟨u, rfl, rfl, hu⟩)
  have hvalue := he value back rest hcan.2 hback hends
  have hassign : (assignment (.ref t) u value).Reads [] (.assign t value) rest :=
    reads_assignment.mpr ⟨t, rfl, rfl, rfl⟩
  apply ReadsWhen.congr
  · apply hfirst.andThen_when
    apply hchain.andThen_when
    apply hequal.andThen_when
    exact hvalue.andThen_nil hassign
  · exact Nat.succ_lt_succ_iff

lemma readsExprs_exprOver (ho : ReadsOperands n operandBelow) (he : ReadsExprs n exprBelow) :
    ReadsExprs (n + 1) (exprOver operandBelow exprBelow) := by
  have hoperand := readsOperands_operandOver ho he
  intro e front rest hcan hw hends
  rcases hcan.rank_pos_or_assign with hrank | ⟨name, value, rfl⟩
  · exact readsWhen_exprOver_chain hoperand hcan hrank hw hends
  · exact readsWhen_exprOver_assign hoperand he hcan hw hends

end expressions

lemma readsOperands_readsExprs (n : Nat) :
    ReadsOperands n (operand n) ∧ ReadsExprs n (expr n) := by
  induction n with
  | zero =>
    rw [operand_zero, expr_zero]
    exact ⟨fun _ _ _ _ _ _ => readsWhen_tooDeep.congr (iff_false_intro (Nat.not_lt_zero _)),
      fun _ _ _ _ _ _ => readsWhen_tooDeep.congr (iff_false_intro (Nat.not_lt_zero _))⟩
  | succ n ih =>
    rw [operand_succ, expr_succ]
    exact ⟨readsOperands_operandOver ih.1 ih.2, readsExprs_exprOver ih.1 ih.2⟩

/-- With `n` levels left the parser reads every canonical statement that nests less than `n` deep;
where an `if` at its end could take an `else`, none may follow. -/
def ReadsStmts (n : Nat) (p : Parser Stmt) : Prop :=
  ∀ s front rest, s.Canonical → ¬ s.isDeclaration → Written s.marks front →
    (s.endsOpen → ¬ Fronts (.keyword .kwElse) rest) → ReadsWhen (s.nest < n) p front s rest

/-- The same for the rest of a block. -/
def ReadsRests (n : Nat) (p : Parser (List Stmt)) : Prop :=
  ∀ body front close rest, Stmt.CanonicalAll body → Written (Stmt.marksAll body) front →
    close.kind = .symbol .rightBrace →
    ReadsWhen (Stmt.nestAll body < n) p (front ++ [close]) body rest

section statements
variable {n : Nat} {expr : Parser Expr} {branch : Parser Stmt} {body : Parser (List Stmt)}
  {front rest : List Token}

lemma reads_expect_semicolon {α : Type} {fault : SyntaxFault} {stop : Token} {a : α}
    (hk : stop.kind = .symbol .semicolon) :
    ((expect (.symbol .semicolon) fault).andThen (fun _ => succeed a)).Reads [stop] a rest :=
  Reads.andThen_nil (reads_expect.mpr ⟨rfl, hk⟩) (reads_succeed.mpr ⟨rfl, rfl⟩)

/-- The tokens of a condition in parentheses. -/
def conditionMarks (c : Expr) : List Mark :=
  .kind (.symbol .leftParen) :: (c.marks ++ [.kind (.symbol .rightParen)])

lemma written_condition_iff {c : Expr} {m : List Mark} :
    Written (.kind (.symbol .leftParen) :: (c.marks ++ .kind (.symbol .rightParen) :: m)) front ↔
      ∃ left back, front = left ++ back ∧ Written (conditionMarks c) left ∧ Written m back := by
  rw [← written_append_iff]
  simp [conditionMarks]

lemma readsWhen_condition {f f' : SyntaxFault} {c : Expr} (he : ReadsExprs (n + 1) expr)
    (hcan : c.Canonical) (hw : Written (conditionMarks c) front) :
    ReadsWhen (c.nest < n + 1) (condition expr f f') front c rest := by
  obtain ⟨left, _, rfl, hleft, hw⟩ := written_cons_iff.mp hw
  obtain ⟨inner, _, rfl, hinner, hw⟩ := written_append_iff.mp hw
  obtain ⟨right, back, rfl, hright, hnil⟩ := written_cons_iff.mp hw
  obtain rfl := written_nil_iff.mp hnil
  have hopen : (expect (.symbol .leftParen) f).Reads [left] left (inner ++ [right] ++ rest) :=
    reads_expect.mpr ⟨rfl, hleft⟩
  have hcond := he c inner ([right] ++ rest) hcan hinner (exprEnds_cons hright rfl (by decide))
  have hclose : (expect (.symbol .rightParen) f').Reads [right] right rest :=
    reads_expect.mpr ⟨rfl, hright⟩
  apply hopen.andThen_when
  apply hcond.andThen_reads
  exact hclose.andThen_nil (reads_succeed.mpr ⟨rfl, rfl⟩)

lemma readsWhen_ifThen {condition : Expr} {yes : Stmt} (he : ReadsExprs (n + 1) expr)
    (hb : ReadsStmts n branch) (hcan : (Stmt.ifThen condition yes).Canonical)
    (hw : Written (.kind (.symbol .leftParen) ::
      (condition.marks ++ .kind (.symbol .rightParen) :: yes.marks)) front)
    (hrest : ¬ Fronts (.keyword .kwElse) rest) :
    ReadsWhen ((Stmt.ifThen condition yes).nest < n + 1) (ifRest expr branch) front
      (.ifThen condition yes) rest := by
  obtain ⟨hccan, hycan, hyplain⟩ := hcan
  obtain ⟨left, back, rfl, hleft, hback⟩ := written_condition_iff.mp hw
  have hnone : (accept (.keyword .kwElse)).Reads [] none rest :=
    reads_accept.mpr (Or.inr ⟨rfl, rfl, hrest⟩)
  rw [ifRest_eq]
  apply ReadsWhen.congr
  · apply (readsWhen_condition he hccan hleft).andThen
    apply (hb yes back rest hycan hyplain hback (fun _ => hrest)).andThen_nil
    exact hnone.andThen_nil (reads_succeed.mpr ⟨rfl, rfl⟩)
  · rw [Stmt.nest, Nat.max_lt, Nat.succ_lt_succ_iff]

lemma readsWhen_ifElse {condition : Expr} {yes no : Stmt} (he : ReadsExprs (n + 1) expr)
    (hb : ReadsStmts n branch) (hcan : (Stmt.ifElse condition yes no).Canonical)
    (hw : Written (.kind (.symbol .leftParen) ::
      (condition.marks ++ .kind (.symbol .rightParen) ::
        (yes.marks ++ .kind (.keyword .kwElse) :: no.marks))) front)
    (hrest : no.endsOpen → ¬ Fronts (.keyword .kwElse) rest) :
    ReadsWhen ((Stmt.ifElse condition yes no).nest < n + 1) (ifRest expr branch) front
      (.ifElse condition yes no) rest := by
  obtain ⟨hccan, hycan, hyplain, hyclosed, hncan, hnplain⟩ := hcan
  obtain ⟨left, back, rfl, hleft, hback⟩ := written_condition_iff.mp hw
  obtain ⟨first, _, rfl, hfirst, hw⟩ := written_append_iff.mp hback
  obtain ⟨t, second, rfl, ht, hsecond⟩ := written_cons_iff.mp hw
  have hsome : (accept (.keyword .kwElse)).Reads [t] (some t) (second ++ rest) :=
    reads_accept.mpr (Or.inl ⟨t, rfl, rfl, ht⟩)
  rw [ifRest_eq]
  apply ReadsWhen.congr
  · apply (readsWhen_condition he hccan hleft).andThen
    apply (hb yes first (t :: second ++ rest) hycan hyplain hfirst
      (fun h => absurd h hyclosed)).andThen
    apply hsome.andThen_when
    exact (hb no second rest hncan hnplain hsecond hrest).map
  · rw [Stmt.nest, Nat.max_lt, Nat.max_lt, Nat.succ_lt_succ_iff, Nat.succ_lt_succ_iff]

lemma readsWhen_whileDo {condition : Expr} {s : Stmt} (he : ReadsExprs (n + 1) expr)
    (hb : ReadsStmts n branch) (hcan : (Stmt.whileDo condition s).Canonical)
    (hw : Written (.kind (.symbol .leftParen) ::
      (condition.marks ++ .kind (.symbol .rightParen) :: s.marks)) front)
    (hrest : s.endsOpen → ¬ Fronts (.keyword .kwElse) rest) :
    ReadsWhen ((Stmt.whileDo condition s).nest < n + 1) (whileRest expr branch) front
      (.whileDo condition s) rest := by
  obtain ⟨hccan, hbcan, hbplain⟩ := hcan
  obtain ⟨left, back, rfl, hleft, hback⟩ := written_condition_iff.mp hw
  rw [whileRest_eq]
  apply ReadsWhen.congr
  · apply (readsWhen_condition he hccan hleft).andThen
    exact (hb s back rest hbcan hbplain hback hrest).map
  · rw [Stmt.nest, Nat.max_lt, Nat.succ_lt_succ_iff]

lemma readsWhen_upTo_semicolon {fault : SyntaxFault} {e : Expr} {make : Expr → Stmt}
    (he : ReadsExprs (n + 1) expr) (hcan : e.Canonical)
    (hw : Written (e.marks ++ [.kind (.symbol .semicolon)]) front) :
    ReadsWhen (e.nest < n + 1)
      (expr.andThen (fun e => (expect (.symbol .semicolon) fault).andThen
        (fun _ => succeed (make e)))) front (make e) rest := by
  obtain ⟨inner, _, rfl, hinner, hw⟩ := written_append_iff.mp hw
  obtain ⟨stop, _, rfl, hstop, hnil⟩ := written_cons_iff.mp hw
  obtain rfl := written_nil_iff.mp hnil
  apply (he e inner ([stop] ++ rest) hcan hinner (exprEnds_cons hstop rfl (by decide))).andThen_reads
  exact reads_expect_semicolon hstop

lemma statementOver_of_begins {t : Token} (h : Expr.Begins t.kind) :
    (match t.kind with
      | .keyword .kwIf => some (ifRest expr branch)
      | .keyword .kwWhile => some (whileRest expr branch)
      | .keyword .kwPrint => some (printRest t expr)
      | .symbol .leftBrace => some (.block <$> body)
      | _ => none) = none := by
  rcases h with h | h | h | h | h | h | h | h | h <;> rw [h]

lemma readsStmts_statementOver (he : ReadsExprs (n + 1) expr) (hb : ReadsStmts n branch)
    (hr : ReadsRests n body) : ReadsStmts (n + 1) (statementOver expr branch body) := by
  intro s front rest hcan hplain hw hrest
  unfold statementOver
  cases s with
  | expr e =>
    apply ReadsWhen.onFront_none
    · intro t ht
      obtain ⟨inner, _, rfl, hinner, -⟩ := written_append_iff.mp hw
      obtain ⟨u, more, rfl, hu⟩ := Expr.written_begins hcan hinner
      cases ht
      exact statementOver_of_begins hu
    · exact readsWhen_upTo_semicolon he hcan hw
  | print keyword e =>
    obtain ⟨t, more, rfl, rfl, hmore⟩ := written_cons_iff.mp hw
    apply ReadsWhen.onFront_some
    · rw [hcan.1]
    · exact readsWhen_upTo_semicolon he hcan.2 hmore
  | declare name init => exact absurd rfl hplain
  | block ss =>
    obtain ⟨t, more, rfl, ht, hmore⟩ := written_cons_iff.mp hw
    obtain ⟨inner, _, rfl, hinner, hw⟩ := written_append_iff.mp hmore
    obtain ⟨close, _, rfl, hclose, hnil⟩ := written_cons_iff.mp hw
    obtain rfl := written_nil_iff.mp hnil
    apply ReadsWhen.congr
    · apply ReadsWhen.onFront_some
      · rw [ht]
      · exact (hr ss inner close rest hcan hinner hclose).map
    · rw [Stmt.nest, Nat.succ_lt_succ_iff]
  | ifThen condition yes =>
    obtain ⟨t, more, rfl, ht, hmore⟩ := written_cons_iff.mp hw
    apply ReadsWhen.onFront_some
    · rw [ht]
    · exact readsWhen_ifThen he hb hcan hmore (hrest rfl)
  | ifElse condition yes no =>
    obtain ⟨t, more, rfl, ht, hmore⟩ := written_cons_iff.mp hw
    apply ReadsWhen.onFront_some
    · rw [ht]
    · exact readsWhen_ifElse he hb hcan hmore hrest
  | whileDo condition s =>
    obtain ⟨t, more, rfl, ht, hmore⟩ := written_cons_iff.mp hw
    apply ReadsWhen.onFront_some
    · rw [ht]
    · exact readsWhen_whileDo he hb hcan hmore hrest

/-- With `n` levels left the parser reads every canonical statement or declaration that nests
less than `n` deep. -/
def ReadsItems (n : Nat) (p : Parser Stmt) : Prop :=
  ∀ s front rest, s.Canonical → Written s.marks front →
    (s.endsOpen → ¬ Fronts (.keyword .kwElse) rest) → ReadsWhen (s.nest < n) p front s rest

/-- What stands between the name and the semicolon of a declaration. -/
def initializerMarks : Option Expr → List Mark
  | none => []
  | some e => .kind (.symbol .equal) :: e.marks

lemma readsWhen_initializer {init : Option Expr} (he : ReadsExprs (n + 1) expr)
    (hcan : ∀ e ∈ init, e.Canonical) (hw : Written (initializerMarks init) front)
    (hrest : ∀ t ∈ rest.head?,
      t.kind ≠ .symbol .equal ∧ (init.isSome → t.kind.precedence? = none)) :
    ReadsWhen (∀ e ∈ init, e.nest < n + 1) (initializer expr) front init rest := by
  cases init with
  | none =>
    obtain rfl := written_nil_iff.mp hw
    have hnone : (accept (.symbol .equal)).Reads [] none rest :=
      reads_accept.mpr (Or.inr ⟨rfl, rfl, fun ⟨t, ht, hk⟩ => (hrest t ht).1 hk⟩)
    have hread : (initializer expr).Reads [] none rest :=
      hnone.andThen_nil (reads_succeed.mpr ⟨rfl, rfl⟩)
    exact hread.when.congr (iff_true_intro (fun e h => by cases h))
  | some e =>
    obtain ⟨equals, inner, rfl, hequals, hinner⟩ := written_cons_iff.mp hw
    have hsome : (accept (.symbol .equal)).Reads [equals] (some equals)
        (inner ++ rest) := reads_accept.mpr (Or.inl ⟨equals, rfl, rfl, hequals⟩)
    have hexpr := he e inner rest (hcan e rfl) hinner
      (fun t ht => ⟨(hrest t ht).2 rfl, (hrest t ht).1⟩)
    apply ReadsWhen.congr
    · apply hsome.andThen_when
      exact hexpr.map
    · simp

lemma readsWhen_declarationRest {name : Token} {init : Option Expr}
    (he : ReadsExprs (n + 1) expr) (hcan : (Stmt.declare name init).Canonical)
    (hw : Written (.exactly name :: (initializerMarks init ++ [.kind (.symbol .semicolon)])) front) :
    ReadsWhen ((Stmt.declare name init).nest < n + 1) (declarationRest expr) front
      (.declare name init) rest := by
  have hkind : name.kind = .identifier ∧ ∀ e ∈ init, e.Canonical := by
    cases init with
    | none => exact ⟨hcan, fun e h => by cases h⟩
    | some e => exact ⟨hcan.1, fun e' h => by cases h; exact hcan.2⟩
  have hfits : (Stmt.declare name init).nest < n + 1 ↔ ∀ e ∈ init, e.nest < n + 1 := by
    cases init <;> simp [Stmt.nest]
  obtain ⟨t, more, rfl, rfl, hmore⟩ := written_cons_iff.mp hw
  obtain ⟨inner, ending, rfl, hinner, hending⟩ := written_append_iff.mp hmore
  obtain ⟨stop, back, rfl, hstop, hnil⟩ := written_cons_iff.mp hending
  obtain rfl := written_nil_iff.mp hnil
  have hname : (expect .identifier .expectedVariableName).Reads [t] t (inner ++ [stop] ++ rest) :=
    reads_expect.mpr ⟨rfl, hkind.1⟩
  have hinit : ReadsWhen (∀ e ∈ init, e.nest < n + 1) (initializer expr) inner init
      ([stop] ++ rest) := by
    refine readsWhen_initializer he hkind.2 hinner (fun t ht => ?_)
    cases ht
    rw [show stop.kind = _ from hstop]
    exact ⟨by decide, fun _ => rfl⟩
  apply ReadsWhen.congr
  · apply hname.andThen_when
    apply hinit.andThen_reads
    exact reads_expect_semicolon hstop
  · exact hfits

lemma not_fronts_else {ss : List Stmt} (hcan : Stmt.CanonicalAll ss)
    (hw : Written (Stmt.marksAll ss) front) (hrest : ¬ Fronts (.keyword .kwElse) rest) :
    ¬ Fronts (.keyword .kwElse) (front ++ rest) := by
  cases ss with
  | nil =>
    obtain rfl := written_nil_iff.mp hw
    exact hrest
  | cons s ss =>
    obtain ⟨first, _, rfl, hfirst, -⟩ := written_append_iff.mp hw
    obtain ⟨u, _, rfl, helse, -⟩ := Stmt.written_front hcan.1 hfirst
    rintro ⟨v, hv, hk⟩
    cases hv
    exact helse hk

lemma readsWhen_items {p : Parser Stmt} {closes : Token → Bool} {ss : List Stmt}
    (hp : ReadsItems (n + 1) p) (hcan : Stmt.CanonicalAll ss)
    (hw : Written (Stmt.marksAll ss) front)
    (hcloses : ∀ t, t.kind ≠ .symbol .rightBrace → ¬ closes t) (hends : Ends closes rest)
    (hrest : ¬ Fronts (.keyword .kwElse) rest) :
    ReadsWhen (Stmt.nestAll ss < n + 1) (always (items closes (recovering p))) front ss rest := by
  induction ss generalizing front with
  | nil =>
    obtain rfl := written_nil_iff.mp hw
    refine Reads.when ?_ |>.congr (iff_true_intro (Nat.succ_pos n))
    exact reads_always.mpr (items_of_ends hends)
  | cons s ss ih =>
    obtain ⟨first, others, rfl, hfirst, hothers⟩ := written_append_iff.mp hw
    obtain ⟨t, more, rfl, -, hbrace⟩ := Stmt.written_front hcan.1 hfirst
    have hgoes : ¬ Ends closes (t :: more ++ (others ++ rest)) :=
      fun h => hcloses t hbrace (h t rfl)
    have hnoelse := not_fronts_else hcan.2 hothers hrest
    have hs := hp s (t :: more) (others ++ rest) hcan.1 hfirst (fun _ => hnoelse)
    have hss := ih hcan.2 hothers
    rw [Stmt.nestAll, Nat.max_lt]
    constructor
    · intro hfits
      have hrec := reads_always.mp (hss.1 hfits.2)
      refine reads_always.mpr ?_
      rw [List.append_assoc, items_of_reads hgoes (List.cons_ne_nil _ _) (hs.1 hfits.1), hrec,
        List.length_append]
    · intro hfits
      rw [List.append_assoc]
      -- the fault lies in the others only when the first item is read cleanly
      by_cases hfit : s.nest < n + 1
      · have hrec := hss.2 (fun h => hfits ⟨hfit, h⟩)
        rw [firstFault?_always] at hrec ⊢
        rwa [items_of_reads hgoes (List.cons_ne_nil _ _) (hs.1 hfit)]
      · exact firstFault?_items hgoes (hs.2 hfit)

end statements

lemma readsItems_itemParser {n : Nat} (hs : ReadsStmts (n + 1) (statement (n + 1))) :
    ReadsItems (n + 1) (itemParser (n + 1)) := by
  have he := (readsOperands_readsExprs (n + 1)).2
  intro s front rest hcan hw hrest
  by_cases hplain : s.isDeclaration
  · cases s with
    | declare name init =>
      have hvar : ∃ t more, front = t :: more ∧ t.kind = .keyword .kwVar ∧
          Written (.exactly name :: (initializerMarks init ++ [.kind (.symbol .semicolon)]))
            more := by
        cases init <;> exact written_cons_iff.mp hw
      obtain ⟨t, more, rfl, ht, hmore⟩ := hvar
      apply ReadsWhen.onFront_some
      · exact if_pos ht
      · exact readsWhen_declarationRest he hcan hmore
    | _ => cases hplain
  · apply ReadsWhen.onFront_none
    · intro t ht
      obtain ⟨u, more, rfl, hu⟩ := Stmt.written_begins hcan hplain hw
      cases ht
      exact if_neg (fun hk => Stmt.not_begins_var (by rw [← hk]; exact hu))
    · exact hs s front rest hcan hplain hw hrest

lemma readsStmts_readsRests (n : Nat) :
    ReadsStmts n (statement n) ∧ ReadsRests n (blockRest n) := by
  induction n with
  | zero =>
    rw [statement_zero, blockRest_zero]
    exact ⟨fun _ _ _ _ _ _ _ => readsWhen_tooDeep.congr (iff_false_intro (Nat.not_lt_zero _)),
      fun _ _ _ _ _ _ _ => readsWhen_tooDeep.congr (iff_false_intro (Nat.not_lt_zero _))⟩
  | succ n ih =>
    have hs : ReadsStmts (n + 1) (statement (n + 1)) := by
      rw [statement_succ]
      exact readsStmts_statementOver (readsOperands_readsExprs (n + 1)).2 ih.1 ih.2
    refine ⟨hs, fun ss front close rest hcan hw hclose => ?_⟩
    rw [blockRest_succ_eq, blockOver, item_eq]
    have hends : Ends (·.kind == .symbol .rightBrace) ([close] ++ rest) := by
      intro t ht
      cases ht
      exact beq_iff_eq.mpr hclose
    have hnoelse : ¬ Fronts (.keyword .kwElse) ([close] ++ rest) := by
      rintro ⟨t, ht, hk⟩
      cases ht
      rw [hclose] at hk
      cases hk
    have hitems := readsWhen_items (readsItems_itemParser hs) hcan hw
      (fun t ht => mt beq_iff_eq.mp ht) hends hnoelse
    apply hitems.andThen_reads
    exact Reads.andThen_nil (reads_expect.mpr ⟨rfl, hclose⟩) (reads_succeed.mpr ⟨rfl, rfl⟩)

end Grammar
section program
variable {tokens : List Token} {stmts : List Stmt}

lemma readsWhen_program (hcan : Stmt.CanonicalAll stmts)
    (hw : Written (Stmt.marksAll stmts) (beforeEnd tokens)) :
    Parser.ReadsWhen (Stmt.nestAll stmts < maxNesting + 1)
      (Parser.always (Grammar.items (fun _ => false) (Grammar.item (maxNesting + 1))))
      (beforeEnd tokens) stmts [] := by
  have hs := (Grammar.readsStmts_readsRests (maxNesting + 1)).1
  exact Grammar.readsWhen_items (Grammar.readsItems_itemParser hs) hcan hw
    (fun _ _ => Bool.false_ne_true) (fun _ ht => by cases ht) (fun ⟨_, ht, _⟩ => by cases ht)

lemma parse_of_written (hcan : Stmt.CanonicalAll stmts)
    (hw : Written (Stmt.marksAll stmts) (beforeEnd tokens))
    (hnest : Stmt.nestAll stmts ≤ maxNesting) : parse tokens = ⟨stmts, []⟩ := by
  have hread := (readsWhen_program hcan hw).1 (Nat.lt_succ_of_le hnest)
  rw [Parser.reads_always, List.append_nil] at hread
  unfold parse
  rw [hread]
  rfl

lemma parse_tooMuchNesting (hcan : Stmt.CanonicalAll stmts)
    (hw : Written (Stmt.marksAll stmts) (beforeEnd tokens))
    (hnest : maxNesting < Stmt.nestAll stmts) :
    (parse tokens).errors.head?.map SyntaxError.fault = some .tooMuchNesting := by
  have hfault := (readsWhen_program hcan hw).2 (by omega)
  rw [List.append_nil, Grammar.firstFault?_always] at hfault
  unfold parse
  rw [List.head?_map, Option.map_map]
  exact hfault

/-- Tokens that write canonical statements are read as these statements when none of them nests
more than 128 deep; when one does, too much nesting is the first error. -/
theorem parse_complete (hcan : Stmt.CanonicalAll stmts)
    (hw : Written (Stmt.marksAll stmts) (beforeEnd tokens)) :
    ((∀ s ∈ stmts, s.nest ≤ 128) → parse tokens = ⟨stmts, []⟩) ∧
      ((∃ s ∈ stmts, 128 < s.nest) →
        (parse tokens).errors.head?.map (·.fault.message) = some "too much nesting.") := by
  constructor
  · intro hnest
    exact parse_of_written hcan hw (Stmt.nestAll_le_iff.mpr hnest)
  · rintro ⟨s, hs, hnest⟩
    have hdeep : maxNesting < Stmt.nestAll stmts := by
      by_contra hle
      have hall := Stmt.nestAll_le_iff.mp (Nat.le_of_not_lt hle)
      exact absurd (hall s hs) (Nat.not_le_of_lt hnest)
    have hfault := parse_tooMuchNesting hcan hw hdeep
    rw [Option.map_eq_some_iff] at hfault
    obtain ⟨error, herror, hf⟩ := hfault
    rw [herror, Option.map_some, hf]
    rfl

end program

section negations

/-- `nil` with `n` signs before it. -/
def negated : Nat → Expr
  | 0 => .literal .nil
  | n + 1 => .unary ⟨.symbol .minus, "-", none, 1⟩ (negated n)

lemma canonical_negated (n : Nat) : (negated n).Canonical ∧ (negated n).rank = 5 := by
  induction n with
  | zero => exact ⟨trivial, rfl⟩
  | succ n ih => exact ⟨⟨Or.inr rfl, ih.2, ih.1⟩, rfl⟩

lemma nest_negated (n : Nat) : (negated n).nest = n := by
  induction n with
  | zero => rfl
  | succ n ih => rw [negated, Expr.nest, ih]

/-- The tokens of the statement that is made of it. -/
def negations : Nat → List Token
  | 0 => [⟨.keyword .kwNil, "nil", none, 1⟩, ⟨.symbol .semicolon, ";", none, 1⟩, .endOfInput 1]
  | n + 1 => ⟨.symbol .minus, "-", none, 1⟩ :: negations n

lemma written_negations (n : Nat) :
    Written (Stmt.marksAll [.expr (negated n)]) (beforeEnd (negations n)) := by
  induction n with
  | zero => exact .cons rfl (.cons rfl .nil)
  | succ n ih => exact .cons rfl ih

theorem parse_complete_negations :
    parse (negations 128) = ⟨[.expr (negated 128)], []⟩ ∧
      (parse (negations 129)).errors.head?.map (·.fault.message) = some "too much nesting." := by
  have hcan (n : Nat) : Stmt.CanonicalAll [.expr (negated n)] := ⟨(canonical_negated n).1, trivial⟩
  constructor
  · apply (parse_complete (hcan 128) (written_negations 128)).1
    intro s hs
    rw [List.mem_singleton] at hs
    rw [hs]
    exact Nat.le_of_eq (nest_negated 128)
  · apply (parse_complete (hcan 129) (written_negations 129)).2
    have hnest : 128 < (Stmt.expr (negated 129)).nest := Nat.lt_of_lt_of_eq (by decide) (nest_negated 129).symm
    exact ⟨_, List.mem_singleton_self _, hnest⟩

end negations

end Scriptlet
