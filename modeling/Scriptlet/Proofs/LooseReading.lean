import Scriptlet.Proofs.LooseTrees
import Scriptlet.Proofs.TargetFaults

/-!
# What a reading says of the tokens

An expression is read from the tokens of a loose tree: the value is what the tree settles to, and
the misplaced `=` of the tree are what is reported. The same holds of statements that report no
fault but invalid targets, since every other fault would have stopped one of them. The proof is one
induction on the number of levels that may be nested, with a lemma for each production.
-/

namespace Scriptlet

/-- The complaint about an `=` that does not stand behind a bare name. -/
def Complaint.onTarget (equals : Token) : Complaint := ⟨.invalidTarget, some equals⟩

/-- No fault is complained of but invalid targets. -/
def OnlyTargets (cs : List Complaint) : Prop := ∀ c ∈ cs, c.fault = .invalidTarget

lemma onlyTargets_append {cs ds : List Complaint} :
    OnlyTargets (cs ++ ds) ↔ OnlyTargets cs ∧ OnlyTargets ds := List.forall_mem_append

namespace Grammar
open Scriptlet.Parser

/-- What a reading of an expression comes to when fewer than `n` levels are nested: `e` is written,
it settles to `a`, and `cs` are the complaints about what is misplaced in it. -/
structure SettlesExpr (n : Nat) (e : Expr) (ts : List Token) (a : Expr) (cs : List Complaint) :
    Prop where
  loose : e.Loose
  nest_lt : e.nest < n
  written : Written e.marks ts
  value : e.settle = a
  reported : e.misplaced.map Complaint.onTarget = cs

/-- The same for a statement that is no declaration, with the tokens that follow it: an `if` at
its end has no `else` because none follows. -/
structure SettlesStmt (n : Nat) (s : Stmt) (ts rest : List Token) (a : Stmt)
    (cs : List Complaint) : Prop where
  loose : s.Loose
  nest_lt : s.nest < n
  written : Written s.marks ts
  value : s.settle = a
  reported : s.misplaced.map Complaint.onTarget = cs
  plain : ¬ s.isDeclaration
  closed : s.endsOpen → ¬ Fronts (.keyword .kwElse) rest

/-- The same for statements and declarations in a row. -/
structure SettlesStmts (n : Nat) (body : List Stmt) (ts : List Token) (as : List Stmt)
    (cs : List Complaint) : Prop where
  loose : Stmt.LooseAll body
  nest_lt : Stmt.nestAll body < n
  written : Written (Stmt.marksAll body) ts
  value : Stmt.settleAll body = as
  reported : (Stmt.misplacedAll body).map Complaint.onTarget = cs

/-- Whatever the parser reads is an operand. -/
def SettlesOperands (n : Nat) (p : Parser Expr) : Prop :=
  ∀ front a cs rest, p.ReadsWith front a cs rest → ∃ e, SettlesExpr n e front a cs ∧ e.rank = 5

/-- Whatever the parser reads is an expression. -/
def SettlesExprs (n : Nat) (p : Parser Expr) : Prop :=
  ∀ front a cs rest, p.ReadsWith front a cs rest → ∃ e, SettlesExpr n e front a cs

/-- Whatever the parser reads without another fault than targets is a statement. -/
def SettlesBranches (n : Nat) (p : Parser Stmt) : Prop :=
  ∀ front a cs rest, p.ReadsWith front a cs rest → OnlyTargets cs →
    ∃ s, SettlesStmt n s front rest a cs

/-- Whatever the parser reads without another fault than targets is the rest of a block. -/
def SettlesRests (n : Nat) (p : Parser (List Stmt)) : Prop :=
  ∀ front as cs rest, p.ReadsWith front as cs rest → OnlyTargets cs →
    ∃ body inner close, front = inner ++ [close] ∧ close.kind = .symbol .rightBrace ∧
      SettlesStmts n body inner as cs

section expressions
variable {n : Nat} {operandBelow exprBelow : Parser Expr}

lemma settlesOperands_operandOver (ho : SettlesOperands n operandBelow)
    (he : SettlesExprs n exprBelow) :
    SettlesOperands (n + 1) (operandOver operandBelow exprBelow) := by
  intro front a cs rest h
  unfold operandOver at h
  rw [readsWith_onFront] at h
  rcases h with ⟨t, p, more, rfl, hc, hp⟩ | ⟨-, hf⟩
  · rcases operandFrom_cases hc with hk | hk | ⟨v, hv⟩ | hk
    · rw [operandFrom_unary hk] at hc
      cases hc
      simp only [readsWith_andThen, readsWith_succeed] at hp
      obtain ⟨a, left, _, cs, _, rfl, rfl, hr, rfl, rfl, rfl⟩ := hp
      obtain ⟨e, ⟨hloose, hnest, hw, rfl, rfl⟩, hrank⟩ := ho _ _ _ _ hr
      rw [List.append_nil, List.append_nil]
      exact ⟨.unary t e, ⟨⟨hk, hrank, hloose⟩, Nat.succ_lt_succ hnest,
        List.Forall₂.cons rfl hw, rfl, rfl⟩, rfl⟩
    · rw [operandFrom_grouping hk] at hc
      cases hc
      simp only [readsWith_andThen, readsWith_expect, readsWith_succeed] at hp
      obtain ⟨a, left, _, cs, _, rfl, rfl, hr, close, _, _, _, _, rfl, rfl, ⟨rfl, hk', rfl⟩, rfl,
        rfl, rfl⟩ := hp
      obtain ⟨e, hloose, hnest, hw, rfl, rfl⟩ := he _ _ _ _ hr
      have hwc : Written [.kind (.symbol .rightParen)] [close] :=
        List.Forall₂.cons hk' List.Forall₂.nil
      refine ⟨.grouping e, ⟨hloose, Nat.succ_lt_succ hnest,
        List.Forall₂.cons hk (hw.append hwc), rfl, ?_⟩, rfl⟩
      rw [List.append_nil, List.append_nil]
      rfl
    · rw [operandFrom_literal hv] at hc
      cases hc
      obtain ⟨rfl, rfl, rfl⟩ := readsWith_succeed.mp hp
      exact ⟨.literal v, ⟨trivial, Nat.succ_pos n, List.Forall₂.cons hv List.Forall₂.nil, rfl, rfl⟩,
        rfl⟩
    · rw [operandFrom_ref hk] at hc
      cases hc
      obtain ⟨rfl, rfl, rfl⟩ := readsWith_succeed.mp hp
      exact ⟨.ref t, ⟨hk, Nat.succ_pos n, List.Forall₂.cons rfl List.Forall₂.nil, rfl, rfl⟩, rfl⟩
  · exact absurd hf not_readsWith_fail

lemma SettlesExpr.attach {left right a b : Expr} {op : Token} {ts us : List Token} {p : Nat}
    {cs ds : List Complaint} (hop : op.kind.precedence? = some p)
    (hleft : SettlesExpr n left ts a cs) (hrank : 0 < left.rank)
    (hright : SettlesExpr n right us b ds) (hrank' : right.rank = 5) :
    SettlesExpr n (left.attach op right) (ts ++ op :: us) (a.attach op b) (cs ++ ds) ∧
      0 < (left.attach op right).rank := by
  obtain ⟨hloose, hnest, hw, rfl, rfl⟩ := hleft
  obtain ⟨hloose', hnest', hw', rfl, rfl⟩ := hright
  obtain ⟨haloose, harank⟩ := Expr.loose_attach hop hloose hloose' hrank hrank'
  have hbounds := Expr.precedence?_bounds hop
  refine ⟨⟨haloose, ?_, ?_, Expr.settle_attach hop hloose hrank, ?_⟩, by omega⟩
  · rw [Expr.nest_attach]
    exact Nat.max_lt.mpr ⟨hnest, hnest'⟩
  · rw [Expr.marks_attach]
    exact hw.append (List.Forall₂.cons rfl hw')
  · rw [Expr.misplaced_attach hop hloose hrank, List.map_append]

/-- The loop over operators keeps what has been read loose; the loosest operator is the
outermost. -/
lemma settlesExpr_operations {operand : Parser Expr} {left e a : Expr} {ts front rest : List Token}
    {cs ds : List Complaint} (ho : SettlesOperands n operand) (hleft : SettlesExpr n e ts left cs)
    (hrank : 0 < e.rank) (h : ReadsWith (operations operand left) front a ds rest) :
    ∃ e, SettlesExpr n e (ts ++ front) a (cs ++ ds) ∧ 0 < e.rank := by
  induction hlen : front.length using Nat.strongRecOn generalizing front left e ts cs ds with
  | _ k ih =>
    rw [operations_eq, readsWith_onFront] at h
    rcases h with ⟨op, p, more, rfl, hc, hp⟩ | ⟨-, hs⟩
    · split at hc
      · rename_i hop
        cases hc
        obtain ⟨q, hq⟩ := Option.isSome_iff_exists.mp hop
        obtain ⟨right, front, back, cs', ds', rfl, rfl, hr, hmore⟩ := readsWith_andThen.mp hp
        obtain ⟨e', hright, hrank'⟩ := ho _ _ _ _ hr
        obtain ⟨hread, hrank⟩ := hleft.attach hq hrank hright hrank'
        have hlt : back.length < k := by
          rw [← hlen, List.length_cons, List.length_append]
          omega
        have hfinal := ih _ hlt hread hrank hmore rfl
        rwa [List.append_assoc, List.append_assoc, List.cons_append] at hfinal
      · cases hc
    · obtain ⟨rfl, rfl, rfl⟩ := readsWith_succeed.mp hs
      rw [List.append_nil, List.append_nil]
      exact ⟨e, hleft, hrank⟩

lemma settlesExpr_assignment {left value target a e : Expr} {equals : Token}
    {ts us front rest : List Token} {cs ds es : List Complaint} (hk : equals.kind = .symbol .equal)
    (hleft : SettlesExpr (n + 1) left ts target cs) (hrank : 0 < left.rank)
    (hvalue : SettlesExpr n value us a ds)
    (h : (assignment target equals a).ReadsWith front e es rest) :
    front = [] ∧ ∃ e', SettlesExpr (n + 1) e' (ts ++ equals :: us) e (cs ++ (ds ++ es)) := by
  obtain ⟨hloose, hnest, hw, rfl, rfl⟩ := hleft
  obtain ⟨hloose', hnest', hw', rfl, rfl⟩ := hvalue
  obtain ⟨rfl, ⟨name, htarget, rfl, rfl⟩ | ⟨hother, rfl, rfl⟩⟩ := readsWith_assignment.mp h
  · obtain rfl := (Expr.settle_eq_ref_iff hrank).mp htarget
    refine ⟨rfl, .assign name value, ⟨hloose, hloose'⟩, Nat.succ_lt_succ hnest', ?_, rfl, ?_⟩
    · exact hw.append (List.Forall₂.cons hk hw')
    · rw [List.append_nil]
      rfl
  · have hleft : ∀ name, left ≠ .ref name :=
      fun name heq => hother name ((Expr.settle_eq_ref_iff hrank).mpr heq)
    refine ⟨rfl, .binary left equals value, ⟨Or.inl ⟨hk, hrank, hleft⟩, hloose, hloose'⟩, ?_,
      hw.append (List.Forall₂.cons rfl hw'), by rw [Expr.settle, if_pos hk], ?_⟩
    · rw [Expr.nest]
      omega
    · rw [Expr.misplaced, if_pos hk, List.map_append, List.map_append, List.append_assoc]
      rfl

lemma settlesExprs_exprOver (ho : SettlesOperands n operandBelow) (he : SettlesExprs n exprBelow) :
    SettlesExprs (n + 1) (exprOver operandBelow exprBelow) := by
  intro front a cs rest h
  have hoperand := settlesOperands_operandOver ho he
  simp only [exprOver, bind_eq] at h
  obtain ⟨first, front₁, _, cs₁, _, rfl, rfl, hfirst, h₁⟩ := readsWith_andThen.mp h
  obtain ⟨left, front₂, _, cs₂, _, rfl, rfl, hleft, h₂⟩ := readsWith_andThen.mp h₁
  obtain ⟨equals, front₃, _, cs₃, _, rfl, rfl, hacc, h₃⟩ := readsWith_andThen.mp h₂
  obtain ⟨e, hread, hrank⟩ := hoperand _ _ _ _ hfirst
  obtain ⟨e, hread, hrank⟩ := settlesExpr_operations hoperand hread (by omega) hleft
  rcases readsWith_accept.mp hacc with ⟨t, rfl, rfl, hk, rfl⟩ | ⟨rfl, rfl, rfl, -⟩
  · obtain ⟨value, front₄, _, cs₄, _, rfl, rfl, hvalue, h₄⟩ := readsWith_andThen.mp h₃
    obtain ⟨v, hvalue⟩ := he _ _ _ _ hvalue
    obtain ⟨rfl, e', hassign⟩ := settlesExpr_assignment hk hread hrank hvalue h₄
    simp only [List.append_assoc] at hassign
    simp only [List.append_nil, List.nil_append, List.singleton_append]
    exact ⟨e', hassign⟩
  · obtain ⟨rfl, rfl, rfl⟩ := readsWith_succeed.mp h₃
    simp only [List.append_nil]
    exact ⟨e, hread⟩

end expressions

lemma settlesOperands_settlesExprs (n : Nat) :
    SettlesOperands n (operand n) ∧ SettlesExprs n (expr n) := by
  induction n with
  | zero =>
    rw [operand_zero, expr_zero]
    exact ⟨fun _ _ _ _ h => absurd h not_readsWith_fail,
      fun _ _ _ _ h => absurd h not_readsWith_fail⟩
  | succ n ih =>
    rw [operand_succ, expr_succ]
    exact ⟨settlesOperands_operandOver ih.1 ih.2, settlesExprs_exprOver ih.1 ih.2⟩

section statements
variable {n : Nat} {expr : Parser Expr} {branch : Parser Stmt} {body : Parser (List Stmt)}
  {front rest : List Token} {a : Stmt} {t : Token} {cs : List Complaint}

lemma settlesStmt_ifRest (he : SettlesExprs (n + 1) expr) (hb : SettlesBranches n branch)
    (hk : t.kind = .keyword .kwIf) (h : (ifRest expr branch).ReadsWith front a cs rest)
    (hcs : OnlyTargets cs) : ∃ s, SettlesStmt (n + 1) s (t :: front) rest a cs := by
  simp only [ifRest, bind_eq, readsWith_andThen, readsWith_expect] at h
  obtain ⟨left, _, _, _, _, rfl, rfl, ⟨rfl, hleft, rfl⟩, c, front₁, _, cs₁, _, rfl, rfl, hc, right,
    _, _, _, _, rfl, rfl, ⟨rfl, hright, rfl⟩, y, front₂, _, cs₂, _, rfl, rfl, hy, otherwise, _,
    back, _, _, rfl, rfl, hacc, hrest⟩ := h
  simp only [onlyTargets_append] at hcs
  obtain ⟨condition, hcond⟩ := he _ _ _ _ hc
  obtain ⟨yes, hyes⟩ := hb _ _ _ _ hy hcs.2.2.2.1
  rcases readsWith_accept.mp hacc with ⟨u, rfl, rfl, hu, rfl⟩ | ⟨rfl, rfl, rfl, hnone⟩
  · obtain ⟨no, front₃, _, cs₃, _, rfl, rfl, hn, hs⟩ := readsWith_andThen.mp hrest
    obtain ⟨rfl, rfl, rfl⟩ := readsWith_succeed.mp hs
    obtain ⟨no, hno⟩ := hb _ _ _ _ hn (onlyTargets_append.mp hcs.2.2.2.2.2).1
    -- an `if` at the end of the first branch would have taken this `else`
    have hclosed : ¬ yes.endsOpen := fun ho => hyes.closed ho ⟨u, rfl, hu⟩
    refine ⟨.ifElse condition yes no, ⟨hcond.loose, hyes.loose, hyes.plain, hclosed, hno.loose,
      hno.plain⟩, ?_, ?_, ?_, ?_, Bool.false_ne_true, hno.closed⟩
    · have := hcond.nest_lt
      have := hyes.nest_lt
      have := hno.nest_lt
      rw [Stmt.nest]
      omega
    · have hw : Written (.kind (.keyword .kwElse) :: no.marks) (u :: front₃) :=
        List.Forall₂.cons hu hno.written
      have hw : Written (.kind (.symbol .rightParen) :: _) (right :: _) :=
        List.Forall₂.cons hright (hyes.written.append hw)
      rw [List.append_nil]
      exact List.Forall₂.cons hk (List.Forall₂.cons hleft (hcond.written.append hw))
    · rw [Stmt.settle, hcond.value, hyes.value, hno.value]
    · rw [Stmt.misplaced, List.map_append, List.map_append, hcond.reported, hyes.reported,
        hno.reported, List.append_nil, List.append_assoc]
      rfl
  · obtain ⟨rfl, rfl, rfl⟩ := readsWith_succeed.mp hrest
    refine ⟨.ifThen condition yes, ⟨hcond.loose, hyes.loose, hyes.plain⟩, ?_, ?_, ?_, ?_,
      Bool.false_ne_true, fun _ => hnone⟩
    · have := hcond.nest_lt
      have := hyes.nest_lt
      rw [Stmt.nest]
      omega
    · have hw : Written (.kind (.symbol .rightParen) :: _) (right :: front₂) :=
        List.Forall₂.cons hright hyes.written
      rw [List.append_nil, List.append_nil]
      exact List.Forall₂.cons hk (List.Forall₂.cons hleft (hcond.written.append hw))
    · rw [Stmt.settle, hcond.value, hyes.value]
    · rw [Stmt.misplaced, List.map_append, hcond.reported, hyes.reported, List.append_nil,
        List.append_nil]
      rfl

lemma settlesStmt_whileRest (he : SettlesExprs (n + 1) expr) (hb : SettlesBranches n branch)
    (hk : t.kind = .keyword .kwWhile) (h : (whileRest expr branch).ReadsWith front a cs rest)
    (hcs : OnlyTargets cs) : ∃ s, SettlesStmt (n + 1) s (t :: front) rest a cs := by
  simp only [whileRest, bind_eq, pure_eq, readsWith_andThen, readsWith_expect,
    readsWith_succeed] at h
  obtain ⟨left, _, _, _, _, rfl, rfl, ⟨rfl, hleft, rfl⟩, c, front₁, _, cs₁, _, rfl, rfl, hc, right,
    _, _, _, _, rfl, rfl, ⟨rfl, hright, rfl⟩, b, front₂, _, cs₂, _, rfl, rfl, hb', rfl, rfl,
    rfl⟩ := h
  simp only [onlyTargets_append] at hcs
  obtain ⟨condition, hcond⟩ := he _ _ _ _ hc
  obtain ⟨body, hbody⟩ := hb _ _ _ _ hb' hcs.2.2.2.1
  refine ⟨.whileDo condition body, ⟨hcond.loose, hbody.loose, hbody.plain⟩, ?_, ?_, ?_, ?_,
    Bool.false_ne_true, hbody.closed⟩
  · have := hcond.nest_lt
    have := hbody.nest_lt
    rw [Stmt.nest]
    omega
  · have hw : Written (.kind (.symbol .rightParen) :: _) (right :: front₂) :=
      List.Forall₂.cons hright hbody.written
    rw [List.append_nil]
    exact List.Forall₂.cons hk (List.Forall₂.cons hleft (hcond.written.append hw))
  · rw [Stmt.settle, hcond.value, hbody.value]
  · rw [Stmt.misplaced, List.map_append, hcond.reported, hbody.reported, List.append_nil]
    rfl

lemma written_semicolon {m : List Mark} {ts : List Token} {stop : Token} (h : Written m ts)
    (hk : stop.kind = .symbol .semicolon) :
    Written (m ++ [.kind (.symbol .semicolon)]) (ts ++ [stop]) :=
  h.append (List.Forall₂.cons hk List.Forall₂.nil)

lemma settlesExpr_upTo_semicolon {fault : SyntaxFault} {make : Expr → Stmt}
    (he : SettlesExprs n expr)
    (h : (expr.andThen (fun e => (expect (.symbol .semicolon) fault).andThen
      (fun _ => succeed (make e)))).ReadsWith front a cs rest) :
    ∃ e value inner stop, front = inner ++ [stop] ∧ stop.kind = .symbol .semicolon ∧
      a = make value ∧ SettlesExpr n e inner value cs := by
  simp only [readsWith_andThen, readsWith_expect, readsWith_succeed] at h
  obtain ⟨value, inner, _, _, _, rfl, rfl, hr, stop, _, _, _, _, rfl, rfl, ⟨rfl, hstop, rfl⟩, rfl,
    rfl, rfl⟩ := h
  obtain ⟨e, hexpr⟩ := he _ _ _ _ hr
  refine ⟨e, value, inner, stop, rfl, hstop, rfl, ?_⟩
  rwa [List.append_nil, List.append_nil]

lemma settlesStmt_block (hk : t.kind = .symbol .leftBrace) (hs : SettlesRests n body)
    (h : (body.andThen (fun ss => succeed (Stmt.block ss))).ReadsWith front a cs rest)
    (hcs : OnlyTargets cs) : ∃ s, SettlesStmt (n + 1) s (t :: front) rest a cs := by
  simp only [readsWith_andThen, readsWith_succeed] at h
  obtain ⟨ss, front, _, _, _, rfl, rfl, hr, rfl, rfl, rfl⟩ := h
  obtain ⟨ss, inner, close, rfl, hclose, hbody⟩ := hs _ _ _ _ hr (onlyTargets_append.mp hcs).1
  have hw : Written (_ ++ [.kind (.symbol .rightBrace)]) (inner ++ [close]) :=
    hbody.written.append (List.Forall₂.cons hclose List.Forall₂.nil)
  rw [List.append_nil, List.append_nil]
  exact ⟨.block ss, hbody.loose, Nat.succ_lt_succ hbody.nest_lt, List.Forall₂.cons hk hw,
    by rw [Stmt.settle, hbody.value], hbody.reported, Bool.false_ne_true,
    fun h => absurd h Bool.false_ne_true⟩

lemma settlesBranches_statementOver (he : SettlesExprs (n + 1) expr) (hb : SettlesBranches n branch)
    (hs : SettlesRests n body) : SettlesBranches (n + 1) (statementOver expr branch body) := by
  intro front a cs rest h hcs
  unfold statementOver at h
  rw [readsWith_onFront] at h
  rcases h with ⟨t, p, more, rfl, hc, hp⟩ | ⟨-, hp⟩
  · split at hc <;> rename_i hk <;> cases hc
    · exact settlesStmt_ifRest he hb hk hp hcs
    · exact settlesStmt_whileRest he hb hk hp hcs
    · obtain ⟨e, value, inner, stop, rfl, hstop, rfl, hread⟩ := settlesExpr_upTo_semicolon he hp
      exact ⟨.print t e, ⟨hk, hread.loose⟩, hread.nest_lt,
        List.Forall₂.cons rfl (written_semicolon hread.written hstop),
        by rw [Stmt.settle, hread.value], hread.reported, Bool.false_ne_true,
        fun h => absurd h Bool.false_ne_true⟩
    · exact settlesStmt_block hk hs hp hcs
  · obtain ⟨e, value, inner, stop, rfl, hstop, rfl, hread⟩ := settlesExpr_upTo_semicolon he hp
    exact ⟨.expr e, hread.loose, hread.nest_lt, written_semicolon hread.written hstop,
      by rw [Stmt.settle, hread.value], hread.reported, Bool.false_ne_true,
      fun h => absurd h Bool.false_ne_true⟩

lemma SettlesStmt.single {s : Stmt} (h : SettlesStmt n s front rest a cs) :
    SettlesStmts n [s] front [a] cs := by
  refine ⟨⟨h.loose, trivial⟩, ?_, ?_, ?_, ?_⟩
  · rw [Stmt.nestAll, Stmt.nestAll, Nat.max_zero]
    exact h.nest_lt
  · rw [Stmt.marksAll, Stmt.marksAll, List.append_nil]
    exact h.written
  · rw [Stmt.settleAll, Stmt.settleAll, h.value]
  · rw [Stmt.misplacedAll, Stmt.misplacedAll, List.append_nil]
    exact h.reported

lemma settlesStmts_declaration (he : SettlesExprs n expr) (hn : 0 < n)
    (hk : t.kind = .keyword .kwVar) (h : (declarationRest expr).ReadsWith front a cs rest) :
    ∃ s, SettlesStmts n [s] (t :: front) [a] cs := by
  simp only [declarationRest, initializer, bind_eq, pure_eq, readsWith_andThen, readsWith_expect,
    readsWith_succeed] at h
  obtain ⟨name, _, _, _, _, rfl, rfl, ⟨rfl, hname, rfl⟩, init, _, _, _, _, rfl, rfl,
    ⟨equals, front₁, back₁, _, _, rfl, rfl, hacc, hinit⟩, stop, _, _, _, _, rfl, rfl,
    ⟨rfl, hstop, rfl⟩, rfl, rfl, rfl⟩ := h
  rcases readsWith_accept.mp hacc with ⟨u, rfl, rfl, hu, rfl⟩ | ⟨rfl, rfl, rfl, -⟩
  · simp only [readsWith_andThen, readsWith_succeed] at hinit
    obtain ⟨value, front₂, _, _, _, rfl, rfl, hr, rfl, rfl, rfl⟩ := hinit
    obtain ⟨e, hread⟩ := he _ _ _ _ hr
    refine ⟨.declare name (some e), ⟨⟨hname, hread.loose⟩, trivial⟩, ?_, ?_, ?_, ?_⟩
    · have := hread.nest_lt
      simp only [Stmt.nestAll, Stmt.nest]
      omega
    · have hw := written_semicolon hread.written hstop
      rw [Stmt.marksAll, Stmt.marksAll, List.append_nil, List.append_nil, List.append_nil]
      exact List.Forall₂.cons hk (List.Forall₂.cons rfl (List.Forall₂.cons hu hw))
    · rw [Stmt.settleAll, Stmt.settleAll, Stmt.settle, hread.value]
    · simp only [Stmt.misplacedAll, Stmt.misplaced, List.append_nil, List.nil_append]
      exact hread.reported
  · obtain ⟨rfl, rfl, rfl⟩ := readsWith_succeed.mp hinit
    refine ⟨.declare name none, ⟨hname, trivial⟩, ?_, ?_, rfl, rfl⟩
    · simpa only [Stmt.nestAll, Stmt.nest, Nat.max_self] using hn
    · exact List.Forall₂.cons hk (List.Forall₂.cons rfl
        (List.Forall₂.cons hstop List.Forall₂.nil))

lemma SettlesStmts.cons {s : Stmt} {body as : List Stmt} {front back : List Token}
    {ds : List Complaint} (hs : SettlesStmts n [s] front [a] cs)
    (hb : SettlesStmts n body back as ds) :
    SettlesStmts n (s :: body) (front ++ back) (a :: as) (cs ++ ds) := by
  obtain ⟨hloose, hnest, hw, hvalue, hreported⟩ := hs
  rw [Stmt.LooseAll] at hloose
  rw [Stmt.nestAll] at hnest
  rw [Stmt.marksAll, Stmt.marksAll, List.append_nil] at hw
  rw [Stmt.settleAll, Stmt.settleAll, List.cons.injEq] at hvalue
  rw [Stmt.misplacedAll, Stmt.misplacedAll, List.append_nil] at hreported
  refine ⟨⟨hloose.1, hb.loose⟩, ?_, hw.append hb.written, ?_, ?_⟩
  · have := hb.nest_lt
    rw [Stmt.nestAll]
    omega
  · rw [Stmt.settleAll, hvalue.1, hb.value]
  · rw [Stmt.misplacedAll, List.map_append, hreported, hb.reported]

lemma settlesStmts_items {p : Parser Stmt} {closes : Token → Bool} {as : List Stmt}
    (hp : ∀ front a cs rest, p.ReadsWith front a cs rest → OnlyTargets cs →
      ∃ s, SettlesStmts n [s] front [a] cs)
    (hadv : Advances p) (hsurvives : p.Survives .invalidTarget) (hn : 0 < n)
    (h : items closes (recovering p) (front ++ rest) = ⟨as, front.length, cs⟩)
    (hcs : OnlyTargets cs) : ∃ body, SettlesStmts n body front as cs := by
  have hstop : ∀ cs, OnlyTargets cs → ∀ ts fault, (p ts).value = .error fault →
      ∀ c ∈ cs, c.fault ≠ fault := by
    rintro cs hcs ts fault hv c hc rfl
    rw [hcs c hc] at hv
    exact hsurvives ts hv
  induction as generalizing front cs with
  | nil =>
    rcases items_readsWith hadv (hstop cs hcs) h with
      ⟨rfl, -, rfl, -⟩ | ⟨s, others, left, right, _, _, -, has, -⟩
    · exact ⟨[], trivial, hn, List.Forall₂.nil, rfl, rfl⟩
    · cases has
  | cons a as ih =>
    rcases items_readsWith hadv (hstop cs hcs) h with
      ⟨-, has, -⟩ | ⟨_, _, left, right, cs₁, cs₂, rfl, has, rfl, hs, ho⟩
    · cases has
    · cases has
      rw [onlyTargets_append] at hcs
      obtain ⟨s, hs⟩ := hp _ _ _ _ hs hcs.1
      obtain ⟨body, hbody⟩ := ih ho hcs.2
      exact ⟨s :: body, hs.cons hbody⟩

end statements

lemma settlesStmts_itemParser {n : Nat} {front rest : List Token} {a : Stmt}
    {cs : List Complaint} (hs : SettlesBranches n (statement n)) (hn : 0 < n)
    (h : (itemParser n).ReadsWith front a cs rest) (hcs : OnlyTargets cs) :
    ∃ s, SettlesStmts n [s] front [a] cs := by
  rcases readsWith_onFront.mp h with ⟨t, p, more, rfl, hc, hp⟩ | ⟨-, hp⟩
  · split at hc
    · rename_i hk
      cases hc
      exact settlesStmts_declaration (settlesOperands_settlesExprs n).2 hn hk hp
    · cases hc
  · obtain ⟨s, hs⟩ := hs _ _ _ _ hp hcs
    exact ⟨s, hs.single⟩

lemma settlesBranches_settlesRests (n : Nat) :
    SettlesBranches n (statement n) ∧ SettlesRests n (blockRest n) := by
  induction n with
  | zero =>
    rw [statement_zero, blockRest_zero]
    exact ⟨fun _ _ _ _ h => absurd h not_readsWith_fail,
      fun _ _ _ _ h => absurd h not_readsWith_fail⟩
  | succ n ih =>
    have hs : SettlesBranches (n + 1) (statement (n + 1)) := by
      rw [statement_succ]
      exact settlesBranches_statementOver (settlesOperands_settlesExprs (n + 1)).2 ih.1 ih.2
    refine ⟨hs, fun front as cs rest h hcs => ?_⟩
    rw [blockRest_succ_eq, blockOver, item_eq] at h
    simp only [bind_eq, pure_eq, readsWith_andThen, readsWith_expect, readsWith_succeed,
      readsWith_always] at h
    obtain ⟨_, inner, _, _, _, rfl, rfl, hitems, close, _, _, _, _, rfl, rfl, ⟨rfl, hclose, rfl⟩,
      rfl, rfl, rfl⟩ := h
    obtain ⟨body, hbody⟩ := settlesStmts_items (fun _ _ _ _ => settlesStmts_itemParser hs
      (Nat.succ_pos n)) (advances_itemParser _) (survives_itemParser _) (Nat.succ_pos n) hitems
      (onlyTargets_append.mp hcs).1
    refine ⟨body, inner, close, rfl, hclose, ?_⟩
    rwa [List.append_nil, List.append_nil]

end Grammar

/-- What stands before the end of input, when no fault but invalid targets is complained of, is
loose statements, which settle to those that are kept. -/
lemma settlesStmts_parse {tokens : List Token}
    (h : ∀ e ∈ (parse tokens).errors, e.fault = .invalidTarget) :
    ∃ program cs, Grammar.SettlesStmts (maxNesting + 1) program (beforeEnd tokens)
        (parse tokens).statements cs ∧
      (parse tokens).errors = cs.map (Complaint.resolve (endToken tokens)) := by
  have hused := Grammar.used_items_item (maxNesting + 1) (beforeEnd tokens)
  have hs := (Grammar.settlesBranches_settlesRests (maxNesting + 1)).1
  set r := Grammar.items (fun _ => false) (Grammar.item (maxNesting + 1)) (beforeEnd tokens)
    with hr
  have hcs : OnlyTargets r.reported := fun c hc => h _ (List.mem_map_of_mem hc)
  have hread : Grammar.items (fun _ => false) (Grammar.item (maxNesting + 1))
      (beforeEnd tokens ++ []) = ⟨r.value, (beforeEnd tokens).length, r.reported⟩ := by
    rw [List.append_nil, ← hused]
  obtain ⟨program, hprogram⟩ := Grammar.settlesStmts_items
    (fun _ _ _ _ => Grammar.settlesStmts_itemParser hs (Nat.succ_pos maxNesting))
    (Grammar.advances_itemParser _) (Grammar.survives_itemParser _) (Nat.succ_pos maxNesting)
    hread hcs
  exact ⟨program, r.reported, hprogram, rfl⟩

end Scriptlet
