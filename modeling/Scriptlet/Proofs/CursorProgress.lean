import Scriptlet.Proofs.CursorAgreement
import Scriptlet.Proofs.CursorOrder

/-!
# Progress of the cursor

A walk moves the cursor forward only, and never over an end of input. An expression is no item and
has none inside, and the items inside of a statement begin behind its first token. So an item ends
further on than it began, whether it was read or skipped, and there are no more items than tokens
before the first end of input.
-/

namespace Scriptlet
open Cursor

namespace Attempt
variable {R : Cursor → Cursor → Prop} [Lasting R] {c c' : Cursor}

section expressions
variable {operandBelow exprBelow : Attempt Expr} {rounds : Nat}

lemma keeps_operandFrom (ho : operandBelow.Keeps R) (he : exprBelow.Keeps R)
    (t : Token) (q : Attempt Expr) (h : operandFrom operandBelow exprBelow t = some q) :
    q.Keeps R := by
  unfold operandFrom at h
  split at h <;> cases h
  · exact ho.bind (fun _ => keeps_pure _)
  · exact ho.bind (fun _ => keeps_pure _)
  · exact he.bind (fun _ => (keeps_expect _ _).bind (fun _ => keeps_pure _))
  all_goals exact keeps_pure _

lemma operandFrom_end (t : Token) (h : t.kind = .endOfInput) :
    operandFrom operandBelow exprBelow t = none := by
  unfold operandFrom
  rw [h]

lemma keeps_operandOver (ho : operandBelow.Keeps R) (he : exprBelow.Keeps R) :
    (operandOver operandBelow exprBelow).Keeps R :=
  (Keeps.onFront operandFrom_end (keeps_operandFrom ho he) (keeps_fail _)).called
    (by decide)

lemma moves_operandOver (ho : operandBelow.Keeps Before) (he : exprBelow.Keeps Before) :
    (operandOver operandBelow exprBelow).Moves :=
  (Moves.onFront operandFrom_end (keeps_operandFrom ho he) (moves_fail _)).called

lemma keeps_climbFrom {operand : Attempt Expr} (ho : operand.Keeps R)
    (turns least : Nat) (left : Expr) : (climbFrom operand turns least left).Keeps R := by
  induction turns generalizing least left with
  | zero => exact fun _ _ _ h => nomatch h
  | succ turns ih =>
    rw [climbFrom]
    refine (keeps_lift Walk.keeps_peek).bind (fun t => ?_)
    split
    · exact keeps_pure left
    · split
      · exact keeps_pure left
      · exact (keeps_lift Walk.keeps_advance).bind (fun op => ho.bind (fun first =>
          (ih _ first).bind (fun right => ih least _)))

lemma keeps_climb {operand : Attempt Expr} (ho : operand.Keeps R)
    (turns least : Nat) : (climb operand turns least).Keeps R :=
  ho.bind (fun first => keeps_climbFrom ho turns least first)

lemma keeps_assignment (target : Expr) (equals : Token) (value : Expr) :
    (assignment target equals value).Keeps R := by
  have hreport : Walk.Keeps R (Walk.report ⟨.invalidTarget, equals⟩) := by
    intro c a c' hrun
    cases hrun
    exact Lasting.report c _
  unfold assignment
  split
  · exact keeps_pure _
  · exact (keeps_lift hreport).bind (fun _ => keeps_pure _)

lemma keeps_assigning (he : exprBelow.Keeps R) (left : Expr) :
    Attempt.Keeps R (do
      match ← (liftM (Walk.accept (.symbol .equal)) : Attempt (Option Token)) with
      | none => return left
      | some equals =>
        let value ← exprBelow
        assignment left equals value) := by
  refine (keeps_lift (Walk.keeps_accept _)).bind (fun equals => ?_)
  cases equals with
  | none => exact keeps_pure left
  | some equals => exact he.bind (fun value => keeps_assignment left equals value)

lemma keeps_exprOver (ho : operandBelow.Keeps R) (he : exprBelow.Keeps R) :
    (exprOver rounds operandBelow exprBelow).Keeps R :=
  (((keeps_climb (keeps_operandOver ho he) rounds 0).called (by decide)).bind
    (keeps_assigning he)).called (by decide)

lemma moves_exprOver (ho : operandBelow.Keeps Before) (he : exprBelow.Keeps Before) :
    (exprOver rounds operandBelow exprBelow).Moves := by
  have hclimb : (climb (operandOver operandBelow exprBelow) rounds 0).Moves :=
    (moves_operandOver ho he).bind
      (keeps_climbFrom (keeps_operandOver ho he) rounds 0)
  exact (hclimb.called.bind (keeps_assigning he)).called

lemma keeps_operand_expr (rounds n : Nat) :
    (operand rounds n).Keeps R ∧ (expr rounds n).Keeps R := by
  induction n with
  | zero =>
    rw [operand, expr]
    exact ⟨keeps_fail _, keeps_fail _⟩
  | succ n ih =>
    rw [operand, expr]
    exact ⟨keeps_operandOver ih.1 ih.2, keeps_exprOver ih.1 ih.2⟩

lemma keeps_expr (rounds n : Nat) : (expr rounds n).Keeps R :=
  (keeps_operand_expr rounds n).2

lemma moves_expr (rounds n : Nat) : (expr rounds n).Moves := by
  cases n with
  | zero =>
    rw [expr]
    exact moves_fail _
  | succ n =>
    obtain ⟨ho, he⟩ := keeps_operand_expr (R := Before) rounds n
    rw [expr]
    exact moves_exprOver ho he

end expressions

section statements
variable {expr : Attempt Expr} {branch : Attempt Stmt} {body : Attempt (List Stmt)}

lemma keeps_initializer (he : expr.Keeps R) : (initializer expr).Keeps R := by
  refine (keeps_lift (Walk.keeps_accept _)).bind (fun equals => ?_)
  cases equals with
  | none => exact keeps_pure none
  | some _ => exact he.bind (fun _ => keeps_pure _)

lemma keeps_declarationRest (he : expr.Keeps R) :
    (declarationRest expr).Keeps R :=
  ((keeps_expect _ _).bind (fun _ => (keeps_initializer he).bind (fun _ =>
    (keeps_expect _ _).bind (fun _ => keeps_pure _)))).called (by decide)

lemma keeps_ifRest (he : expr.Keeps R) (hb : branch.Keeps R) :
    (ifRest expr branch).Keeps R := by
  refine ((keeps_expect _ _).bind (fun _ => he.bind (fun condition =>
    (keeps_expect _ _).bind (fun _ => hb.bind (fun yes =>
      (keeps_lift (Walk.keeps_accept _)).bind (fun otherwise => ?_)))))).called
        (by decide)
  cases otherwise with
  | none => exact keeps_pure _
  | some _ => exact hb.bind (fun _ => keeps_pure _)

lemma keeps_whileRest (he : expr.Keeps R) (hb : branch.Keeps R) :
    (whileRest expr branch).Keeps R :=
  ((keeps_expect _ _).bind (fun _ => he.bind (fun _ =>
    (keeps_expect _ _).bind (fun _ => hb.bind (fun _ => keeps_pure _))))).called
      (by decide)

lemma keeps_upTo (kind : TokenKind) (fault : SyntaxFault) (s : Stmt) :
    Attempt.Keeps R (do
      let _ ← expect kind fault
      return s) :=
  (keeps_expect kind fault).bind (fun _ => keeps_pure s)

/-- The cursor goes over more tokens than items begin, unless it stops where it is. -/
def Starts (p : Attempt Stmt) : Prop := ∀ c o c', p.run c = some (o, c') →
  c.Gains c' ∨ c.Quiet c' ∧ c'.place = c.place ∧ ∃ error, o = .error error

lemma Starts.keeps {p : Attempt Stmt} (h : p.Starts) : p.Keeps Before := by
  intro c o c' hrun
  obtain hgains | ⟨hquiet, -⟩ := h c o c' hrun
  · exact hgains.toBefore
  · exact hquiet.toBefore

lemma starts_of_quiet {p : Attempt Stmt} (hq : p.Keeps Quiet) (hm : p.Moves) : p.Starts := by
  intro c o c' hrun
  have hquiet := hq c o c' hrun
  obtain hlt | heq := Nat.lt_or_eq_of_le hquiet.place
  · exact Or.inl (.of_quiet hquiet hlt)
  · cases o with
    | ok s => exact absurd (hm c s c' hrun) (Nat.not_lt.mpr (Nat.le_of_eq heq.symm))
    | error error => exact Or.inr ⟨hquiet, heq.symm, error, rfl⟩

lemma Starts.called {part : Part} {p : Attempt Stmt} (hpart : part ≠ .item) (h : p.Starts) :
    (called part p).Starts := by
  intro c o c' hrun
  obtain ⟨c'', hp, rfl⟩ := Walk.called_eq_some hrun
  obtain hgains | ⟨hquiet, hplace, herror⟩ := h c o c'' hp
  · exact Or.inl (hgains.called hpart)
  · exact Or.inr ⟨Lasting.called hpart hquiet, hplace, herror⟩

lemma Starts.onFront {choose : Token → Option (Attempt Stmt)} {otherwise : Attempt Stmt}
    (hend : ∀ t, t.kind = .endOfInput → choose t = none)
    (hc : ∀ t q, choose t = some q → q.Keeps Before) (ho : otherwise.Starts) :
    (onFront choose otherwise).Starts := by
  intro c o c' hrun
  obtain ⟨t, q, hq, hgoes, hrest⟩ | hrest := onFront_eq_some hend hrun
  · exact Or.inl ((Gains.next (Walk.kind_ne_of_atEnd hgoes)).trans_before (hc t q hq _ o c' hrest))
  · exact ho c o c' hrest

lemma starts_tooDeep : (tooDeep : Attempt Stmt).Starts :=
  starts_of_quiet (keeps_fail _) (moves_fail _)

lemma starts_statementOver (he : expr.Keeps Quiet) (hm : expr.Moves) (hb : branch.Starts)
    (hs : body.Keeps Before) : (statementOver expr branch body).Starts := by
  have hbefore : expr.Keeps Before := fun c o c' h => (he c o c' h).toBefore
  refine (Starts.onFront (fun t ht => by rw [ht]) (fun t q h => ?_) ?_).called (by decide)
  · split at h <;> cases h
    · exact keeps_ifRest hbefore hb.keeps
    · exact keeps_whileRest hbefore hb.keeps
    · exact hbefore.bind (fun _ => keeps_upTo _ _ _)
    · exact hs.bind (fun _ => keeps_pure _)
  · refine starts_of_quiet ?_ ?_
    · exact he.bind (fun _ => keeps_upTo _ _ _)
    · exact hm.bind (fun _ => keeps_upTo _ _ _)

lemma gains_recovering {rounds : Nat} {p : Attempt Stmt} {s : Option Stmt} (hp : p.Starts)
    (hgoes : Walk.atEnd c = some (false, c)) (hrun : recovering rounds p c = some (s, c')) :
    c.Gains c' := by
  obtain ⟨o, c₁, hstopped, hrest⟩ := Walk.bind_eq_some.mp hrun
  cases o with
  | ok s =>
    obtain ⟨-, rfl⟩ := Walk.pure_eq_some.mp hrest
    obtain hgains | ⟨-, -, error, herror⟩ := hp c _ c₁ hstopped
    · exact hgains
    · cases herror
  | error error =>
    obtain ⟨⟨⟩, c₂, hreport, hrest⟩ := Walk.bind_eq_some.mp hrest
    cases hreport
    obtain ⟨⟨⟩, c₃, hskip, hpure⟩ := Walk.bind_eq_some.mp hrest
    obtain ⟨-, rfl⟩ := Walk.pure_eq_some.mp hpure
    have hreport := Before.report c₁ error
    obtain hgains | ⟨hquiet, hplace, -⟩ := hp c _ c₁ hstopped
    · exact (hgains.trans_before hreport).trans_before
        (Walk.keeps_synchronize rounds _ _ _ hskip)
    · refine Gains.behind (hquiet.toBefore.trans hreport) (Walk.gains_synchronize ?_ hskip)
      exact Walk.atEnd_congr hquiet.tokens hplace hgoes

lemma before_itemOver {rounds : Nat} {statement : Attempt Stmt} {s : Option Stmt}
    (he : expr.Keeps Before) (hs : statement.Starts) (hgoes : Walk.atEnd c = some (false, c))
    (hrun : itemOver rounds expr statement c = some (s, c')) :
    c.Before c' ∧ c.place < c'.place := by
  obtain ⟨c'', hrecovering, rfl⟩ := Walk.called_eq_some hrun
  have hstarts : (onFront
      (fun t => if t.kind = .keyword .kwVar then some (declarationRest expr) else none)
      statement).Starts := by
    refine Starts.onFront (fun t ht => by rw [ht]; rfl) (fun t q h => ?_) hs
    split at h <;> cases h
    exact keeps_declarationRest he
  have hgains := gains_recovering hstarts hgoes hrecovering
  exact ⟨hgains.wrote_item, hgains.place_lt⟩

lemma atBlockEnd_eq_some {b : Bool} (h : atBlockEnd c = some (b, c')) :
    c' = c ∧ (b = false → Walk.atEnd c = some (false, c)) := by
  obtain ⟨closes, c₁, hcheck, hrest⟩ := Walk.bind_eq_some.mp h
  obtain rfl := Walk.check_stays hcheck
  cases closes with
  | true =>
    obtain ⟨rfl, rfl⟩ := Walk.pure_eq_some.mp hrest
    exact ⟨rfl, fun h => absurd h.symm Bool.false_ne_true⟩
  | false =>
    obtain rfl := Walk.atEnd_stays hrest
    exact ⟨rfl, fun hb => hb ▸ hrest⟩

lemma keeps_blockOver {rounds : Nat} {item : Walk (Option Stmt)}
    (hitem : ∀ c s c', Walk.atEnd c = some (false, c) → item c = some (s, c') → c.Before c') :
    (blockOver rounds item).Keeps Before :=
  ((keeps_lift (Walk.keeps_items
    (fun _ _ _ h => atBlockEnd_eq_some h) hitem rounds)).bind (fun _ =>
      (keeps_expect _ _).bind (fun _ =>
        keeps_pure _))).called (by decide)

end statements

lemma starts_statement_blockRest (rounds n : Nat) :
    (statement rounds n).Starts ∧ (blockRest rounds n).Keeps Before := by
  induction n with
  | zero =>
    rw [statement, blockRest]
    exact ⟨starts_tooDeep, keeps_fail _⟩
  | succ n ih =>
    have hs := starts_statementOver (keeps_expr rounds (n + 1))
      (moves_expr rounds (n + 1)) ih.1 ih.2
    rw [statement, blockRest]
    exact ⟨hs, keeps_blockOver (fun c s c' hgoes hrun =>
      (before_itemOver (keeps_expr rounds (n + 1)) hs hgoes hrun).1)⟩

lemma before_item {rounds n : Nat} {s : Option Stmt} (hgoes : Walk.atEnd c = some (false, c))
    (hrun : item rounds n c = some (s, c')) : c.Before c' ∧ c.place < c'.place :=
  before_itemOver (keeps_expr rounds n) (starts_statement_blockRest rounds n).1
    hgoes hrun

end Attempt

lemma keeps_walkProgram (rounds : Nat) : (walkProgram rounds).Keeps Before :=
  Walk.keeps_items
    (fun _ _ _ h => ⟨Walk.atEnd_stays h, fun hb => by
      obtain rfl := Walk.atEnd_stays h
      exact hb ▸ h⟩)
    (fun _ _ _ hgoes hrun => (Attempt.before_item hgoes hrun).1) rounds

lemma Cursor.Before.place_le {c c' : Cursor} {rounds : Nat} {ahead : List Token} {e : Token}
    (h : c.Before c') (hsees : c.Sees rounds ahead e) : c'.place ≤ c.place + ahead.length := by
  obtain ⟨after, htokens⟩ := hsees.tokens
  have he : c.tokens[c.place + ahead.length]? = some e := by
    rw [← List.getElem?_drop, htokens, List.getElem?_append_right (Nat.le_refl _), Nat.sub_self]
    rfl
  refine Nat.not_lt.mp (fun hlt => ?_)
  exact h.ends _ e (Nat.le_add_right _ _) hlt he hsees.ends

/-- Given more rounds than there are tokens before the first end of input, a walk through all tokens
has a result. None of its calls goes backwards or over the first end of input, every item ends
further on than it began, and there are no more items, in blocks and outside of them, than tokens
before the first end of input. Wherever a cursor stands before an end of input, the walk of an item
moves it on, up to there at most. And wherever it stands, nothing moves it backwards or over an end
of input. -/
theorem parseWalking_progress {tokens : List Token} {rounds : Nat}
    (hrounds : (beforeEnd tokens).length < rounds) :
    (∃ visits, parseWalking rounds tokens = some (parse tokens, visits) ∧
      (∀ v ∈ visits, v.entered ≤ v.left ∧ v.left ≤ (beforeEnd tokens).length ∧
        (v.part = .item → v.entered < v.left)) ∧
      visits.countP (·.part = .item) ≤ (beforeEnd tokens).length) ∧
    (∀ c ahead e levels, c.Sees rounds ahead e → ahead ≠ [] →
      ∃ s c', Attempt.item rounds levels c = some (s, c') ∧
        c.place < c'.place ∧ c'.place ≤ c.place + ahead.length) ∧
    (Walk.advance.Keeps Before ∧ (Walk.synchronize rounds).Keeps Before ∧
      (∀ kind, (Walk.accept kind).Keeps Before) ∧
      (∀ kind fault, (Attempt.expect kind fault).Keeps Before) ∧
      ∀ levels, (Attempt.operand rounds levels).Keeps Before ∧
        (∀ least, (Attempt.climb (Attempt.operand rounds levels) rounds least).Keeps Before) ∧
        (Attempt.expr rounds levels).Keeps Before ∧
        (Attempt.statement rounds levels).Keeps Before ∧
        (Attempt.blockRest rounds levels).Keeps Before) := by
  refine ⟨?_, ?_, Walk.keeps_advance, Walk.keeps_synchronize rounds, Walk.keeps_accept,
    Attempt.keeps_expect, fun levels => ?_⟩
  · obtain ⟨visits, hwalk, -⟩ := parseWalking_eq hrounds
    obtain ⟨⟨statements, c⟩, hprogram, hresult⟩ := Option.map_eq_some_iff.mp hwalk
    obtain ⟨-, rfl⟩ := Prod.mk.inj hresult
    have hbefore := keeps_walkProgram rounds _ _ _ hprogram
    have hplace := hbefore.place_le (sees_closedWithEnd hrounds)
    rw [Nat.zero_add] at hplace
    obtain ⟨more, hmore, hvisits⟩ := hbefore.visits
    rw [List.nil_append] at hmore
    refine ⟨c.visits, hwalk, fun v hv => ?_, ?_⟩
    · obtain ⟨⟨-, hforward, hleft⟩, hitem⟩ := hvisits v (hmore ▸ hv)
      exact ⟨hforward, Nat.le_trans hleft hplace, hitem⟩
    · have hitems : c.items + 0 ≤ 0 + c.place := hbefore.items
      rw [Nat.zero_add] at hitems
      exact Nat.le_trans hitems hplace
  · intro c ahead e levels hsees hne
    obtain ⟨-, visits, hrun, -⟩ := Attempt.follows_item levels c ahead hsees
    obtain ⟨t, rest, rfl⟩ := List.exists_cons_of_ne_nil hne
    obtain ⟨hbefore, hlt⟩ := Attempt.before_item (Walk.atEnd_of_sees hsees) hrun
    exact ⟨_, _, hrun, hlt, hbefore.place_le hsees⟩
  · obtain ⟨ho, he⟩ := Attempt.keeps_operand_expr (R := Before) rounds levels
    obtain ⟨hs, hb⟩ := Attempt.starts_statement_blockRest rounds levels
    exact ⟨ho, Attempt.keeps_climb ho rounds, he, hs.keeps, hb⟩

theorem parseWalking_progress_openBlock :
    let ts : List Token := [⟨.symbol .leftBrace, "\x7b", none, 1⟩, ⟨.symbol .rightParen, ")", none, 1⟩,
      ⟨.keyword .kwPrint, "print", none, 2⟩, ⟨.keyword .kwNil, "nil", none, 2⟩,
      ⟨.symbol .semicolon, ";", none, 2⟩]
    let tokens := ts ++ [.endOfInput 2, ⟨.symbol .rightBrace, "\x7d", none, 3⟩]
    let c : Cursor := ⟨tokens, 1, [], []⟩
    (beforeEnd tokens).length < 6 ∧
    (∃ visits, parseWalking 6 tokens = some (parse tokens, visits) ∧
      (∀ v ∈ visits, v.entered ≤ v.left ∧ v.left ≤ 5 ∧ (v.part = .item → v.entered < v.left)) ∧
      visits.countP (·.part = .item) ≤ 5) ∧
    c.Sees 6 (ts.drop 1) (.endOfInput 2) ∧
    ∃ s c', Attempt.item 6 7 c = some (s, c') ∧ 1 < c'.place ∧ c'.place ≤ 5 := by
  intro ts tokens c
  have hrounds : (beforeEnd tokens).length < 6 := by decide
  have hsees : c.Sees 6 (ts.drop 1) (.endOfInput 2) :=
    ⟨⟨[⟨.symbol .rightBrace, "\x7d", none, 3⟩], rfl⟩, by decide, by decide, rfl⟩
  obtain ⟨hwalk, hitem, -⟩ := parseWalking_progress hrounds
  exact ⟨hrounds, hwalk, hsees, hitem c _ _ 7 hsees (List.cons_ne_nil _ _)⟩

end Scriptlet
