import Scriptlet.Proofs.StatementEnds

/-!
# Reading on where a semicolon is lost

When the semicolon of a simple statement is lost and another simple statement follows, the parser
either reads both as one statement or stops, with nothing reported, so that skipping ends where the
second one does.
-/

namespace Scriptlet
namespace Parser
variable {α β : Type}

/-- The parser uses `n` tokens and stops, with nothing reported. -/
def StopsAfter (p : Parser α) (ts : List Token) (n : Nat) : Prop :=
  ∃ fault, p ts = ⟨.error fault, n, []⟩

section StopsAfter
variable {p q : Parser α} {f : α → Parser β} {front ts rest : List Token} {n : Nat} {a : α}

lemma stopsAfter_expect {kind : TokenKind} {fault : SyntaxFault}
    (h : ∀ t ∈ ts.head?, t.kind ≠ kind) : (expect kind fault).StopsAfter ts 0 := by
  refine ⟨fault, ?_⟩
  cases ts with
  | nil => rfl
  | cons t more =>
    unfold expect onFront
    simp only [if_neg (h t rfl)]
    rfl

/-- The parser reads the tokens and `stop`, or stops among them, with nothing reported, from where
skipping goes over `stop`. -/
def ReadsOrStops (p : Parser α) (ts : List Token) (stop : Token) (rest : List Token) : Prop :=
  (∃ a, p.Reads (ts ++ [stop]) a rest) ∨
    ∃ left right, ts = left ++ right ∧ UpTo right stop ∧
      (∀ t ∈ right.tail, ¬ t.kind.startsStatement) ∧ p.StopsAfter (ts ++ stop :: rest) left.length

lemma StopsAfter.andThen (h : p.StopsAfter ts n) : (p.andThen f).StopsAfter ts n := by
  obtain ⟨fault, h⟩ := h
  have hv : (p ts).value = .error fault := by rw [h]
  exact ⟨fault, by rw [andThen_of_error hv, h]⟩

lemma Reads.andThen_stops (hp : p.Reads front a rest) (hf : (f a).StopsAfter rest n) :
    (p.andThen f).StopsAfter (front ++ rest) (front.length + n) := by
  obtain ⟨fault, hf⟩ := hf
  unfold Reads at hp
  refine ⟨fault, ?_⟩
  rw [andThen_of_ok (a := a) (by rw [hp]), hp, List.drop_left, hf]
  rfl

section onFront
variable {choose : Token → Option (Parser α)} {otherwise : Parser α} {t : Token}

lemma StopsAfter.onFront_some (hc : choose t = some q) (h : q.StopsAfter ts n) :
    (onFront choose otherwise).StopsAfter (t :: ts) (n + 1) := by
  obtain ⟨fault, h⟩ := h
  refine ⟨fault, ?_⟩
  rw [onFront, hc]
  dsimp only
  rw [h, Reading.after, Nat.add_comm]

lemma StopsAfter.onFront_none (hc : ∀ t ∈ ts.head?, choose t = none)
    (h : otherwise.StopsAfter ts n) : (onFront choose otherwise).StopsAfter ts n := by
  cases ts with
  | nil => exact h
  | cons t more =>
    unfold StopsAfter onFront
    simp only [hc t rfl]
    exact h

end onFront

lemma stopsAfter_upTo_semicolon {fault : SyntaxFault} {make : α → Stmt} (hp : p.Reads front a rest)
    (hrest : ∀ t ∈ rest.head?, t.kind ≠ .symbol .semicolon) :
    (p.andThen (fun a => (expect (.symbol .semicolon) fault).andThen
      (fun _ => succeed (make a)))).StopsAfter (front ++ rest) front.length := by
  have hstop : ((expect (.symbol .semicolon) fault).andThen
      (fun _ => succeed (make a))).StopsAfter rest 0 := (stopsAfter_expect hrest).andThen
  exact Reads.andThen_stops (n := 0) hp hstop

lemma Closes.reads_or_stops {among : List Token} {stop : Token} {fits : Prop}
    (hp : p.Closes among front) (hread : ReadsWhen fits p (front ++ [stop]) a rest)
    (hstop : stop.kind = .symbol .semicolon) :
    p.Reads (front ++ [stop]) a rest ∨
      ∃ k ≤ front.length, p.StopsAfter (front ++ stop :: rest) k := by
  by_cases hfits : fits
  · exact Or.inl (hread.1 hfits)
  · have hdeep := hread.2 hfits
    obtain ⟨fault, used, reported, hused, htargets, -, hend⟩ := hp.exists_fault
    -- a complaint about a target would have been the first fault
    have hnone : reported = [] := by
      cases reported with
      | nil => rfl
      | cons c cs =>
        have hc := (htargets c List.mem_cons_self).1
        rw [List.append_assoc, List.singleton_append] at hdeep
        rcases hend with hend | ⟨-, b, hend⟩ <;>
        · rw [hend stop rest hstop] at hdeep
          have hfault : c.fault = .tooMuchNesting := Option.some.inj hdeep
          rw [hc] at hfault
          cases hfault
    subst hnone
    rcases hend with hend | ⟨-, b, hend⟩
    · exact Or.inr ⟨used, hused, fault, hend stop rest hstop⟩
    · rw [List.append_assoc, List.singleton_append, hend stop rest hstop] at hdeep
      cases hdeep

end StopsAfter
end Parser

namespace Grammar
open Scriptlet.Parser

section simple
variable {n : Nat} {s s' : Stmt} {front back rest : List Token} {stop stop' : Token}

lemma itemParser_of_front {ts : List Token} (h : ∀ t ∈ ts.head?, t.kind ≠ .keyword .kwVar) :
    itemParser n ts = statement n ts := by
  unfold itemParser
  cases ts with
  | nil => rfl
  | cons t more => simp [onFront, h t rfl]

lemma itemParser_of_written (hs : s.Canonical) (hplain : ¬ s.isDeclaration)
    (hw : Written s.marks (front ++ back)) (hne : front ≠ []) (rest : List Token) :
    itemParser n (front ++ rest) = statement n (front ++ rest) := by
  refine itemParser_of_front (fun t ht hk => ?_)
  cases front with
  | nil => cases hne rfl
  | cons u more =>
    obtain ⟨v, _, heq, hv⟩ := Stmt.written_begins hs hplain hw
    cases ht
    cases heq
    rw [hk] at hv
    exact Stmt.not_begins_var hv

/-- Nothing at the front of `rest` goes on with the statement in the place of its semicolon. -/
def CutOff (s : Stmt) (rest : List Token) : Prop :=
  ∀ t ∈ rest.head?, t.kind ≠ .symbol .semicolon ∧ t.kind ≠ .symbol .equal ∧
    (s.endsWithExpr → t.kind.precedence? = none)

lemma CutOff.exprEnds (h : CutOff s rest) (hs : s.endsWithExpr) : ExprEnds rest :=
  fun t ht => ⟨(h t ht).2.2 hs, (h t ht).2.1⟩

lemma stopsAfter_itemParser (hs : s.isSimple) (hcan : s.Canonical) (hnest : s.nest < n + 1)
    (hw : Written s.marks (front ++ [stop])) (hrest : CutOff s rest) :
    (itemParser (n + 1)).StopsAfter (front ++ rest) front.length := by
  have he := (readsOperands_readsExprs (n + 1)).2
  have hsemicolon : ∀ t ∈ rest.head?, t.kind ≠ .symbol .semicolon := fun t ht => (hrest t ht).1
  cases s with
  | expr e =>
    have hfront := (written_concat_iff.mp hw).1
    have hread := (he e front rest hcan hfront (hrest.exprEnds rfl)).1 hnest
    obtain ⟨t, more, rfl, ht⟩ := Expr.written_begins hcan hfront
    unfold StopsAfter
    rw [itemParser_of_written hcan Bool.false_ne_true hw (List.cons_ne_nil t more), statement_succ]
    refine StopsAfter.onFront_none (fun u hu => ?_) (stopsAfter_upTo_semicolon hread hsemicolon)
    cases hu
    exact statementOver_of_begins ht
  | print keyword e =>
    have hw' := hw
    rw [Stmt.marks, ← List.cons_append, written_concat_iff] at hw'
    obtain ⟨t, inner, rfl, rfl, hinner⟩ := written_cons_iff.mp hw'.1
    have hread := (he e inner rest hcan.2 hinner (hrest.exprEnds rfl)).1 hnest
    unfold StopsAfter
    rw [itemParser_of_written hcan Bool.false_ne_true hw (List.cons_ne_nil t inner),
      statement_succ]
    have hstops : (printRest t (expr (n + 1))).StopsAfter (inner ++ rest) inner.length :=
      stopsAfter_upTo_semicolon hread hsemicolon
    exact hstops.onFront_some (by rw [hcan.1])
  | declare name init =>
    obtain ⟨-, t, inner, rfl, ht, hinner⟩ := Stmt.written_declare_iff.mp hw
    have hkind : name.kind = .identifier ∧ ∀ e ∈ init, e.Canonical ∧ e.nest < n + 1 := by
      cases init with
      | none => exact ⟨hcan, fun e h => by cases h⟩
      | some e => exact ⟨hcan.1, fun e' h => by cases h; exact ⟨hcan.2, hnest⟩⟩
    have hname : (expect .identifier .expectedVariableName).Reads [name] name (inner ++ rest) :=
      reads_expect.mpr ⟨rfl, hkind.1⟩
    have hinit := (readsWhen_initializer he (fun e h => (hkind.2 e h).1) hinner
      (fun t ht => ⟨(hrest t ht).2.1, fun h => (hrest t ht).2.2 (by
        cases init with
        | none => cases h
        | some e => rfl)⟩)).1 (fun e h => (hkind.2 e h).2)
    have hending : ((initializer (expr (n + 1))).andThen (fun init =>
        (expect (.symbol .semicolon) .expectedSemicolonAfterDeclaration).andThen
          (fun _ => succeed (Stmt.declare name init)))).StopsAfter (inner ++ rest) inner.length :=
      stopsAfter_upTo_semicolon hinit hsemicolon
    have hstops : (declarationRest (expr (n + 1))).StopsAfter ([name] ++ (inner ++ rest))
        ([name].length + inner.length) := Reads.andThen_stops hname hending
    have hlength : (t :: name :: inner).length = [name].length + inner.length + 1 := by
      simp only [List.length_cons, List.length_nil]
      omega
    rw [hlength]
    exact hstops.onFront_some (if_pos ht)
  | _ => cases hs

lemma cutOff_or_minus (hs' : s'.isSimple) (hcan : s'.Canonical)
    (hw : Written s'.marks (back ++ [stop'])) (rest : List Token) :
    CutOff s (back ++ rest) ∨ s.endsWithExpr ∧ ∃ e t more, s' = .expr e ∧ back = t :: more ∧
      t.kind = .symbol .minus := by
  cases s' with
  | expr e =>
    obtain ⟨t, more, rfl, ht⟩ := Expr.written_begins hcan (written_concat_iff.mp hw).1
    by_cases hminus : t.kind = .symbol .minus ∧ s.endsWithExpr
    · exact Or.inr ⟨hminus.2, e, t, more, rfl, rfl, hminus.1⟩
    · refine Or.inl (fun u hu => ?_)
      cases hu
      rcases ht with ht | ht | ht | ht | ht | ht | ht | ht | ht <;> rw [ht] at hminus ⊢
      all_goals simp_all [TokenKind.precedence?, Symbol.precedence?]
  | print keyword e =>
    rw [Stmt.marks, ← List.cons_append, written_concat_iff] at hw
    obtain ⟨t, inner, rfl, rfl, hinner⟩ := written_cons_iff.mp hw.1
    refine Or.inl (fun u hu => ?_)
    cases hu
    rw [hcan.1]
    exact ⟨by decide, by decide, fun _ => rfl⟩
  | declare name init =>
    obtain ⟨-, t, inner, rfl, ht, hinner⟩ := Stmt.written_declare_iff.mp hw
    refine Or.inl (fun u hu => ?_)
    cases hu
    rw [ht]
    exact ⟨by decide, by decide, fun _ => rfl⟩
  | _ => cases hs'

/-- Behind a simple statement whose semicolon is lost, a simple statement is read as more of it, or
the parser stops before the end of the second one, from where skipping goes to its end. -/
lemma readsOrStops_itemParser (hs : s.isSimple) (hcan : s.Canonical) (hnest : s.nest < n + 1)
    (hw : Written s.marks (front ++ [stop])) (hs' : s'.isSimple) (hcan' : s'.Canonical)
    (hw' : Written s'.marks (back ++ [stop'])) (hstop' : stop'.kind = .symbol .semicolon)
    (rest : List Token) : (itemParser (n + 1)).ReadsOrStops (front ++ back) stop' rest := by
  rcases cutOff_or_minus (s := s) hs' hcan' hw' (stop' :: rest) with
    hcut | ⟨hexpr, e, t, more, rfl, rfl, ht⟩
  · have hback := Stmt.simpleFront hs' hcan' hw'
    refine Or.inr ⟨front, back, rfl, ⟨hback.free, hstop'⟩, hback.starts, ?_⟩
    rw [List.append_assoc]
    exact stopsAfter_itemParser hs hcan hnest hw hcut
  · have hback := (written_concat_iff.mp hw').1
    obtain ⟨ops, hops, hchain⟩ := Expr.exists_steps hcan' hback ht
    obtain ⟨hne, hfree, hstarts, hplain⟩ :=
      (Stmt.simpleFront hs hcan hw).append (Expr.not_isBoundary hcan' hback)
    have hread := readsItems_itemParser (readsStmts_readsRests (n + 1)).1 (s.extend ops)
      (front ++ t :: more ++ [stop']) rest (Stmt.canonical_extend hcan hops)
      (Stmt.written_extend hexpr hw hchain hstop')
      (fun h => absurd h (Stmt.not_endsOpen_extend hexpr ops))
    rcases (closes_itemParser n hne hfree hplain).reads_or_stops hread hstop' with
      hreads | ⟨k, hk, hstops⟩
    · exact Or.inl ⟨_, hreads⟩
    · obtain ⟨left, right, heq, hleft, -⟩ := exists_split [] hk
      have hright : UpTo right stop' :=
        ⟨fun u hu => hfree u (heq ▸ List.mem_append_right left hu), hstop'⟩
      refine Or.inr ⟨left, right, heq, hright, fun u hu => hstarts u ?_, hleft ▸ hstops⟩
      rw [heq]
      exact mem_tail_right left hu

end simple
end Grammar
end Scriptlet
