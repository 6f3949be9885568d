import Scriptlet.Proofs.ErrorContainment

/-!
# Simple statements

A simple statement is an expression, a `print` or a declaration, up to its semicolon, which is the
only one among its tokens. It stays one when more operators and operands stand before the semicolon;
and an expression that begins with a minus is such a row of operators and operands itself, so that
it can stand there, too. Which statements are simple can be seen from the tokens that they begin
with.
-/

namespace Scriptlet

section written
variable {m : List Mark} {k : TokenKind} {front : List Token} {stop : Token}

lemma written_concat_iff :
    Written (m ++ [.kind k]) (front ++ [stop]) ↔ Written m front ∧ stop.kind = k := by
  rw [written_append_iff]
  constructor
  · rintro ⟨left, right, heq, hleft, hright⟩
    obtain ⟨t, more, rfl, ht, hmore⟩ := written_cons_iff.mp hright
    obtain rfl := written_nil_iff.mp hmore
    obtain ⟨rfl, hstop⟩ := List.append_inj' heq rfl
    obtain rfl := List.singleton_inj.mp hstop
    exact ⟨hleft, ht⟩
  · rintro ⟨hfront, hk⟩
    exact ⟨front, [stop], rfl, hfront, List.Forall₂.cons hk List.Forall₂.nil⟩

end written

namespace Expr

lemma not_isBoundary {e : Expr} (he : e.Canonical) {ts : List Token} (h : Written e.marks ts) :
    ∀ t ∈ ts, ¬ t.kind.IsBoundary := by
  induction e generalizing ts with
  | literal v =>
    obtain ⟨t, more, rfl, ht, hmore⟩ := written_cons_iff.mp h
    obtain rfl := written_nil_iff.mp hmore
    exact List.forall_mem_singleton.mpr (Token.not_isBoundary_of_denotes? ht)
  | grouping e ih =>
    obtain ⟨t, more, rfl, ht, hmore⟩ := written_cons_iff.mp h
    obtain ⟨inner, close, rfl, hinner, hclose⟩ := written_append_iff.mp hmore
    obtain ⟨u, none, rfl, hu, hnone⟩ := written_cons_iff.mp hclose
    obtain rfl := written_nil_iff.mp hnone
    rw [List.forall_mem_cons, List.forall_mem_append, List.forall_mem_singleton]
    refine ⟨?_, ih he hinner, ?_⟩
    · rw [show t.kind = _ from ht]
      decide
    · rw [show u.kind = _ from hu]
      decide
  | unary op e ih =>
    obtain ⟨t, more, rfl, rfl, hmore⟩ := written_cons_iff.mp h
    refine List.forall_mem_cons.mpr ⟨?_, ih he.2.2 hmore⟩
    rcases he.1 with hk | hk <;>
    · rw [hk]
      decide
  | binary l op r ihl ihr =>
    obtain ⟨p, hp, -, -, hl, hr⟩ := he
    obtain ⟨left, _, rfl, hleft, hmore⟩ := written_append_iff.mp h
    obtain ⟨t, right, rfl, rfl, hright⟩ := written_cons_iff.mp hmore
    refine List.forall_mem_append.mpr ⟨ihl hl hleft, List.forall_mem_cons.mpr ⟨fun ht => ?_,
      ihr hr hright⟩⟩
    rw [ht.precedence?_eq_none] at hp
    cases hp
  | ref name =>
    obtain ⟨t, more, rfl, rfl, hmore⟩ := written_cons_iff.mp h
    obtain rfl := written_nil_iff.mp hmore
    rw [List.forall_mem_singleton, show t.kind = _ from he]
    decide
  | assign name e ih =>
    obtain ⟨t, more, rfl, rfl, hmore⟩ := written_cons_iff.mp h
    obtain ⟨u, value, rfl, hu, hvalue⟩ := written_cons_iff.mp hmore
    rw [List.forall_mem_cons, List.forall_mem_cons, show t.kind = _ from he.1,
      show u.kind = _ from hu]
    exact ⟨by decide, by decide, ih he.2 hvalue⟩

lemma marks_attachAll (e : Expr) (ops : List (Token × Expr)) :
    (e.attachAll ops).marks = e.marks ++ chainMarks ops := by
  induction ops generalizing e with
  | nil => exact (List.append_nil _).symm
  | cons x ops ih =>
    calc ((e.attach x.1 x.2).attachAll ops).marks
        = (e.attach x.1 x.2).marks ++ chainMarks ops := ih _
      _ = e.marks ++ chainMarks (x :: ops) := by
        rw [marks_attach, List.append_assoc]
        rfl

lemma canonical_attachAll {e : Expr} {ops : List (Token × Expr)} (he : e.Canonical)
    (hrank : 0 < e.rank) (hops : ∀ x ∈ ops, IsStep x) : (e.attachAll ops).Canonical := by
  induction ops generalizing e with
  | nil => exact he
  | cons x ops ih =>
    obtain ⟨⟨⟨p, hp⟩, hcan, hright⟩, hops⟩ := List.forall_mem_cons.mp hops
    have hbounds := precedence?_bounds hp
    obtain ⟨hattach, hmin⟩ := canonical_attach hp he hcan hrank hright
    exact ih hattach (hmin ▸ Nat.lt_min.mpr ⟨hrank, hbounds.1⟩) hops

/-- More operators and operands behind an expression belong to the last value that it assigns. -/
def extend : Expr → List (Token × Expr) → Expr
  | assign name value, ops => assign name (value.extend ops)
  | e, ops => e.attachAll ops

lemma marks_extend (e : Expr) (ops : List (Token × Expr)) :
    (e.extend ops).marks = e.marks ++ chainMarks ops := by
  induction e with
  | assign name value ih => rw [extend, marks, ih, marks, List.cons_append, List.cons_append]
  | _ => exact marks_attachAll _ ops

lemma canonical_extend {e : Expr} {ops : List (Token × Expr)} (he : e.Canonical)
    (hops : ∀ x ∈ ops, IsStep x) : (e.extend ops).Canonical := by
  induction e with
  | assign name value ih => exact ⟨he.1, ih he.2⟩
  | binary l op r _ _ =>
    have hrank := he.rank_pos_or_assign.resolve_right (fun ⟨_, _, h⟩ => by cases h)
    exact canonical_attachAll he hrank hops
  | _ => exact canonical_attachAll he (Nat.succ_pos 4) hops

lemma exists_steps {e : Expr} (he : e.Canonical) {t : Token} {more : List Token}
    (h : Written e.marks (t :: more)) (ht : t.kind = .symbol .minus) :
    ∃ ops, (∀ x ∈ ops, IsStep x) ∧ Written (chainMarks ops) (t :: more) := by
  have hnoName : ∀ name : Token, name.kind = .identifier → name ≠ t := by
    rintro _ hk rfl
    rw [ht] at hk
    cases hk
  have hrank : 0 < e.rank := by
    rcases he.rank_pos_or_assign with hrank | ⟨name, value, rfl⟩
    · exact hrank
    · obtain ⟨u, _, heq, rfl, -⟩ := written_cons_iff.mp h
      cases heq
      exact absurd rfl (hnoName t he.1)
  obtain ⟨hfcan, hfrank⟩ := canonical_first he hrank
  rw [marks_eq_chain] at h
  obtain ⟨left, right, heq, hleft, hright⟩ := written_append_iff.mp h
  cases hf : e.first with
  | unary op operand =>
    rw [hf] at hleft hfcan
    obtain ⟨u, inner, rfl, rfl, hinner⟩ := written_cons_iff.mp hleft
    obtain ⟨rfl, rfl⟩ := List.cons.inj heq
    refine ⟨(t, operand) :: e.chain, List.forall_mem_cons.mpr
      ⟨⟨⟨3, by rw [ht]; rfl⟩, hfcan.2.2, hfcan.2.1⟩, fun x hx => (isStep_chain he hrank x hx).1⟩, ?_⟩
    exact List.Forall₂.cons rfl (hinner.append hright)
  | literal v =>
    rw [hf] at hleft
    obtain ⟨u, none, rfl, hu, -⟩ := written_cons_iff.mp hleft
    obtain ⟨rfl, -⟩ := List.cons.inj heq
    simp [Mark.Fits, Token.denotes?, ht] at hu
  | grouping inner =>
    rw [hf] at hleft
    obtain ⟨u, none, rfl, hu, -⟩ := written_cons_iff.mp hleft
    obtain ⟨rfl, -⟩ := List.cons.inj heq
    rw [show t.kind = _ from hu] at ht
    cases ht
  | ref name =>
    rw [hf] at hleft hfcan
    obtain ⟨u, none, rfl, rfl, -⟩ := written_cons_iff.mp hleft
    exact absurd (List.cons.inj heq).1.symm (hnoName u hfcan)
  | binary l op r =>
    rw [hf] at hfcan hfrank
    obtain ⟨p, hp, -⟩ := hfcan
    have := precedence?_bounds hp
    rw [rank, hp, Option.getD_some] at hfrank
    omega
  | assign name value =>
    rw [hf] at hfrank
    cases hfrank

end Expr

namespace Stmt

/-- A statement that ends with a semicolon of its own. -/
def isSimple : Stmt → Bool
  | expr _ | print _ _ | declare _ _ => true
  | _ => false

/-- A statement that ends with an expression and a semicolon. -/
def endsWithExpr : Stmt → Bool
  | expr _ | print _ _ | declare _ (some _) => true
  | _ => false

/-- The statement with more operators and operands before its semicolon. -/
def extend : Stmt → List (Token × Expr) → Stmt
  | expr e, ops => expr (e.extend ops)
  | print keyword e, ops => print keyword (e.extend ops)
  | declare name (some e), ops => declare name (some (e.extend ops))
  | s, _ => s

lemma canonical_extend {s : Stmt} {ops : List (Token × Expr)} (hs : s.Canonical)
    (hops : ∀ x ∈ ops, Expr.IsStep x) : (s.extend ops).Canonical := by
  cases s with
  | expr e => exact Expr.canonical_extend hs hops
  | print keyword e => exact ⟨hs.1, Expr.canonical_extend hs.2 hops⟩
  | declare name init =>
    cases init with
    | none => exact hs
    | some e => exact ⟨hs.1, Expr.canonical_extend hs.2 hops⟩
  | _ => exact hs

lemma not_endsOpen_extend {s : Stmt} (hs : s.endsWithExpr) (ops : List (Token × Expr)) :
    ¬ (s.extend ops).endsOpen := by
  cases s with
  | expr e | print keyword e => exact Bool.false_ne_true
  | declare name init =>
    cases init with
    | none => cases hs
    | some e => exact Bool.false_ne_true
  | _ => cases hs

lemma written_declare_iff {name : Token} {init : Option Expr} {front : List Token} {stop : Token} :
    Written (declare name init).marks (front ++ [stop]) ↔ stop.kind = .symbol .semicolon ∧
      ∃ t inner, front = t :: name :: inner ∧ t.kind = .keyword .kwVar ∧
        Written (Grammar.initializerMarks init) inner := by
  have hmarks : (declare name init).marks = .kind (.keyword .kwVar) :: .exactly name ::
      Grammar.initializerMarks init ++ [.kind (.symbol .semicolon)] := by
    cases init <;> rfl
  rw [hmarks, written_concat_iff]
  constructor
  · rintro ⟨h, hstop⟩
    obtain ⟨t, _, rfl, ht, hmore⟩ := written_cons_iff.mp h
    obtain ⟨u, inner, rfl, rfl, hinner⟩ := written_cons_iff.mp hmore
    exact ⟨hstop, t, inner, rfl, ht, hinner⟩
  · rintro ⟨hstop, t, inner, rfl, ht, hinner⟩
    exact ⟨List.Forall₂.cons ht (List.Forall₂.cons rfl hinner), hstop⟩

lemma written_extend {s : Stmt} {ops : List (Token × Expr)} {front back : List Token}
    {stop stop' : Token} (hs : s.endsWithExpr) (h : Written s.marks (front ++ [stop]))
    (hops : Written (Expr.chainMarks ops) back) (hstop : stop'.kind = .symbol .semicolon) :
    Written (s.extend ops).marks (front ++ back ++ [stop']) := by
  have hexpr {e : Expr} {inner : List Token} (he : Written e.marks inner) :
      Written (e.extend ops).marks (inner ++ back) := by
    rw [Expr.marks_extend]
    exact he.append hops
  cases s with
  | expr e => exact written_concat_iff.mpr ⟨hexpr (written_concat_iff.mp h).1, hstop⟩
  | print keyword e =>
    rw [marks, ← List.cons_append, written_concat_iff] at h
    obtain ⟨t, inner, rfl, ht, hinner⟩ := written_cons_iff.mp h.1
    rw [extend, marks, ← List.cons_append, written_concat_iff]
    exact ⟨List.Forall₂.cons ht (hexpr hinner), hstop⟩
  | declare name init =>
    cases init with
    | none => cases hs
    | some e =>
      obtain ⟨-, t, _, rfl, ht, hinner⟩ := written_declare_iff.mp h
      obtain ⟨v, inner, rfl, hv, hinner⟩ := written_cons_iff.mp hinner
      refine written_declare_iff.mpr ⟨hstop, t, v :: (inner ++ back), rfl, ht, ?_⟩
      exact List.Forall₂.cons hv (hexpr hinner)
  | _ => cases hs

end Stmt

/-- The tokens of a simple statement before its semicolon. -/
structure SimpleFront (front : List Token) : Prop where
  ne_nil : front ≠ []
  free : ∀ t ∈ front, t.kind ≠ .symbol .semicolon
  starts : ∀ t ∈ front.tail, ¬ t.kind.startsStatement
  plain : ∀ t ∈ front.head?, Grammar.Plain t.kind

lemma SimpleFront.append {front back : List Token} (h : SimpleFront front)
    (hback : ∀ t ∈ back, ¬ t.kind.IsBoundary) : SimpleFront (front ++ back) := by
  obtain ⟨hne, hfree, hstarts, hplain⟩ := h
  cases front with
  | nil => cases hne rfl
  | cons t more =>
    exact ⟨List.cons_ne_nil _ _,
      List.forall_mem_append.mpr ⟨hfree, fun u hu hk => hback u hu (Or.inl hk)⟩,
      List.forall_mem_append.mpr ⟨hstarts, fun u hu hk => hback u hu (Or.inr hk)⟩, hplain⟩

lemma simpleFront_singleton {t : Token} (hfree : t.kind ≠ .symbol .semicolon)
    (hplain : Grammar.Plain t.kind) : SimpleFront [t] := by
  refine ⟨List.cons_ne_nil _ _, List.forall_mem_singleton.mpr hfree, fun u hu => ?_, fun u hu => ?_⟩
  · cases hu
  · cases hu
    exact hplain

lemma Stmt.simpleFront {s : Stmt} (hs : s.isSimple) (hcan : s.Canonical) {front : List Token}
    {stop : Token} (h : Written s.marks (front ++ [stop])) : SimpleFront front := by
  cases s with
  | expr e =>
    have hfront := (written_concat_iff.mp h).1
    have hnone := Expr.not_isBoundary hcan hfront
    obtain ⟨t, more, rfl, hbegins⟩ := Expr.written_begins hcan hfront
    have ht := hnone t List.mem_cons_self
    refine SimpleFront.append (simpleFront_singleton (fun hk => ht (Or.inl hk)) ?_)
      (fun u hu => hnone u (List.mem_cons_of_mem t hu))
    refine ⟨?_, ?_, ?_⟩ <;>
    · intro hk
      rw [hk] at hbegins
      simp [Expr.Begins] at hbegins
  | print keyword e =>
    rw [marks, ← List.cons_append, written_concat_iff] at h
    obtain ⟨t, inner, rfl, rfl, hinner⟩ := written_cons_iff.mp h.1
    refine SimpleFront.append (simpleFront_singleton ?_ ?_) (Expr.not_isBoundary hcan.2 hinner)
    all_goals
      rw [hcan.1]
      decide
  | declare name init =>
    obtain ⟨-, t, inner, rfl, ht, hinner⟩ := written_declare_iff.mp h
    have hname : name.kind = .identifier := by
      cases init with
      | none => exact hcan
      | some e => exact hcan.1
    have hinit : ∀ u ∈ inner, ¬ u.kind.IsBoundary := by
      cases init with
      | none =>
        obtain rfl := written_nil_iff.mp hinner
        exact fun u hu => by cases hu
      | some e =>
        obtain ⟨v, inner, rfl, hv, hinner⟩ := written_cons_iff.mp hinner
        refine List.forall_mem_cons.mpr ⟨?_, Expr.not_isBoundary hcan.2 hinner⟩
        rw [show v.kind = _ from hv]
        decide
    refine SimpleFront.append (simpleFront_singleton ?_ ?_) (List.forall_mem_cons.mpr ⟨?_, hinit⟩)
    · rw [ht]
      decide
    · rw [ht]
      decide
    · rw [hname]
      decide
  | _ => cases hs

/-- The kinds that begin a statement that is not simple, or end a block or the branch before an
`else`. -/
def TokenKind.isStructural : TokenKind → Bool
  | .symbol .leftBrace | .symbol .rightBrace | .keyword .kwElse | .keyword .kwIf
  | .keyword .kwWhile => true
  | _ => false

/-- Something follows here, and a simple statement may begin with it. -/
def Resumes (ts : List Token) : Prop := ∃ t ∈ ts.head?, ¬ t.kind.isStructural

lemma Resumes.of_append {ts more : List Token} {t : Token} (h : Resumes (ts ++ t :: more))
    (ht : t.kind.isStructural) : Resumes ts := by
  cases ts with
  | nil =>
    obtain ⟨u, hu, hk⟩ := h
    cases hu
    exact absurd ht hk
  | cons u ts => exact h

lemma Resumes.ne_nil {ts : List Token} (h : Resumes ts) : ts ≠ [] := by
  rintro rfl
  obtain ⟨t, ht, -⟩ := h
  cases ht

namespace Stmt
variable {s : Stmt} {u v ts : List Token} {t stop : Token}

lemma isSimple_of_isDeclaration (h : s.isDeclaration) : s.isSimple := by
  cases s with
  | declare name init => rfl
  | _ => cases h

lemma eq_nil_of_isSimple (hs : s.isSimple) (hcan : s.Canonical)
    (hw : Written s.marks (u ++ stop :: v)) (hstop : stop.kind = .symbol .semicolon) : v = [] := by
  rcases List.eq_nil_or_concat' v with rfl | ⟨v, last, rfl⟩
  · rfl
  · rw [← List.cons_append, ← List.append_assoc] at hw
    exact absurd hstop ((Stmt.simpleFront hs hcan hw).free stop
      (List.mem_append_right u List.mem_cons_self))

lemma exists_stop (hs : s.isSimple) (hw : Written s.marks ts) :
    ∃ front stop, ts = front ++ [stop] ∧ stop.kind = .symbol .semicolon := by
  have hmarks : ∃ m, s.marks = m ++ [.kind (.symbol .semicolon)] := by
    cases s with
    | expr e => exact ⟨_, rfl⟩
    | print keyword e => exact ⟨.exactly keyword :: e.marks, rfl⟩
    | declare name init =>
      cases init with
      | none => exact ⟨[_, _], rfl⟩
      | some e => exact ⟨_ :: _ :: _ :: e.marks, rfl⟩
    | _ => cases hs
  obtain ⟨m, hm⟩ := hmarks
  rw [hm] at hw
  obtain ⟨front, back, rfl, -, hback⟩ := written_append_iff.mp hw
  obtain ⟨stop, none, rfl, hstop, hnone⟩ := written_cons_iff.mp hback
  obtain rfl := written_nil_iff.mp hnone
  exact ⟨front, stop, rfl, hstop⟩

lemma isSimple_of_front (hw : Written s.marks (t :: ts)) (ht : ¬ t.kind.isStructural) :
    s.isSimple := by
  have hk {k : TokenKind} {m : List Mark} (hw : Written (.kind k :: m) (t :: ts)) : t.kind = k := by
    obtain ⟨u, _, heq, hu, -⟩ := written_cons_iff.mp hw
    obtain ⟨rfl, -⟩ := List.cons.inj heq
    exact hu
  cases s with
  | expr e | print keyword e | declare name init => rfl
  | block body | ifThen c yes | ifElse c yes no | whileDo c body =>
    rw [hk hw] at ht
    exact absurd rfl ht

lemma exists_front (hcan : s.Canonical) (hw : Written s.marks (u ++ stop :: v))
    (hstop : stop.kind = .symbol .semicolon) :
    ∃ t more, u = t :: more ∧ t.kind ≠ .symbol .rightBrace := by
  obtain ⟨t, more, heq, -, hbrace⟩ := Stmt.written_front hcan hw
  cases u with
  | nil =>
    obtain ⟨rfl, -⟩ := List.cons.inj heq
    have hs : s.isSimple := isSimple_of_front hw (by rw [hstop]; decide)
    obtain rfl := eq_nil_of_isSimple hs hcan hw hstop
    exact absurd rfl (Stmt.simpleFront hs hcan hw).ne_nil
  | cons u more =>
    obtain ⟨rfl, -⟩ := List.cons.inj heq
    exact ⟨u, more, rfl, hbrace⟩

end Stmt

end Scriptlet
