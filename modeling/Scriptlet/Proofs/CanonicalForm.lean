import Scriptlet.Proofs.ConcreteSyntax

/-!
# Canonical trees

A tree is canonical when its shape agrees with the precedences of its operators, with their
grouping to the left, with assignment being the loosest operation, and with each `else` belonging
to the nearest `if`. A canonical expression is its leftmost operand with operators and operands
attached to it one after the other.
-/

namespace Scriptlet
namespace Expr

/-- How tightly the outermost operation holds an expression together: an assignment least, a
binary operator by its precedence, and everything that is an operand most. -/
def rank : Expr → Nat
  | assign _ _ => 0
  | binary _ op _ => op.kind.precedence?.getD 0
  | _ => 5

/-- Operators of one precedence group to the left, so only a left operand may have the rank of
its operator. An assignment stands beside no operator. -/
def Canonical : Expr → Prop
  | literal _ => True
  | grouping e => e.Canonical
  | unary op e =>
    (op.kind = .symbol .bang ∨ op.kind = .symbol .minus) ∧ e.rank = 5 ∧ e.Canonical
  | binary l op r =>
    ∃ p, op.kind.precedence? = some p ∧ p ≤ l.rank ∧ p < r.rank ∧ l.Canonical ∧ r.Canonical
  | ref name => name.kind = .identifier
  | assign name e => name.kind = .identifier ∧ e.Canonical

/-- The greatest number of groupings, unary operators and assignments around a part. -/
def nest : Expr → Nat
  | literal _ | ref _ => 0
  | grouping e | unary _ e | assign _ e => e.nest + 1
  | binary l _ r => max l.nest r.nest

lemma precedence?_bounds {k : TokenKind} {p : Nat} (h : k.precedence? = some p) :
    0 < p ∧ p < 5 := by
  cases k with
  | symbol s => cases s <;> simp_all [TokenKind.precedence?, Symbol.precedence?] <;> omega
  | _ => cases h

lemma Canonical.rank_pos_or_assign {e : Expr} (he : e.Canonical) :
    0 < e.rank ∨ ∃ name value, e = assign name value := by
  cases e with
  | assign name value => exact Or.inr ⟨name, value, rfl⟩
  | binary l op r =>
    obtain ⟨p, hop, -⟩ := he
    have hp := precedence?_bounds hop
    rw [rank, hop, Option.getD_some]
    exact Or.inl hp.1
  | _ => exact Or.inl (Nat.succ_pos 4)

section attach
variable {op : Token} {right : Expr}

lemma marks_attach (e : Expr) (op : Token) (right : Expr) :
    (e.attach op right).marks = e.marks ++ .exactly op :: right.marks := by
  induction e with
  | binary l o r _ ih =>
    rw [attach]
    split
    · simp only [marks, ih, List.append_assoc, List.cons_append]
    · rfl
  | _ => rfl

lemma nest_attach (e : Expr) (op : Token) (right : Expr) :
    (e.attach op right).nest = max e.nest right.nest := by
  induction e with
  | binary l o r _ ih =>
    rw [attach]
    split
    · simp only [nest, ih, Nat.max_assoc]
    · rfl
  | _ => rfl

lemma attach_eq_binary {e : Expr} {p : Nat} (hop : op.kind.precedence? = some p)
    (h : p ≤ e.rank) : e.attach op right = .binary e op right := by
  cases e with
  | binary l o r =>
    have h' : ¬ o.kind.precedence?.getD 0 < p := Nat.not_lt.mpr h
    rw [attach, hop, Option.getD_some, if_neg h']
  | _ => rfl

lemma attach_binary {l r : Expr} {o : Token} {p q : Nat} (ho : o.kind.precedence? = some p)
    (hop : op.kind.precedence? = some q) (h : p < q) :
    (binary l o r).attach op right = .binary l o (r.attach op right) := by
  rw [attach, ho, hop, Option.getD_some, Option.getD_some, if_pos h]

/-- Attaching keeps a shape that asks of an operator no more than the ranks of its operands, and the
loosest operator stays outermost. -/
lemma attach_of_binary {P : Expr → Prop} {e : Expr} {p : Nat}
    (hP : ∀ l o r q, o.kind.precedence? = some q →
      (P (binary l o r) ↔ q ≤ l.rank ∧ q < r.rank ∧ P l ∧ P r))
    (hop : op.kind.precedence? = some p) (he : P e) (hr : P right) (hrank : 0 < e.rank)
    (hright : right.rank = 5) : P (e.attach op right) ∧ (e.attach op right).rank = min e.rank p := by
  have hp := precedence?_bounds hop
  have hbinary (e : Expr) : (binary e op right).rank = p := by rw [rank, hop, Option.getD_some]
  induction e with
  | binary l o r _ ih =>
    cases ho : o.kind.precedence? with
    | none =>
      rw [rank, ho, Option.getD_none] at hrank
      exact absurd hrank (Nat.lt_irrefl 0)
    | some q =>
      obtain ⟨hl, hqr, hlP, hrP⟩ := (hP l o r q ho).mp he
      have hq := precedence?_bounds ho
      have hrank' (r : Expr) : (binary l o r).rank = q := by rw [rank, ho, Option.getD_some]
      by_cases h : q < p
      · obtain ⟨hc, hk⟩ := ih hrP (by omega)
        rw [attach_binary ho hop h]
        refine ⟨(hP l o _ q ho).mpr ⟨hl, by omega, hlP, hc⟩, ?_⟩
        rw [hrank', hrank']
        omega
      · rw [attach_eq_binary hop (by rw [hrank']; omega)]
        refine ⟨(hP _ op right p hop).mpr ⟨by rw [hrank']; omega, by omega, he, hr⟩, ?_⟩
        rw [hbinary, hrank']
        omega
  | assign name e => exact absurd hrank (Nat.lt_irrefl 0)
  | _ =>
    refine ⟨(hP _ op right p hop).mpr ⟨?_, by omega, he, hr⟩, (hbinary _).trans ?_⟩
    · simp only [rank]
      omega
    · simp only [rank]
      omega

lemma canonical_attach {e : Expr} {p : Nat} (hop : op.kind.precedence? = some p)
    (he : e.Canonical) (hr : right.Canonical) (hrank : 0 < e.rank) (hright : right.rank = 5) :
    (e.attach op right).Canonical ∧ (e.attach op right).rank = min e.rank p :=
  attach_of_binary (fun l o r q ho => by simp [Canonical, ho]) hop he hr hrank hright

end attach

/-- The leftmost operand. -/
def first : Expr → Expr
  | binary l _ _ => l.first
  | e => e

/-- The operators that are not inside an operand, in order, each with the operand behind it. -/
def chain : Expr → List (Token × Expr)
  | binary l op r => l.chain ++ (op, r.first) :: r.chain
  | _ => []

/-- Attaches operators with their right operands one after the other. -/
def attachAll (e : Expr) (ops : List (Token × Expr)) : Expr :=
  ops.foldl (fun e x => e.attach x.1 x.2) e

def chainMarks (ops : List (Token × Expr)) : List Mark :=
  ops.flatMap (fun x => .exactly x.1 :: x.2.marks)

lemma marks_eq_chain (e : Expr) : e.marks = e.first.marks ++ chainMarks e.chain := by
  induction e with
  | binary l op r ihl ihr =>
    rw [marks, ihl, ihr]
    simp only [first, chain, chainMarks, List.flatMap_append, List.flatMap_cons,
      List.append_assoc, List.cons_append]
  | _ => simp only [first, chain, chainMarks, List.flatMap_nil, List.append_nil]

lemma nest_lt_iff_chain (e : Expr) (n : Nat) :
    e.nest < n ↔ e.first.nest < n ∧ ∀ x ∈ e.chain, x.2.nest < n := by
  induction e with
  | binary l op r ihl ihr =>
    rw [nest, Nat.max_lt, ihl, ihr]
    simp only [first, chain, List.forall_mem_append, List.forall_mem_cons]
    tauto
  | _ => simp [first, chain]

/-- An operand of a chain with its operator. -/
def IsStep (x : Token × Expr) : Prop :=
  (∃ p, x.1.kind.precedence? = some p) ∧ x.2.Canonical ∧ x.2.rank = 5

lemma canonical_first {e : Expr} (he : e.Canonical) (hrank : 0 < e.rank) :
    e.first.Canonical ∧ e.first.rank = 5 := by
  induction e with
  | binary l op r ihl _ =>
    obtain ⟨p, hop, hl, _, hlc, _⟩ := he
    have hp := precedence?_bounds hop
    exact ihl hlc (by omega)
  | assign name e => exact absurd hrank (Nat.lt_irrefl 0)
  | _ => exact ⟨he, rfl⟩

lemma isStep_chain {e : Expr} (he : e.Canonical) (hrank : 0 < e.rank) :
    ∀ x ∈ e.chain, IsStep x ∧ e.rank ≤ x.1.kind.precedence?.getD 0 := by
  induction e with
  | binary l op r ihl ihr =>
    obtain ⟨p, hop, hl, hr, hlc, hrc⟩ := he
    have hp := precedence?_bounds hop
    have hrank' : (binary l op r).rank = p := by rw [rank, hop, Option.getD_some]
    intro x hx
    rw [chain, List.mem_append, List.mem_cons] at hx
    rw [hrank']
    rcases hx with hx | rfl | hx
    · obtain ⟨hs, hk⟩ := ihl hlc (by omega) x hx
      exact ⟨hs, by omega⟩
    · exact ⟨⟨⟨p, hop⟩, canonical_first hrc (by omega)⟩, by simp [hop]⟩
    · obtain ⟨hs, hk⟩ := ihr hrc (by omega) x hx
      exact ⟨hs, by omega⟩
  | _ =>
    intro x hx
    cases hx

lemma attachAll_binary {l r : Expr} {o : Token} {p : Nat} (ho : o.kind.precedence? = some p)
    {ops : List (Token × Expr)}
    (h : ∀ x ∈ ops, IsStep x ∧ p < x.1.kind.precedence?.getD 0) :
    (binary l o r).attachAll ops = .binary l o (r.attachAll ops) := by
  induction ops generalizing r with
  | nil => rfl
  | cons x ops ih =>
    rw [List.forall_mem_cons] at h
    obtain ⟨⟨⟨⟨q, hq⟩, -⟩, hpq⟩, hops⟩ := h
    rw [hq, Option.getD_some] at hpq
    unfold attachAll at ih ⊢
    rw [List.foldl_cons, List.foldl_cons, attach_binary ho hq hpq, ih hops]

lemma attachAll_chain {e : Expr} (he : e.Canonical) (hrank : 0 < e.rank) :
    e.first.attachAll e.chain = e := by
  induction e with
  | binary l op r ihl ihr =>
    obtain ⟨p, hop, hl, hr, hlc, hrc⟩ := he
    have hp := precedence?_bounds hop
    have hsteps : ∀ x ∈ r.chain, IsStep x ∧ p < x.1.kind.precedence?.getD 0 := by
      intro x hx
      obtain ⟨hs, hk⟩ := isStep_chain hrc (by omega) x hx
      exact ⟨hs, by omega⟩
    calc (binary l op r).first.attachAll (binary l op r).chain
        = ((l.first.attachAll l.chain).attach op r.first).attachAll r.chain := by
          simp only [first, chain, attachAll, List.foldl_append, List.foldl_cons]
      _ = (binary l op r.first).attachAll r.chain := by
          rw [ihl hlc (by omega), attach_eq_binary hop hl]
      _ = binary l op (r.first.attachAll r.chain) := attachAll_binary hop hsteps
      _ = binary l op r := by rw [ihr hrc (by omega)]
  | _ => rfl

/-- The kinds with which an expression can begin. -/
def Begins (k : TokenKind) : Prop :=
  k = .symbol .bang ∨ k = .symbol .minus ∨ k = .symbol .leftParen ∨ k = .keyword .kwFalse ∨
    k = .keyword .kwTrue ∨ k = .keyword .kwNil ∨ k = .number ∨ k = .string ∨ k = .identifier

lemma begins_of_denotes? {t : Token} {v : Value} (h : t.denotes? = some v) : Begins t.kind := by
  unfold Token.denotes? at h
  split at h <;> simp_all [Begins]

lemma written_begins {e : Expr} (he : e.Canonical) {ts : List Token} (h : Written e.marks ts) :
    ∃ t more, ts = t :: more ∧ Begins t.kind := by
  induction e generalizing ts with
  | literal v =>
    obtain ⟨t, more, rfl, hv, -⟩ := written_cons_iff.mp h
    exact ⟨t, more, rfl, begins_of_denotes? hv⟩
  | grouping e =>
    obtain ⟨t, more, rfl, hk, -⟩ := written_cons_iff.mp h
    exact ⟨t, more, rfl, by simp_all [Mark.Fits, Begins]⟩
  | unary op e =>
    obtain ⟨t, more, rfl, rfl, -⟩ := written_cons_iff.mp h
    exact ⟨t, more, rfl, by rcases he.1 with hk | hk <;> simp [hk, Begins]⟩
  | binary l op r ihl _ =>
    obtain ⟨p, -, -, -, hlc, -⟩ := he
    obtain ⟨front, back, rfl, hl, -⟩ := written_append_iff.mp h
    obtain ⟨t, more, rfl, hk⟩ := ihl hlc hl
    exact ⟨t, more ++ back, rfl, hk⟩
  | ref name =>
    obtain ⟨t, more, rfl, rfl, -⟩ := written_cons_iff.mp h
    exact ⟨t, more, rfl, by simp_all [Canonical, Begins]⟩
  | assign name e =>
    obtain ⟨t, more, rfl, rfl, -⟩ := written_cons_iff.mp h
    exact ⟨t, more, rfl, by simp_all [Canonical, Begins]⟩

end Expr

namespace Stmt

def isDeclaration : Stmt → Bool
  | declare _ _ => true
  | _ => false

/-- Whether the statement ends in an `if` without `else`, which an `else` behind it would join. -/
def endsOpen : Stmt → Bool
  | ifThen _ _ => true
  | ifElse _ _ no => no.endsOpen
  | whileDo _ body => body.endsOpen
  | _ => false

mutual

/-- No branch or loop body is a declaration, and no `else` stands behind a branch that would
have taken it. -/
def Canonical : Stmt → Prop
  | expr e => e.Canonical
  | print keyword e => keyword.kind = .keyword .kwPrint ∧ e.Canonical
  | declare name none => name.kind = .identifier
  | declare name (some e) => name.kind = .identifier ∧ e.Canonical
  | block body => CanonicalAll body
  | ifThen condition yes => condition.Canonical ∧ yes.Canonical ∧ ¬ yes.isDeclaration
  | ifElse condition yes no =>
    condition.Canonical ∧ yes.Canonical ∧ ¬ yes.isDeclaration ∧ ¬ yes.endsOpen ∧
      no.Canonical ∧ ¬ no.isDeclaration
  | whileDo condition body => condition.Canonical ∧ body.Canonical ∧ ¬ body.isDeclaration

def CanonicalAll : List Stmt → Prop
  | [] => True
  | s :: rest => s.Canonical ∧ CanonicalAll rest

end

mutual

/-- The greatest number of groupings, unary operators, assignments, blocks, branches and loop
bodies around a part. -/
def nest : Stmt → Nat
  | expr e | print _ e | declare _ (some e) => e.nest
  | declare _ none => 0
  | block body => nestAll body + 1
  | ifThen condition yes => max condition.nest (yes.nest + 1)
  | ifElse condition yes no => max condition.nest (max (yes.nest + 1) (no.nest + 1))
  | whileDo condition body => max condition.nest (body.nest + 1)

def nestAll : List Stmt → Nat
  | [] => 0
  | s :: rest => max s.nest (nestAll rest)

end

lemma canonicalAll_append {xs ys : List Stmt} :
    CanonicalAll (xs ++ ys) ↔ CanonicalAll xs ∧ CanonicalAll ys := by
  induction xs with
  | nil => simp [CanonicalAll]
  | cons s rest ih => rw [List.cons_append, CanonicalAll, CanonicalAll, ih, and_assoc]

lemma nestAll_append (xs ys : List Stmt) :
    nestAll (xs ++ ys) = max (nestAll xs) (nestAll ys) := by
  induction xs with
  | nil => simp [nestAll]
  | cons s rest ih => rw [List.cons_append, nestAll, nestAll, ih, Nat.max_assoc]

lemma nestAll_le_iff {xs : List Stmt} {n : Nat} : nestAll xs ≤ n ↔ ∀ s ∈ xs, s.nest ≤ n := by
  induction xs with
  | nil => simp [nestAll]
  | cons s rest ih => rw [nestAll, Nat.max_le, ih, List.forall_mem_cons]

/-- The kinds with which a statement that is no declaration can begin. -/
def Begins (k : TokenKind) : Prop :=
  Expr.Begins k ∨ k = .keyword .kwIf ∨ k = .keyword .kwWhile ∨ k = .keyword .kwPrint ∨
    k = .symbol .leftBrace

lemma written_begins {s : Stmt} (hs : s.Canonical) (hplain : ¬ s.isDeclaration)
    {ts : List Token} (h : Written s.marks ts) : ∃ t more, ts = t :: more ∧ Begins t.kind := by
  cases s with
  | expr e =>
    obtain ⟨front, back, rfl, he, -⟩ := written_append_iff.mp h
    obtain ⟨t, more, rfl, hk⟩ := Expr.written_begins hs he
    exact ⟨t, more ++ back, rfl, Or.inl hk⟩
  | print keyword e =>
    obtain ⟨t, more, rfl, rfl, -⟩ := written_cons_iff.mp h
    exact ⟨t, more, rfl, by simp [Begins, hs.1]⟩
  | declare name init => exact absurd rfl hplain
  | _ =>
    obtain ⟨t, more, rfl, hk, -⟩ := written_cons_iff.mp h
    exact ⟨t, more, rfl, by simp_all [Mark.Fits, Begins]⟩

lemma not_begins_var : ¬ Begins (.keyword .kwVar) := by
  simp [Begins, Expr.Begins]

lemma written_front {s : Stmt} (hs : s.Canonical) {ts : List Token} (h : Written s.marks ts) :
    ∃ t more, ts = t :: more ∧ t.kind ≠ .keyword .kwElse ∧ t.kind ≠ .symbol .rightBrace := by
  by_cases hplain : s.isDeclaration
  · cases s with
    | declare name init =>
      cases init <;>
      · obtain ⟨t, more, rfl, hk, -⟩ := written_cons_iff.mp h
        exact ⟨t, more, rfl, by simp_all [Mark.Fits]⟩
    | _ => cases hplain
  · obtain ⟨t, more, rfl, hk⟩ := written_begins hs hplain h
    refine ⟨t, more, rfl, ?_, ?_⟩ <;>
    · intro ht
      rw [ht] at hk
      simp [Begins, Expr.Begins] at hk

end Stmt
end Scriptlet
