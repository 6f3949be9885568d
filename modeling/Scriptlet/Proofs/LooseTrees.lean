import Scriptlet.Proofs.CanonicalForm

/-!
# Loose trees

In a loose tree any expression that could be an operand of `==` may stand on the left of `=`. Where
that is no bare name, the `=` is kept as an operator between the two sides, and is misplaced. A
loose tree settles to one in which such an operator gives way to its left side. In everything else
loose trees are canonical: a loose tree without a misplaced `=` is canonical and settles to itself.
-/

namespace Scriptlet
namespace Expr

/-- Canonical but for `=`, which may stand behind anything that is not an assignment itself. -/
def Loose : Expr → Prop
  | literal _ => True
  | grouping e => e.Loose
  | unary op e =>
    (op.kind = .symbol .bang ∨ op.kind = .symbol .minus) ∧ e.rank = 5 ∧ e.Loose
  | binary l op r =>
    ((op.kind = .symbol .equal ∧ 0 < l.rank ∧ ∀ name, l ≠ ref name) ∨
      ∃ p, op.kind.precedence? = some p ∧ p ≤ l.rank ∧ p < r.rank) ∧ l.Loose ∧ r.Loose
  | ref name => name.kind = .identifier
  | assign name e => name.kind = .identifier ∧ e.Loose

/-- Each misplaced `=` gives way to its left side. -/
def settle : Expr → Expr
  | literal v => literal v
  | grouping e => grouping e.settle
  | unary op e => unary op e.settle
  | binary l op r => if op.kind = .symbol .equal then l.settle else binary l.settle op r.settle
  | ref name => ref name
  | assign name e => assign name e.settle

/-- Every misplaced `=`, behind those of its left side and those of its right side. -/
def misplaced : Expr → List Token
  | literal _ | ref _ => []
  | grouping e | unary _ e | assign _ e => e.misplaced
  | binary l op r =>
    l.misplaced ++ r.misplaced ++ if op.kind = .symbol .equal then [op] else []

section operator
variable {l r e right : Expr} {o op : Token} {p : Nat}

lemma ne_equal_of_precedence? {k : TokenKind} (h : k.precedence? = some p) :
    k ≠ .symbol .equal := by
  rintro rfl
  cases h

lemma exists_precedence?_of_rank (h : 0 < (binary l o r).rank) :
    ∃ q, o.kind.precedence? = some q := by
  cases ho : o.kind.precedence? with
  | none =>
    rw [rank, ho, Option.getD_none] at h
    exact absurd h (Nat.lt_irrefl 0)
  | some q => exact ⟨q, rfl⟩

lemma settle_binary (h : o.kind ≠ .symbol .equal) :
    (binary l o r).settle = binary l.settle o r.settle := by
  rw [settle, if_neg h]

lemma misplaced_binary (h : o.kind ≠ .symbol .equal) :
    (binary l o r).misplaced = l.misplaced ++ r.misplaced := by
  rw [misplaced, if_neg h, List.append_nil]

lemma loose_binary (h : o.kind.precedence? = some p) :
    (binary l o r).Loose ↔ p ≤ l.rank ∧ p < r.rank ∧ l.Loose ∧ r.Loose := by
  simp [Loose, h, ne_equal_of_precedence? h, and_assoc]

lemma settle_eq_ref_iff {name : Token} (h : 0 < e.rank) : e.settle = ref name ↔ e = ref name := by
  cases e with
  | binary l o r =>
    obtain ⟨q, ho⟩ := exists_precedence?_of_rank h
    simp [settle_binary (ne_equal_of_precedence? ho)]
  | _ => simp [settle]

lemma Loose.rank_right (h : (binary l o r).Loose) (ho : o.kind.precedence? = some p) :
    0 < r.rank :=
  Nat.lt_of_le_of_lt (Nat.zero_le p) ((loose_binary ho).mp h).2.1

lemma loose_attach (hop : op.kind.precedence? = some p) (he : e.Loose) (hr : right.Loose)
    (hrank : 0 < e.rank) (hright : right.rank = 5) :
    (e.attach op right).Loose ∧ (e.attach op right).rank = min e.rank p :=
  attach_of_binary (fun _ _ _ _ => loose_binary) hop he hr hrank hright

lemma settle_attach (hop : op.kind.precedence? = some p) (he : e.Loose) (hrank : 0 < e.rank) :
    (e.attach op right).settle = e.settle.attach op right.settle := by
  have hequal := ne_equal_of_precedence? hop
  induction e with
  | binary l o r _ ih =>
    obtain ⟨q, ho⟩ := exists_precedence?_of_rank hrank
    have hrank' : (binary l.settle o r.settle).rank = q := by rw [rank, ho, Option.getD_some]
    rw [settle_binary (ne_equal_of_precedence? ho)]
    by_cases h : q < p
    · rw [attach_binary ho hop h, attach_binary ho hop h, settle_binary (ne_equal_of_precedence? ho),
        ih ((loose_binary ho).mp he).2.2.2 (he.rank_right ho)]
    · have hle : p ≤ (binary l o r).rank := by
        rw [rank, ho, Option.getD_some]
        exact Nat.not_lt.mp h
      rw [attach_eq_binary hop hle, attach_eq_binary hop (hrank' ▸ Nat.not_lt.mp h),
        settle_binary hequal, settle_binary (ne_equal_of_precedence? ho)]
  | assign name e => exact absurd hrank (Nat.lt_irrefl 0)
  | _ => exact settle_binary hequal

lemma misplaced_attach (hop : op.kind.precedence? = some p) (he : e.Loose) (hrank : 0 < e.rank) :
    (e.attach op right).misplaced = e.misplaced ++ right.misplaced := by
  have hequal := ne_equal_of_precedence? hop
  induction e with
  | binary l o r _ ih =>
    obtain ⟨q, ho⟩ := exists_precedence?_of_rank hrank
    by_cases h : q < p
    · rw [attach_binary ho hop h, misplaced_binary (ne_equal_of_precedence? ho),
        ih ((loose_binary ho).mp he).2.2.2 (he.rank_right ho), ← List.append_assoc,
        ← misplaced_binary (ne_equal_of_precedence? ho)]
    · have hle : p ≤ (binary l o r).rank := by
        rw [rank, ho, Option.getD_some]
        exact Nat.not_lt.mp h
      rw [attach_eq_binary hop hle, misplaced_binary hequal]
  | assign name e => exact absurd hrank (Nat.lt_irrefl 0)
  | _ => exact misplaced_binary hequal

end operator

lemma Loose.canonical {e : Expr} (he : e.Loose) (h : e.misplaced = []) :
    e.Canonical ∧ e.settle = e := by
  induction e with
  | literal v => exact ⟨trivial, rfl⟩
  | ref name => exact ⟨he, rfl⟩
  | grouping e ih =>
    obtain ⟨hcan, hsettle⟩ := ih he h
    exact ⟨hcan, congrArg grouping hsettle⟩
  | unary op e ih =>
    obtain ⟨hcan, hsettle⟩ := ih he.2.2 h
    exact ⟨⟨he.1, he.2.1, hcan⟩, congrArg (unary op) hsettle⟩
  | assign name e ih =>
    obtain ⟨hcan, hsettle⟩ := ih he.2 h
    exact ⟨⟨he.1, hcan⟩, congrArg (assign name) hsettle⟩
  | binary l o r ihl ihr =>
    have ho : o.kind ≠ .symbol .equal := by
      intro ho
      rw [misplaced, if_pos ho] at h
      exact List.append_ne_nil_of_right_ne_nil _ (List.cons_ne_nil o []) h
    rw [misplaced_binary ho, List.append_eq_nil_iff] at h
    obtain ⟨hop, hl, hr⟩ := he
    obtain ⟨p, hp, hlp, hpr⟩ := hop.resolve_left (fun hequal => ho hequal.1)
    obtain ⟨hlcan, hlsettle⟩ := ihl hl h.1
    obtain ⟨hrcan, hrsettle⟩ := ihr hr h.2
    exact ⟨⟨p, hp, hlp, hpr, hlcan, hrcan⟩, by rw [settle_binary ho, hlsettle, hrsettle]⟩

end Expr

namespace Stmt

mutual

/-- The same for statements, whose branches and bodies are as in canonical ones. -/
def Loose : Stmt → Prop
  | expr e => e.Loose
  | print keyword e => keyword.kind = .keyword .kwPrint ∧ e.Loose
  | declare name none => name.kind = .identifier
  | declare name (some e) => name.kind = .identifier ∧ e.Loose
  | block body => LooseAll body
  | ifThen condition yes => condition.Loose ∧ yes.Loose ∧ ¬ yes.isDeclaration
  | ifElse condition yes no =>
    condition.Loose ∧ yes.Loose ∧ ¬ yes.isDeclaration ∧ ¬ yes.endsOpen ∧
      no.Loose ∧ ¬ no.isDeclaration
  | whileDo condition body => condition.Loose ∧ body.Loose ∧ ¬ body.isDeclaration

def LooseAll : List Stmt → Prop
  | [] => True
  | s :: rest => s.Loose ∧ LooseAll rest

end

mutual

def settle : Stmt → Stmt
  | expr e => expr e.settle
  | print keyword e => print keyword e.settle
  | declare name none => declare name none
  | declare name (some e) => declare name (some e.settle)
  | block body => block (settleAll body)
  | ifThen condition yes => ifThen condition.settle yes.settle
  | ifElse condition yes no => ifElse condition.settle yes.settle no.settle
  | whileDo condition body => whileDo condition.settle body.settle

def settleAll : List Stmt → List Stmt
  | [] => []
  | s :: rest => s.settle :: settleAll rest

end

mutual

/-- Every misplaced `=` of the expressions of a statement, in their order. -/
def misplaced : Stmt → List Token
  | expr e | print _ e | declare _ (some e) => e.misplaced
  | declare _ none => []
  | block body => misplacedAll body
  | ifThen condition yes => condition.misplaced ++ yes.misplaced
  | ifElse condition yes no => condition.misplaced ++ yes.misplaced ++ no.misplaced
  | whileDo condition body => condition.misplaced ++ body.misplaced

def misplacedAll : List Stmt → List Token
  | [] => []
  | s :: rest => s.misplaced ++ misplacedAll rest

end

mutual

lemma Loose.canonical {s : Stmt} (hs : s.Loose) (h : s.misplaced = []) :
    s.Canonical ∧ s.settle = s := by
  cases s with
  | expr e =>
    obtain ⟨hcan, hsettle⟩ := Expr.Loose.canonical hs h
    exact ⟨hcan, congrArg expr hsettle⟩
  | print keyword e =>
    obtain ⟨hcan, hsettle⟩ := Expr.Loose.canonical hs.2 h
    exact ⟨⟨hs.1, hcan⟩, congrArg (print keyword) hsettle⟩
  | declare name init =>
    cases init with
    | none => exact ⟨hs, rfl⟩
    | some e =>
      obtain ⟨hcan, hsettle⟩ := Expr.Loose.canonical hs.2 h
      exact ⟨⟨hs.1, hcan⟩, congrArg (fun e => declare name (some e)) hsettle⟩
  | block body =>
    obtain ⟨hcan, hsettle⟩ := LooseAll.canonicalAll hs h
    exact ⟨hcan, congrArg block hsettle⟩
  | ifThen condition yes =>
    obtain ⟨hc, hyes, hplain⟩ := hs
    obtain ⟨hnone, hnone'⟩ := List.append_eq_nil_iff.mp h
    obtain ⟨hccan, hcsettle⟩ := hc.canonical hnone
    obtain ⟨hycan, hysettle⟩ := Loose.canonical hyes hnone'
    exact ⟨⟨hccan, hycan, hplain⟩, by rw [settle, hcsettle, hysettle]⟩
  | ifElse condition yes no =>
    obtain ⟨hc, hyes, hyplain, hopen, hno, hnplain⟩ := hs
    obtain ⟨hnone, hnone''⟩ := List.append_eq_nil_iff.mp h
    obtain ⟨hnone, hnone'⟩ := List.append_eq_nil_iff.mp hnone
    obtain ⟨hccan, hcsettle⟩ := hc.canonical hnone
    obtain ⟨hycan, hysettle⟩ := Loose.canonical hyes hnone'
    obtain ⟨hncan, hnsettle⟩ := Loose.canonical hno hnone''
    exact ⟨⟨hccan, hycan, hyplain, hopen, hncan, hnplain⟩,
      by rw [settle, hcsettle, hysettle, hnsettle]⟩
  | whileDo condition body =>
    obtain ⟨hc, hbody, hplain⟩ := hs
    obtain ⟨hnone, hnone'⟩ := List.append_eq_nil_iff.mp h
    obtain ⟨hccan, hcsettle⟩ := hc.canonical hnone
    obtain ⟨hbcan, hbsettle⟩ := Loose.canonical hbody hnone'
    exact ⟨⟨hccan, hbcan, hplain⟩, by rw [settle, hcsettle, hbsettle]⟩

lemma LooseAll.canonicalAll {body : List Stmt} (hs : LooseAll body) (h : misplacedAll body = []) :
    CanonicalAll body ∧ settleAll body = body := by
  cases body with
  | nil => exact ⟨trivial, rfl⟩
  | cons s rest =>
    obtain ⟨hnone, hnone'⟩ := List.append_eq_nil_iff.mp h
    obtain ⟨hcan, hsettle⟩ := Loose.canonical hs.1 hnone
    obtain ⟨hcan', hsettle'⟩ := LooseAll.canonicalAll hs.2 hnone'
    exact ⟨⟨hcan, hcan'⟩, by rw [settleAll, hsettle, hsettle']⟩

end

end Stmt
end Scriptlet
