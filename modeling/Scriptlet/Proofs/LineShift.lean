import Scriptlet.Proofs.CanonicalForm

/-!
# Lines further down

Of a token only the line depends on where in a source it stands. A tree whose tokens all stand
some lines further down is written by tokens that do, and keeps its shape.
-/

namespace Scriptlet

def Token.down (k : Nat) (t : Token) : Token := { t with line := t.line + k }

@[simp] lemma Token.kind_down (k : Nat) (t : Token) : (t.down k).kind = t.kind := rfl

@[simp] lemma Token.lexeme_down (k : Nat) (t : Token) : (t.down k).lexeme = t.lexeme := rfl

@[simp] def Mark.down (k : Nat) : Mark → Mark
  | exactly t => exactly (t.down k)
  | m => m

lemma Written.down {m : List Mark} {ts : List Token} (h : Written m ts) (k : Nat) :
    Written (m.map (Mark.down k)) (ts.map (Token.down k)) := by
  unfold Written at h ⊢
  rw [List.forall₂_map_left_iff, List.forall₂_map_right_iff]
  apply h.imp
  intro mark t hfits
  cases mark with
  | exactly kept => exact congrArg (Token.down k) hfits
  | kind _ => exact hfits
  | denoting v => exact hfits

namespace Expr
variable (k : Nat)

def down : Expr → Expr
  | literal v => literal v
  | grouping e => grouping e.down
  | unary op e => unary (op.down k) e.down
  | binary l op r => binary l.down (op.down k) r.down
  | ref name => ref (name.down k)
  | assign name e => assign (name.down k) e.down

@[simp] lemma marks_down (e : Expr) : (e.down k).marks = e.marks.map (Mark.down k) := by
  induction e with
  | literal v => rfl
  | grouping e ih => simp [down, marks, ih]
  | unary op e ih => simp [down, marks, ih]
  | binary l op r ihl ihr => simp [down, marks, ihl, ihr]
  | ref name => rfl
  | assign name e ih => simp [down, marks, ih]

@[simp] lemma rank_down (e : Expr) : (e.down k).rank = e.rank := by
  cases e <;> rfl

@[simp] lemma nest_down (e : Expr) : (e.down k).nest = e.nest := by
  induction e with
  | literal v => rfl
  | grouping e ih => rw [down, nest, nest, ih]
  | unary op e ih => rw [down, nest, nest, ih]
  | binary l op r ihl ihr => rw [down, nest, nest, ihl, ihr]
  | ref name => rfl
  | assign name e ih => rw [down, nest, nest, ih]

lemma Canonical.down {e : Expr} (h : e.Canonical) : (e.down k).Canonical := by
  induction e with
  | literal v => trivial
  | grouping e ih => exact ih h
  | unary op e ih =>
    obtain ⟨hop, hrank, he⟩ := h
    exact ⟨hop, by rw [rank_down, hrank], ih he⟩
  | binary l op r ihl ihr =>
    obtain ⟨p, hop, hl, hr, hlcan, hrcan⟩ := h
    rw [← rank_down k] at hl hr
    exact ⟨p, hop, hl, hr, ihl hlcan, ihr hrcan⟩
  | ref name => exact h
  | assign name e ih => exact ⟨h.1, ih h.2⟩

end Expr

namespace Stmt
variable (k : Nat)

mutual

def down : Stmt → Stmt
  | expr e => expr (e.down k)
  | print keyword e => print (keyword.down k) (e.down k)
  | declare name init => declare (name.down k) (init.map (Expr.down k))
  | block body => block (downAll body)
  | ifThen condition yes => ifThen (condition.down k) yes.down
  | ifElse condition yes no => ifElse (condition.down k) yes.down no.down
  | whileDo condition body => whileDo (condition.down k) body.down

def downAll : List Stmt → List Stmt
  | [] => []
  | s :: rest => s.down :: downAll rest

end

mutual

lemma marks_down (s : Stmt) : (s.down k).marks = s.marks.map (Mark.down k) := by
  match s with
  | .expr e => simp [down, marks]
  | .print keyword e => simp [down, marks]
  | .declare name none => rfl
  | .declare name (some e) => simp [down, marks]
  | .block body => simp [down, marks, marksAll_down body]
  | .ifThen condition yes => simp [down, marks, marks_down yes]
  | .ifElse condition yes no => simp [down, marks, marks_down yes, marks_down no]
  | .whileDo condition body => simp [down, marks, marks_down body]

lemma marksAll_down (body : List Stmt) :
    marksAll (downAll k body) = (marksAll body).map (Mark.down k) := by
  match body with
  | [] => rfl
  | s :: rest => rw [downAll, marksAll, marksAll, marks_down s, marksAll_down rest, List.map_append]

end

mutual

lemma nest_down (s : Stmt) : (s.down k).nest = s.nest := by
  match s with
  | .expr e => simp [down, nest]
  | .print keyword e => simp [down, nest]
  | .declare name none => rfl
  | .declare name (some e) => simp [down, nest]
  | .block body => simp [down, nest, nestAll_down body]
  | .ifThen condition yes => simp [down, nest, nest_down yes]
  | .ifElse condition yes no => simp [down, nest, nest_down yes, nest_down no]
  | .whileDo condition body => simp [down, nest, nest_down body]

lemma nestAll_down (body : List Stmt) : nestAll (downAll k body) = nestAll body := by
  match body with
  | [] => rfl
  | s :: rest => rw [downAll, nestAll, nestAll, nest_down s, nestAll_down rest]

end

lemma isDeclaration_down (s : Stmt) : (s.down k).isDeclaration = s.isDeclaration := by
  cases s <;> simp [down, isDeclaration]

lemma endsOpen_down (s : Stmt) : (s.down k).endsOpen = s.endsOpen := by
  match s with
  | .ifElse condition yes no =>
    rw [down, endsOpen, endsOpen]
    exact endsOpen_down no
  | .whileDo condition body =>
    rw [down, endsOpen, endsOpen]
    exact endsOpen_down body
  | .expr _ | .print _ _ | .declare _ _ | .block _ | .ifThen _ _ => simp [down, endsOpen]

mutual

lemma Canonical.down (s : Stmt) (h : s.Canonical) : (s.down k).Canonical := by
  match s with
  | .expr e => exact Expr.Canonical.down k h
  | .print keyword e => exact ⟨h.1, h.2.down k⟩
  | .declare name none => exact h
  | .declare name (some e) => exact ⟨h.1, h.2.down k⟩
  | .block body => exact CanonicalAll.down body h
  | .ifThen condition yes =>
    obtain ⟨hc, hyes, hplain⟩ := h
    rw [← isDeclaration_down k] at hplain
    exact ⟨hc.down k, Canonical.down yes hyes, hplain⟩
  | .ifElse condition yes no =>
    obtain ⟨hc, hyes, hyplain, hclosed, hno, hnplain⟩ := h
    rw [← isDeclaration_down k] at hyplain hnplain
    rw [← endsOpen_down k] at hclosed
    exact ⟨hc.down k, Canonical.down yes hyes, hyplain, hclosed, Canonical.down no hno, hnplain⟩
  | .whileDo condition body =>
    obtain ⟨hc, hbody, hplain⟩ := h
    rw [← isDeclaration_down k] at hplain
    exact ⟨hc.down k, Canonical.down body hbody, hplain⟩

lemma CanonicalAll.down (body : List Stmt) (h : CanonicalAll body) :
    CanonicalAll (downAll k body) := by
  match body with
  | [] => trivial
  | s :: rest => exact ⟨Canonical.down s h.1, CanonicalAll.down rest h.2⟩

end

end Stmt
end Scriptlet
