import Mathlib.Data.List.Forall2
import Scriptlet.Syntax.Program

/-!
# Trees written out

A tree says of each token of its written form either its kind, or the value that it denotes, or
the token itself where the tree keeps it. `Written` compares these marks with tokens one by one,
so that a tree is written by many token lists, which differ in lines and in the texts that no
tree keeps.
-/

namespace Scriptlet

/-- What a tree says of one token of its written form. -/
inductive Mark where
  | kind (k : TokenKind)
  | exactly (t : Token)
  | denoting (v : Value)

/-- The value of a literal: by its kind, or else what the token carries, or else `nil`. -/
def Token.denotes? (t : Token) : Option Value :=
  match t.kind with
  | .keyword .kwFalse => some (.bool false)
  | .keyword .kwTrue => some (.bool true)
  | .keyword .kwNil => some .nil
  | .number | .string => some (t.literal.getD .nil)
  | _ => none

def Mark.Fits : Mark → Token → Prop
  | kind k, t => t.kind = k
  | exactly kept, t => t = kept
  | denoting v, t => t.denotes? = some v

/-- The marks fit the tokens, one mark to a token. -/
def Written (marks : List Mark) (ts : List Token) : Prop :=
  List.Forall₂ Mark.Fits marks ts

section Written
variable {m m' : List Mark} {ts : List Token}

@[simp] lemma written_nil_iff : Written [] ts ↔ ts = [] := List.forall₂_nil_left_iff

lemma written_cons_iff {x : Mark} :
    Written (x :: m) ts ↔ ∃ t more, ts = t :: more ∧ x.Fits t ∧ Written m more := by
  unfold Written
  rw [List.forall₂_cons_left_iff]
  constructor
  · rintro ⟨t, more, hx, hm, rfl⟩
    exact ⟨t, more, rfl, hx, hm⟩
  · rintro ⟨t, more, rfl, hx, hm⟩
    exact ⟨t, more, hx, hm, rfl⟩

lemma Written.append {us : List Token} (h : Written m ts) (h' : Written m' us) :
    Written (m ++ m') (ts ++ us) := List.rel_append h h'

lemma written_append_iff :
    Written (m ++ m') ts ↔ ∃ front back, ts = front ++ back ∧ Written m front ∧ Written m' back := by
  constructor
  · intro h
    induction m generalizing ts with
    | nil => exact ⟨[], ts, rfl, List.Forall₂.nil, h⟩
    | cons x m ih =>
      rw [List.cons_append, written_cons_iff] at h
      obtain ⟨t, more, rfl, hx, hm⟩ := h
      obtain ⟨front, back, rfl, hf, hb⟩ := ih hm
      exact ⟨t :: front, back, rfl, List.Forall₂.cons hx hf, hb⟩
  · rintro ⟨front, back, rfl, hf, hb⟩
    exact hf.append hb

end Written

/-- An expression written out, without parentheses but those that it groups with. -/
def Expr.marks : Expr → List Mark
  | .literal v => [.denoting v]
  | .grouping e => .kind (.symbol .leftParen) :: (e.marks ++ [.kind (.symbol .rightParen)])
  | .unary op e => .exactly op :: e.marks
  | .binary l op r => l.marks ++ .exactly op :: r.marks
  | .ref name => [.exactly name]
  | .assign name e => .exactly name :: .kind (.symbol .equal) :: e.marks

namespace Stmt

mutual

def marks : Stmt → List Mark
  | .expr e => e.marks ++ [.kind (.symbol .semicolon)]
  | .print keyword e => .exactly keyword :: (e.marks ++ [.kind (.symbol .semicolon)])
  | .declare name none =>
    [.kind (.keyword .kwVar), .exactly name, .kind (.symbol .semicolon)]
  | .declare name (some e) =>
    .kind (.keyword .kwVar) :: .exactly name :: .kind (.symbol .equal) ::
      (e.marks ++ [.kind (.symbol .semicolon)])
  | .block body =>
    .kind (.symbol .leftBrace) :: (marksAll body ++ [.kind (.symbol .rightBrace)])
  | .ifThen condition yes =>
    .kind (.keyword .kwIf) :: .kind (.symbol .leftParen) ::
      (condition.marks ++ .kind (.symbol .rightParen) :: yes.marks)
  | .ifElse condition yes no =>
    .kind (.keyword .kwIf) :: .kind (.symbol .leftParen) ::
      (condition.marks ++ .kind (.symbol .rightParen) ::
        (yes.marks ++ .kind (.keyword .kwElse) :: no.marks))
  | .whileDo condition body =>
    .kind (.keyword .kwWhile) :: .kind (.symbol .leftParen) ::
      (condition.marks ++ .kind (.symbol .rightParen) :: body.marks)

def marksAll : List Stmt → List Mark
  | [] => []
  | s :: rest => s.marks ++ marksAll rest

end

lemma marksAll_append (xs ys : List Stmt) : marksAll (xs ++ ys) = marksAll xs ++ marksAll ys := by
  induction xs with
  | nil => rfl
  | cons s rest ih => rw [List.cons_append, marksAll, marksAll, ih, List.append_assoc]

end Stmt
end Scriptlet
