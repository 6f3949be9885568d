import Scriptlet.Proofs.NestingBound

/-!
# Precedence climbing

The grammar reads an operand and all operators behind it in one loop, and hangs each operator into
the tree that it has so far. Climbing reads the right operand of an operator first, which is all
that binds tighter, so that every operator is hung on top of the tree. Both build the same tree from
the same tokens.
-/

namespace Scriptlet
namespace Grammar
open Scriptlet.Parser

/-- Whether a kind is that of a binary operator that binds at least as tightly as `least`. -/
def bindsFrom (least : Nat) (kind : TokenKind) : Prop :=
  ∃ p, kind.precedence? = some p ∧ least ≤ p

instance (least : Nat) (kind : TokenKind) : Decidable (bindsFrom least kind) :=
  decidable_of_iff (kind.precedence?.any (least ≤ ·)) (by simp [bindsFrom, Option.any_eq_true])

/-- Binary operators that bind at least as tightly as `least`, and their right operands, as many as
follow, attached to `left`. -/
def operationsFrom (least : Nat) (operand : Parser Expr) (left : Expr) : Parser Expr := fun ts =>
  match ts with
  | [] => ⟨.ok left, 0, []⟩
  | op :: rest =>
    if bindsFrom least op.kind then
      let r := operand rest
      match r.value with
      | .error fault => ⟨.error fault, 1 + r.used, r.reported⟩
      | .ok right =>
        let s := operationsFrom least operand (left.attach op right) (rest.drop r.used)
        ⟨s.value, 1 + r.used + s.used, r.reported ++ s.reported⟩
    else ⟨.ok left, 0, []⟩
termination_by ts => ts.length
decreasing_by
  simp only [List.length_drop, List.length_cons]
  omega

variable {operand : Parser Expr} {least tighter p : Nat} {left right : Expr} {op : Token}

lemma bindsFrom_zero {kind : TokenKind} : bindsFrom 0 kind ↔ kind.precedence?.isSome := by
  simp [bindsFrom, Option.isSome_iff_exists]

lemma binds_or_not (least : Nat) (ts : List Token) :
    (∀ t ∈ ts.head?, ¬ bindsFrom least t.kind) ∨
      ∃ op rest, ts = op :: rest ∧ bindsFrom least op.kind := by
  cases ts with
  | nil => exact .inl (fun t ht => absurd ht (Option.not_mem_none t))
  | cons op rest =>
    by_cases h : bindsFrom least op.kind
    · exact .inr ⟨op, rest, rfl, h⟩
    · exact .inl (fun t ht => Option.mem_some.mp ht ▸ h)

lemma operationsFrom_of_not {ts : List Token} (h : ∀ t ∈ ts.head?, ¬ bindsFrom least t.kind) :
    operationsFrom least operand left ts = ⟨.ok left, 0, []⟩ := by
  cases ts with
  | nil => rw [operationsFrom]
  | cons op rest => rw [operationsFrom, if_neg (h op rfl)]

lemma operationsFrom_of_binds {rest : List Token} (h : bindsFrom least op.kind) :
    operationsFrom least operand left (op :: rest) =
      (operand.andThen
        (fun right => operationsFrom least operand (left.attach op right)) rest).after 1 := by
  rw [operationsFrom, if_pos h]
  cases hr : (operand rest).value with
  | error fault => simp only [hr, andThen_of_error hr, Reading.after]
  | ok right => simp only [hr, andThen_of_ok hr, Reading.after, Nat.add_assoc]

lemma operationsFrom_zero : operationsFrom 0 operand left = operations operand left := by
  funext ts
  fun_induction operations operand left ts with
  | case1 => rw [operationsFrom]
  | case2 left op rest h r fault hr =>
    rw [operationsFrom, if_pos (bindsFrom_zero.mpr h)]
    simp only [r] at hr
    simp only [hr, r]
  | case3 left op rest h r right hr s ih =>
    rw [operationsFrom, if_pos (bindsFrom_zero.mpr h)]
    simp only [r] at hr ih
    simp only [hr, ih, r, s]
  | case4 left op rest h => rw [operationsFrom, if_neg (fun hb => h (bindsFrom_zero.mp hb))]

lemma not_bindsFrom_of_read {ts : List Token} {e : Expr}
    (h : (operationsFrom least operand left ts).value = .ok e) :
    ∀ t ∈ (ts.drop (operationsFrom least operand left ts).used).head?,
      ¬ bindsFrom least t.kind := by
  fun_induction operationsFrom least operand left ts with
  | case1 => intro t ht; cases ht
  | case2 => cases h
  | case3 left op rest _ r right _ s ih =>
    have hdrop : (op :: rest).drop (1 + r.used + s.used) = (rest.drop r.used).drop s.used := by
      rw [Nat.add_assoc, Nat.add_comm, List.drop_succ_cons, List.drop_drop]
    rw [hdrop]
    exact ih h
  | case4 left op rest hb =>
    rintro t ⟨⟩
    exact hb

lemma andThen_after {α β : Type} {p q : Parser α} {f : α → Parser β} {t : Token} {rest : List Token}
    (h : p (t :: rest) = (q rest).after 1) :
    p.andThen f (t :: rest) = (q.andThen f rest).after 1 := by
  cases hq : (q rest).value with
  | error fault =>
    have hp : (p (t :: rest)).value = .error fault := by rw [h, Reading.after_value, hq]
    rw [andThen_of_error hp, andThen_of_error hq, h]
    rfl
  | ok a =>
    have hp : (p (t :: rest)).value = .ok a := by rw [h, Reading.after_value, hq]
    have hdrop : (t :: rest).drop (p (t :: rest)).used = rest.drop (q rest).used := by
      rw [h, Reading.after_used, Nat.add_comm, List.drop_succ_cons]
    rw [andThen_of_ok hp, andThen_of_ok hq, hdrop, h]
    simp only [Reading.after, Nat.add_assoc]

lemma andThen_congr {α β : Type} {p : Parser α} {f g : α → Parser β} {ts : List Token}
    (h : ∀ a, (p ts).value = .ok a → f a (ts.drop (p ts).used) = g a (ts.drop (p ts).used)) :
    p.andThen f ts = p.andThen g ts := by
  cases hp : (p ts).value with
  | error fault => rw [andThen_of_error hp, andThen_of_error hp]
  | ok a => rw [andThen_of_ok hp, andThen_of_ok hp, h a hp]

lemma length_drop_lt_cons {t : Token} {rest : List Token} {n : Nat} :
    (rest.drop n).length < (t :: rest).length := by
  rw [List.length_drop, List.length_cons]
  exact Nat.lt_succ_of_le (Nat.sub_le _ _)

/-- The tighter operators are read first, and the others behind them. -/
lemma operationsFrom_split (h : least ≤ tighter) (left : Expr) (ts : List Token) :
    operationsFrom least operand left ts =
      Parser.andThen (operationsFrom tighter operand left) (operationsFrom least operand) ts := by
  induction hn : ts.length using Nat.strongRecOn generalizing left ts with
  | _ n ih =>
    obtain hb | ⟨op, rest, rfl, hop⟩ := binds_or_not tighter ts
    · have hnone : operationsFrom tighter operand left ts = ⟨.ok left, 0, []⟩ :=
        operationsFrom_of_not hb
      rw [andThen_of_ok (a := left) (by rw [hnone]), hnone]
      simp
    · have hleast : bindsFrom least op.kind := hop.imp (fun _ hp => ⟨hp.1, Nat.le_trans h hp.2⟩)
      rw [andThen_after (operationsFrom_of_binds hop), andThen_assoc,
        operationsFrom_of_binds hleast]
      congr 1
      exact andThen_congr (fun right _ => ih _ (hn ▸ length_drop_lt_cons) _ _ rfl)

lemma yields_operandOver_rank {operandBelow exprBelow : Parser Expr} :
    (operandOver operandBelow exprBelow).Yields (fun e => e.rank = 5) := by
  refine yields_onFront (fun t p h => ?_) (yields_fail _)
  unfold operandFrom at h
  split at h <;> cases h
  · exact yields_andThen_any (fun _ => yields_succeed rfl)
  · exact yields_andThen_any (fun _ => yields_succeed rfl)
  · exact yields_andThen_any (fun _ => yields_andThen_any (fun _ => yields_succeed rfl))
  all_goals exact yields_succeed rfl

lemma operationsFrom_binary {l : Expr} {o : Token} (ho : o.kind.precedence? = some p)
    (h : p < tighter) (right : Expr) (ts : List Token) :
    operationsFrom tighter operand (.binary l o right) ts =
      Parser.andThen (operationsFrom tighter operand right)
        (fun right => succeed (.binary l o right)) ts := by
  induction hn : ts.length using Nat.strongRecOn generalizing right ts with
  | _ n ih =>
    obtain hb | ⟨op, rest, rfl, hop⟩ := binds_or_not tighter ts
    · rw [operationsFrom_of_not hb]
      have hnone : operationsFrom tighter operand right ts = ⟨.ok right, 0, []⟩ :=
        operationsFrom_of_not hb
      rw [andThen_of_ok (a := right) (by rw [hnone]), hnone]
      simp [succeed]
    · obtain ⟨q, hq, hle⟩ := hop
      rw [andThen_after (operationsFrom_of_binds ⟨q, hq, hle⟩), andThen_assoc,
        operationsFrom_of_binds ⟨q, hq, hle⟩]
      congr 1
      refine andThen_congr (fun e _ => ?_)
      rw [Expr.attach_binary ho hq (Nat.lt_of_lt_of_le h hle)]
      exact ih _ (hn ▸ length_drop_lt_cons) _ _ rfl

/-- An operand with the operators behind it that bind at least as tightly as `least`. -/
def climbing (operand : Parser Expr) (least : Nat) : Parser Expr :=
  operand.andThen (operationsFrom least operand)

/-- Whatever operator is in front binds no tighter than the expression before it. -/
def StandsWhole (left : Expr) (ts : List Token) : Prop :=
  ∀ t ∈ ts.head?, ∀ p, t.kind.precedence? = some p → p ≤ left.rank

lemma standsWhole_of_rank (h : left.rank = 5) (ts : List Token) : StandsWhole left ts := by
  intro t _ p hp
  rw [h]
  exact Nat.le_of_lt (Expr.precedence?_bounds hp).2

lemma standsWhole_binary {ts : List Token} (hop : op.kind.precedence? = some p)
    (h : (climbing operand (p + 1) ts).value = .ok right) :
    StandsWhole (.binary left op right) (ts.drop (climbing operand (p + 1) ts).used) := by
  unfold climbing at h ⊢
  cases hv : (operand ts).value with
  | error fault =>
    rw [andThen_of_error hv] at h
    cases h
  | ok first =>
    rw [andThen_of_ok hv] at h
    rw [andThen_of_ok hv, ← List.drop_drop]
    intro t ht q hq
    rw [Expr.rank, hop, Option.getD_some]
    exact Nat.not_lt.mp (fun hlt => not_bindsFrom_of_read h t ht ⟨q, hq, hlt⟩)

/-- An expression is what climbing reads from the lowest precedence on, or an assignment to it. -/
lemma exprOver_climbing {operandBelow exprBelow : Parser Expr} :
    exprOver operandBelow exprBelow =
      (climbing (operandOver operandBelow exprBelow) 0).andThen (fun left =>
        (accept (.symbol .equal)).andThen (fun equals =>
          match equals with
          | none => succeed left
          | some equals => exprBelow.andThen (fun value => assignment left equals value))) := by
  have hzero : operationsFrom 0 (operandOver operandBelow exprBelow) =
      fun first => operations (operandOver operandBelow exprBelow) first :=
    funext (fun _ => operationsFrom_zero)
  rw [climbing, hzero]
  exact (andThen_assoc _ _ _).symm

lemma operationsFrom_climbing {rest : List Token} (hop : op.kind.precedence? = some p)
    (hleast : least ≤ p) (hleft : p ≤ left.rank) :
    operationsFrom least operand left (op :: rest) =
      ((climbing operand (p + 1)).andThen
        (fun right => operationsFrom least operand (.binary left op right)) rest).after 1 := by
  rw [operationsFrom_of_binds ⟨p, hop, hleast⟩, climbing, andThen_assoc]
  congr 1
  refine andThen_congr (fun first _ => ?_)
  -- With `op` on top, what binds tighter goes into its right operand and the rest comes after it.
  rw [Expr.attach_eq_binary hop hleft, operationsFrom_split (Nat.le_succ_of_le hleast)]
  have hbinary : (operationsFrom (p + 1) operand (.binary left op first) : Parser Expr) =
      Parser.andThen (operationsFrom (p + 1) operand first)
        (fun right => succeed (.binary left op right)) :=
    funext (operationsFrom_binary hop (Nat.lt_succ_self p) first)
  rw [hbinary, andThen_assoc]
  simp only [succeed_andThen]

end Grammar
end Scriptlet
