import Scriptlet.Syntax.Program

/-!
# Progress of parsers

No parser uses tokens that are not there, and an item uses at least one token of a list that is
not empty. So reading items ends, after at most as many items as there are tokens.
-/

namespace Scriptlet

namespace Reading
variable {α : Type}

@[simp] theorem after_value (n : Nat) (r : Reading α) : (r.after n).value = r.value := rfl

@[simp] theorem after_used (n : Nat) (r : Reading α) : (r.after n).used = n + r.used := rfl

@[simp] theorem after_reported (n : Nat) (r : Reading α) :
    (r.after n).reported = r.reported := rfl

end Reading

/-- A reading that uses no more tokens than there are. -/
def Within {α : Type} (read : List Token → Reading α) : Prop :=
  ∀ ts, (read ts).used ≤ ts.length

namespace Parser
variable {α β : Type}

theorem bind_eq (p : Parser α) (f : α → Parser β) : (p >>= f) = p.andThen f := rfl

theorem pure_eq (a : α) : (pure a : Parser α) = succeed a := rfl

theorem within_succeed (a : α) : Within (succeed a) := fun _ => Nat.zero_le _

theorem within_fail (fault : SyntaxFault) : Within (fail fault : Parser α) :=
  fun _ => Nat.zero_le _

theorem within_report (fault : SyntaxFault) (t : Token) : Within (report fault t) :=
  fun _ => Nat.zero_le _

theorem within_always {read : List Token → Reading α} (h : Within read) : Within (always read) := h

theorem within_andThen {p : Parser α} {f : α → Parser β} (hp : Within p)
    (hf : ∀ a, Within (f a)) : Within (p.andThen f) := by
  intro ts
  have h := hp ts
  unfold andThen
  dsimp only
  split
  · exact h
  · rename_i a _
    have hs := hf a (ts.drop (p ts).used)
    rw [List.length_drop] at hs
    dsimp only
    omega

theorem within_onFront {choose : Token → Option (Parser α)} {otherwise : Parser α}
    (hc : ∀ t p, choose t = some p → Within p) (ho : Within otherwise) :
    Within (onFront choose otherwise) := by
  intro ts
  unfold onFront
  split
  · exact ho []
  · rename_i t rest
    split
    · rename_i p hp
      have := hc t p hp rest
      simp only [Reading.after_used, List.length_cons]
      omega
    · exact ho (t :: rest)

theorem within_accept (kind : TokenKind) : Within (accept kind) := by
  refine within_onFront (fun t p h => ?_) (within_succeed none)
  split at h
  · cases h
    exact within_succeed (some t)
  · cases h

theorem within_expect (kind : TokenKind) (fault : SyntaxFault) : Within (expect kind fault) := by
  refine within_onFront (fun t p h => ?_) (within_fail fault)
  split at h
  · cases h
    exact within_succeed t
  · cases h

end Parser

/-- A parser that uses a token whenever it succeeds. -/
def Parser.Advances {α : Type} (p : Parser α) : Prop :=
  ∀ ts a, (p ts).value = .ok a → 0 < (p ts).used

namespace Parser
variable {α β : Type}

theorem advances_fail (fault : SyntaxFault) : Advances (fail fault : Parser α) := by
  intro ts a h
  cases h

theorem advances_andThen {p : Parser α} {f : α → Parser β} (hp : Advances p) :
    Advances (p.andThen f) := by
  intro ts b h
  unfold andThen at h ⊢
  dsimp only at h ⊢
  split
  · rename_i fault hv
    rw [hv] at h
    cases h
  · rename_i a hv
    have := hp ts a hv
    dsimp only
    omega

theorem advances_onFront {choose : Token → Option (Parser α)} {otherwise : Parser α}
    (ho : Advances otherwise) : Advances (onFront choose otherwise) := by
  intro ts a h
  cases ts with
  | nil => exact ho [] a h
  | cons t rest =>
    cases hc : choose t with
    | none =>
      simp only [onFront, hc] at h ⊢
      exact ho (t :: rest) a h
    | some p =>
      simp only [onFront, hc, Reading.after_used]
      omega

end Parser

namespace Grammar
open Scriptlet.Parser

theorem within_operandFrom {operandBelow exprBelow : Parser Expr} (ho : Within operandBelow)
    (he : Within exprBelow) (t : Token) (p : Parser Expr)
    (h : operandFrom operandBelow exprBelow t = some p) : Within p := by
  unfold operandFrom at h
  split at h <;> cases h
  · exact within_andThen ho (fun e => within_succeed _)
  · exact within_andThen ho (fun e => within_succeed _)
  · exact within_andThen he
      (fun e => within_andThen (within_expect _ _) (fun _ => within_succeed _))
  all_goals exact within_succeed _

theorem within_operandOver {operandBelow exprBelow : Parser Expr} (ho : Within operandBelow)
    (he : Within exprBelow) : Within (operandOver operandBelow exprBelow) :=
  within_onFront (within_operandFrom ho he) (within_fail _)

theorem within_operations {operand : Parser Expr} (h : Within operand) (left : Expr) :
    Within (operations operand left) := by
  intro ts
  fun_induction operations operand left ts with
  | case1 => exact Nat.zero_le _
  | case2 left op rest _ r fault hr =>
    have : r.used ≤ rest.length := h rest
    simp only [List.length_cons]
    omega
  | case3 left op rest _ r right hr s ih =>
    have : r.used ≤ rest.length := h rest
    change s.used ≤ _ at ih
    rw [List.length_drop] at ih
    simp only [List.length_cons]
    omega
  | case4 => exact Nat.zero_le _

theorem within_assignment (target : Expr) (equals : Token) (value : Expr) :
    Within (assignment target equals value) := by
  unfold assignment
  split
  · exact within_succeed _
  · exact within_andThen (within_report _ _) (fun _ => within_succeed _)

theorem within_exprOver {operandBelow exprBelow : Parser Expr} (ho : Within operandBelow)
    (he : Within exprBelow) : Within (exprOver operandBelow exprBelow) := by
  have h := within_operandOver ho he
  refine within_andThen h (fun first => within_andThen (within_operations h first) (fun left =>
    within_andThen (within_accept _) (fun equals => ?_)))
  split
  · exact within_succeed _
  · exact within_andThen he (fun value => within_assignment _ _ _)

theorem within_operand_expr (n : Nat) : Within (operand n) ∧ Within (expr n) := by
  induction n with
  | zero =>
    constructor
    · intro ts; rw [operand]; exact Nat.zero_le _
    · intro ts; rw [expr]; exact Nat.zero_le _
  | succ n ih =>
    constructor
    · intro ts; rw [operand]; exact within_operandOver ih.1 ih.2 ts
    · intro ts; rw [expr]; exact within_exprOver ih.1 ih.2 ts

theorem within_expr (n : Nat) : Within (expr n) := (within_operand_expr n).2

theorem within_initializer {expr : Parser Expr} (he : Within expr) :
    Within (initializer expr) := by
  refine within_andThen (within_accept _) (fun equals => ?_)
  split
  · exact within_succeed _
  · exact within_andThen he (fun e => within_succeed _)

theorem within_declarationRest {expr : Parser Expr} (he : Within expr) :
    Within (declarationRest expr) :=
  within_andThen (within_expect _ _) (fun _ => within_andThen (within_initializer he) (fun _ =>
    within_andThen (within_expect _ _) (fun _ => within_succeed _)))

theorem within_ifRest {expr : Parser Expr} {branch : Parser Stmt} (he : Within expr)
    (hb : Within branch) : Within (ifRest expr branch) := by
  refine within_andThen (within_expect _ _) (fun _ => within_andThen he (fun condition =>
    within_andThen (within_expect _ _) (fun _ => within_andThen hb (fun yes =>
      within_andThen (within_accept _) (fun otherwise => ?_)))))
  split
  · exact within_succeed _
  · exact within_andThen hb (fun no => within_succeed _)

theorem within_whileRest {expr : Parser Expr} {body : Parser Stmt} (he : Within expr)
    (hb : Within body) : Within (whileRest expr body) :=
  within_andThen (within_expect _ _) (fun _ => within_andThen he (fun _ =>
    within_andThen (within_expect _ _) (fun _ => within_andThen hb (fun _ =>
      within_succeed _))))

theorem within_printRest (keyword : Token) {expr : Parser Expr} (he : Within expr) :
    Within (printRest keyword expr) :=
  within_andThen he (fun _ => within_andThen (within_expect _ _) (fun _ => within_succeed _))

theorem within_expressionStatement {expr : Parser Expr} (he : Within expr) :
    Within (expressionStatement expr) :=
  within_andThen he (fun _ => within_andThen (within_expect _ _) (fun _ => within_succeed _))

theorem within_statementOver {expr : Parser Expr} {branch : Parser Stmt}
    {body : Parser (List Stmt)} (he : Within expr) (hb : Within branch) (hs : Within body) :
    Within (statementOver expr branch body) := by
  refine within_onFront (fun t p h => ?_) (within_expressionStatement he)
  split at h <;> cases h
  · exact within_ifRest he hb
  · exact within_whileRest he hb
  · exact within_printRest t he
  · exact within_andThen hs (fun _ => within_succeed _)

theorem skipped_le (ts : List Token) : skipped ts ≤ ts.length := by
  fun_induction skipped ts <;> simp_all

theorem skipped_pos {ts : List Token} (h : ts ≠ []) : 0 < skipped ts := by
  fun_cases skipped ts <;> simp_all

theorem within_recovering {p : Parser Stmt} (h : Within p) : Within (recovering p) := by
  intro ts
  have hp := h ts
  unfold recovering
  dsimp only
  split
  · exact hp
  · have := skipped_le (ts.drop (p ts).used)
    rw [List.length_drop] at this
    dsimp only
    omega

theorem within_itemOver {expr : Parser Expr} {statement : Parser Stmt} (he : Within expr)
    (hs : Within statement) : Within (itemOver expr statement) := by
  refine within_recovering (within_onFront (fun t p h => ?_) hs)
  split at h
  · cases h
    exact within_declarationRest he
  · cases h

theorem within_items (closes : Token → Bool) {item : List Token → Reading (Option Stmt)}
    (h : Within item) (hpos : ∀ t ts, 0 < (item (t :: ts)).used) : Within (items closes item) := by
  intro ts
  fun_induction items closes item ts with
  | case1 => exact Nat.zero_le _
  | case2 => exact Nat.zero_le _
  | case3 t rest _ r s ih =>
    have hr : r.used ≤ rest.length + 1 := h (t :: rest)
    have hp : 0 < r.used := hpos t rest
    change s.used ≤ _ at ih
    rw [List.length_drop] at ih
    simp only [List.length_cons]
    omega

theorem advances_operand_expr (n : Nat) :
    Advances (operand n : Parser Expr) ∧ Advances (expr n : Parser Expr) := by
  cases n with
  | zero =>
    constructor <;> intro ts a h
    · rw [operand] at h; cases h
    · rw [expr] at h; cases h
  | succ n =>
    have ho : Advances (operandOver (operand n) (expr n)) := advances_onFront (advances_fail _)
    constructor <;> intro ts a h
    · rw [operand] at h ⊢; exact ho ts a h
    · rw [expr] at h ⊢; exact advances_andThen ho ts a h

theorem advances_statementOver {expr : Parser Expr} (he : Advances expr) (branch : Parser Stmt)
    (body : Parser (List Stmt)) : Advances (statementOver expr branch body) :=
  advances_onFront (advances_andThen he)

theorem advances_statement (n : Nat) : Advances (statement n : Parser Stmt) := by
  cases n with
  | zero => intro ts a h; rw [statement] at h; cases h
  | succ n =>
    intro ts a h
    rw [statement] at h ⊢
    exact advances_statementOver (advances_operand_expr (n + 1)).2 _ _ ts a h

theorem used_pos_recovering {p : Parser Stmt} (h : Advances p) (t : Token) (ts : List Token) :
    0 < (recovering p (t :: ts)).used := by
  unfold recovering
  dsimp only
  split
  · rename_i s hs
    exact h _ s hs
  · dsimp only
    by_cases hu : (p (t :: ts)).used = 0
    · have : 0 < skipped ((t :: ts).drop (p (t :: ts)).used) := skipped_pos (by simp [hu])
      omega
    · omega

theorem used_pos_itemOver {expr : Parser Expr} {statement : Parser Stmt} (h : Advances statement)
    (t : Token) (ts : List Token) : 0 < (itemOver expr statement (t :: ts)).used :=
  used_pos_recovering (advances_onFront h) t ts

theorem used_pos_item (n : Nat) (t : Token) (ts : List Token) : 0 < (item n (t :: ts)).used :=
  used_pos_itemOver (advances_statement n) t ts

theorem within_blockOver {item : List Token → Reading (Option Stmt)} (h : Within item)
    (hpos : ∀ t ts, 0 < (item (t :: ts)).used) : Within (blockOver item) :=
  within_andThen (within_always (within_items _ h hpos)) (fun _ =>
    within_andThen (within_expect _ _) (fun _ => within_succeed _))

theorem within_statement_blockRest (n : Nat) : Within (statement n) ∧ Within (blockRest n) := by
  induction n with
  | zero =>
    constructor <;> intro ts
    · rw [statement]; exact Nat.zero_le _
    · rw [blockRest]; exact Nat.zero_le _
  | succ n ih =>
    have hs : Within (statement (n + 1)) := by
      intro ts
      rw [statement]
      exact within_statementOver (within_expr (n + 1)) ih.1 ih.2 ts
    refine ⟨hs, fun ts => ?_⟩
    rw [blockRest_succ]
    exact within_blockOver (within_itemOver (within_expr (n + 1)) hs) (used_pos_item (n + 1)) ts

theorem within_item (n : Nat) : Within (item n) :=
  within_itemOver (within_expr n) (within_statement_blockRest n).1

theorem used_items_item (n : Nat) (ts : List Token) :
    (items (fun _ => false) (item n) ts).used = ts.length := by
  fun_induction items (fun _ => false) (item n) ts with
  | case1 => rfl
  | case2 t rest h => cases h
  | case3 t rest _ r s ih =>
    have hr : r.used ≤ rest.length + 1 := within_item n (t :: rest)
    have hp : 0 < r.used := used_pos_item n t rest
    change s.used = _ at ih
    rw [List.length_drop] at ih
    simp only [List.length_cons]
    omega

end Grammar
end Scriptlet
