import Scriptlet.Proofs.CanonicalForm
import Scriptlet.Proofs.CleanReading

/-!
# Readings of the productions

The loops and choices of the grammar in terms of readings: which operand begins with a token, how
operators follow it, and how items follow each other up to a closing token.
-/

namespace Scriptlet
namespace Grammar
open Scriptlet.Parser

section operandFrom
variable {operandBelow exprBelow : Parser Expr} {t : Token}

lemma operandFrom_unary (h : t.kind = .symbol .bang ∨ t.kind = .symbol .minus) :
    operandFrom operandBelow exprBelow t =
      some (operandBelow.andThen (fun e => succeed (.unary t e))) := by
  unfold operandFrom
  rcases h with h | h <;>
  · rw [h]
    rfl

lemma operandFrom_grouping (h : t.kind = .symbol .leftParen) :
    operandFrom operandBelow exprBelow t =
      some (exprBelow.andThen (fun e =>
        (expect (.symbol .rightParen) .expectedClosingParen).andThen
          (fun _ => succeed (.grouping e)))) := by
  unfold operandFrom
  rw [h]
  rfl

lemma operandFrom_literal {v : Value} (h : t.denotes? = some v) :
    operandFrom operandBelow exprBelow t = some (succeed (.literal v)) := by
  unfold Token.denotes? at h
  unfold operandFrom
  split at h <;> simp_all

lemma operandFrom_ref (h : t.kind = .identifier) :
    operandFrom operandBelow exprBelow t = some (succeed (.ref t)) := by
  unfold operandFrom
  rw [h]

lemma operandFrom_cases {p : Parser Expr} (h : operandFrom operandBelow exprBelow t = some p) :
    (t.kind = .symbol .bang ∨ t.kind = .symbol .minus) ∨ t.kind = .symbol .leftParen ∨
      (∃ v, t.denotes? = some v) ∨ t.kind = .identifier := by
  unfold operandFrom at h
  split at h <;> simp_all [Token.denotes?]

end operandFrom

section operations

lemma operations_eq (operand : Parser Expr) (left : Expr) :
    (operations operand left : Parser Expr) =
      onFront
        (fun op =>
          if op.kind.precedence?.isSome then
            some (operand.andThen (fun right => operations operand (left.attach op right)))
          else none)
        (succeed left) := by
  funext ts
  cases ts with
  | nil =>
    rw [operations]
    rfl
  | cons op rest =>
    rw [operations, onFront]
    by_cases h : op.kind.precedence?.isSome
    · simp only [if_pos h, Parser.andThen]
      cases (operand rest).value with
      | error fault => rfl
      | ok right => simp only [Reading.after, Nat.add_assoc]
    · simp only [if_neg h]
      rfl

end operations

section assignment
variable {target value e : Expr} {equals : Token} {front rest : List Token}

lemma readsWith_assignment {cs : List Complaint} :
    (assignment target equals value).ReadsWith front e cs rest ↔
      front = [] ∧ ((∃ name, target = .ref name ∧ e = .assign name value ∧ cs = []) ∨
        (∀ name, target ≠ .ref name) ∧ e = target ∧ cs = [⟨.invalidTarget, some equals⟩]) := by
  cases target with
  | ref name => simp [assignment, readsWith_succeed]
  | _ =>
    simp only [assignment, bind_eq, pure_eq, readsWith_andThen, readsWith_report,
      readsWith_succeed]
    simp [and_comm]

lemma reads_assignment :
    (assignment target equals value).Reads front e rest ↔
      ∃ name, target = .ref name ∧ front = [] ∧ e = .assign name value := by
  rw [reads_iff, readsWith_assignment]
  simp [and_left_comm]

end assignment

section levels

lemma operand_zero : (operand 0 : Parser Expr) = tooDeep := by
  funext ts
  rw [operand]

lemma operand_succ (n : Nat) : (operand (n + 1) : Parser Expr) = operandOver (operand n) (expr n) := by
  funext ts
  rw [operand]

lemma expr_zero : (expr 0 : Parser Expr) = tooDeep := by
  funext ts
  rw [expr]

lemma expr_succ (n : Nat) : (expr (n + 1) : Parser Expr) = exprOver (operand n) (expr n) := by
  funext ts
  rw [expr]

lemma statement_zero : (statement 0 : Parser Stmt) = tooDeep := by
  funext ts
  rw [statement]

lemma statement_succ (n : Nat) :
    (statement (n + 1) : Parser Stmt) = statementOver (expr (n + 1)) (statement n) (blockRest n) := by
  funext ts
  rw [statement]

lemma blockRest_zero : (blockRest 0 : Parser (List Stmt)) = tooDeep := by
  funext ts
  rw [blockRest]

lemma blockRest_succ_eq (n : Nat) :
    (blockRest (n + 1) : Parser (List Stmt)) = blockOver (item (n + 1)) := by
  funext ts
  rw [blockRest_succ]

end levels

section conditions
variable {expr : Parser Expr} {branch : Parser Stmt} {f f' : SyntaxFault}

/-- A condition in parentheses. -/
def condition (expr : Parser Expr) (f f' : SyntaxFault) : Parser Expr :=
  (expect (.symbol .leftParen) f).andThen (fun _ => expr.andThen (fun e =>
    (expect (.symbol .rightParen) f').andThen (fun _ => succeed e)))

lemma condition_andThen {α : Type} {next : Expr → Parser α} :
    (condition expr f f').andThen next =
      (expect (.symbol .leftParen) f).andThen (fun _ => expr.andThen (fun e =>
        (expect (.symbol .rightParen) f').andThen (fun _ => next e))) := by
  simp only [condition, andThen_assoc, succeed_andThen]

/-- The rest of a conditional behind its first branch. -/
def elseRest (branch : Parser Stmt) (c : Expr) (yes : Stmt) : Option Token → Parser Stmt
  | none => succeed (.ifThen c yes)
  | some _ => branch.andThen (fun no => succeed (.ifElse c yes no))

lemma ifRest_eq : ifRest expr branch =
    (condition expr .expectedParenAfterIf .expectedParenAfterIfCondition).andThen (fun c =>
      branch.andThen (fun yes => (accept (.keyword .kwElse)).andThen (elseRest branch c yes))) := by
  have helse : ∀ c yes, elseRest branch c yes = fun o =>
      match o with
      | none => succeed (.ifThen c yes)
      | some _ => branch.andThen (fun no => succeed (.ifElse c yes no)) := by
    intro c yes
    funext o
    cases o <;> rfl
  simp only [condition_andThen, helse]
  rfl

lemma whileRest_eq : whileRest expr branch =
    (condition expr .expectedParenAfterWhile .expectedParenAfterWhileCondition).andThen (fun c =>
      branch.andThen (fun body => succeed (.whileDo c body))) := by
  rw [condition_andThen]
  rfl

end conditions

section items
variable {p : Parser Stmt} {closes : Token → Bool} {front back rest : List Token} {s : Stmt}
  {body : List Stmt}

lemma recovering_of_ok {ts : List Token} (h : (p ts).value = .ok s) :
    recovering p ts = ⟨some s, (p ts).used, (p ts).reported⟩ := by
  unfold recovering
  simp only [h]

lemma recovering_of_error {ts : List Token} {fault : SyntaxFault} (h : (p ts).value = .error fault) :
    recovering p ts =
      ⟨none, (p ts).used + skipped (ts.drop (p ts).used),
        (p ts).reported ++ [⟨fault, (ts.drop (p ts).used).head?⟩]⟩ := by
  unfold recovering
  simp only [h]

lemma firstFault?_recovering (ts : List Token) :
    (always (recovering p) ts).firstFault? = (p ts).firstFault? := by
  unfold always recovering
  generalize p ts = r
  obtain ⟨value, used, reported⟩ := r
  cases value with
  | ok s => cases reported <;> rfl
  | error fault => cases reported <;> rfl

lemma firstFault?_always {α : Type} (read : List Token → Reading α) (ts : List Token) :
    (always read ts).firstFault? = (read ts).reported.head?.map Complaint.fault := by
  unfold always
  generalize read ts = r
  obtain ⟨value, used, reported⟩ := r
  cases reported <;> rfl

/-- Reading items ends where the list ends or a closing token stands. -/
def Ends (closes : Token → Bool) (rest : List Token) : Prop :=
  ∀ t ∈ rest.head?, closes t

lemma items_of_ends {item : List Token → Reading (Option Stmt)} (h : Ends closes rest) :
    items closes item rest = ⟨[], 0, []⟩ := by
  cases rest with
  | nil => rw [items]
  | cons t ts => rw [items, if_pos (h t rfl)]

lemma items_step {item : List Token → Reading (Option Stmt)} {ts : List Token}
    (ho : ¬ Ends closes ts) (hpos : 0 < (item ts).used) :
    items closes item ts =
      ⟨(item ts).value.toList ++ (items closes item (ts.drop (item ts).used)).value,
        (item ts).used + (items closes item (ts.drop (item ts).used)).used,
        (item ts).reported ++ (items closes item (ts.drop (item ts).used)).reported⟩ := by
  cases ts with
  | nil => exact absurd (fun t ht => by cases ht) ho
  | cons t ts =>
    have hc : ¬ closes t := fun h => ho (fun u hu => by cases hu; exact h)
    have hdrop : (t :: ts).drop (item (t :: ts)).used = ts.drop ((item (t :: ts)).used - 1) := by
      obtain ⟨n, hn⟩ := Nat.exists_eq_succ_of_ne_zero (Nat.ne_of_gt hpos)
      rw [hn, List.drop_succ_cons, Nat.succ_sub_one]
    rw [items, if_neg hc, hdrop]

lemma items_of_ok {ts : List Token} (ho : ¬ Ends closes ts) (hv : (p ts).value = .ok s)
    (hpos : 0 < (p ts).used) :
    items closes (recovering p) ts =
      ⟨s :: (items closes (recovering p) (ts.drop (p ts).used)).value,
        (p ts).used + (items closes (recovering p) (ts.drop (p ts).used)).used,
        (p ts).reported ++ (items closes (recovering p) (ts.drop (p ts).used)).reported⟩ := by
  have hpos' : 0 < (recovering p ts).used := by
    rw [recovering_of_ok hv]
    exact hpos
  rw [items_step ho hpos', recovering_of_ok hv]
  rfl

lemma items_of_reads (ho : ¬ Ends closes (front ++ rest)) (hfront : front ≠ [])
    (hp : p.Reads front s rest) :
    items closes (recovering p) (front ++ rest) =
      ⟨s :: (items closes (recovering p) rest).value,
        front.length + (items closes (recovering p) rest).used,
        (items closes (recovering p) rest).reported⟩ := by
  unfold Reads at hp
  have hv : (p (front ++ rest)).value = .ok s := by rw [hp]
  have hpos : 0 < (p (front ++ rest)).used := by
    rw [hp]
    exact List.length_pos_iff.mpr hfront
  rw [items_of_ok ho hv hpos]
  simp only [hp, List.drop_left, List.nil_append]

lemma firstFault?_items {ts : List Token} {fault : SyntaxFault} (ho : ¬ Ends closes ts)
    (h : (p ts).firstFault? = some fault) :
    (always (items closes (recovering p)) ts).firstFault? = some fault := by
  rw [← firstFault?_recovering, firstFault?_always] at h
  rw [firstFault?_always]
  cases ts with
  | nil => exact absurd (fun t ht => by cases ht) ho
  | cons t ts =>
    have hc : ¬ closes t := fun h => ho (fun u hu => by cases hu; exact h)
    rw [items, if_neg hc]
    dsimp only
    rw [List.head?_append]
    obtain ⟨c, hc, rfl⟩ := Option.map_eq_some_iff.mp h
    rw [hc]
    rfl

lemma items_readsWith {cs : List Complaint} (hp : Advances p)
    (hstop : ∀ ts fault, (p ts).value = .error fault → ∀ c ∈ cs, c.fault ≠ fault)
    (h : items closes (recovering p) (front ++ rest) = ⟨body, front.length, cs⟩) :
    (front = [] ∧ body = [] ∧ cs = [] ∧ Ends closes rest) ∨
      ∃ s others left right cs₁ cs₂, front = left ++ right ∧ body = s :: others ∧
        cs = cs₁ ++ cs₂ ∧ p.ReadsWith left s cs₁ (right ++ rest) ∧
        items closes (recovering p) (right ++ rest) = ⟨others, right.length, cs₂⟩ := by
  by_cases he : Ends closes (front ++ rest)
  · rw [items_of_ends he, Reading.mk.injEq] at h
    obtain ⟨rfl, hlen, rfl⟩ := h
    obtain rfl := List.length_eq_zero_iff.mp hlen.symm
    exact Or.inl ⟨rfl, rfl, rfl, he⟩
  · refine Or.inr ?_
    have hpos : 0 < (recovering p (front ++ rest)).used := by
      cases hts : front ++ rest with
      | nil =>
        rw [hts] at he
        exact absurd (fun t ht => by cases ht) he
      | cons t ts => exact used_pos_recovering hp t ts
    cases hv : (p (front ++ rest)).value with
    | error fault =>
      have hreported : ∃ c ∈ (recovering p (front ++ rest)).reported, c.fault = fault := by
        rw [recovering_of_error hv]
        exact ⟨_, List.mem_append_right _ List.mem_cons_self, rfl⟩
      obtain ⟨c, hc, hfault⟩ := hreported
      rw [items_step he hpos, Reading.mk.injEq] at h
      exact absurd hfault (hstop _ fault hv c (h.2.2 ▸ List.mem_append_left _ hc))
    | ok s =>
      rw [items_of_ok he hv (hp _ s hv), Reading.mk.injEq] at h
      obtain ⟨hbody, hused, hrep⟩ := h
      have hle : (p (front ++ rest)).used ≤ front.length := by omega
      obtain ⟨left, right, rfl, hleft, hdrop⟩ := exists_split rest hle
      rw [hdrop] at hbody hused hrep
      have hright : (items closes (recovering p) (right ++ rest)).used = right.length := by
        rw [List.length_append] at hused
        omega
      refine ⟨s, _, left, right, _, _, rfl, hbody.symm, hrep.symm, ?_, ?_⟩
      · unfold ReadsWith
        rw [← List.append_assoc, hleft, ← hv]
      · rw [← hright]

end items
end Grammar
end Scriptlet
