import Mathlib.Data.List.Perm.Subperm
import Scriptlet.Proofs.ErrorContainment

/-!
# Blamed tokens

What a parser reports is blamed on tokens that it used, each for one complaint at most, and the
fault that stops it comes to be blamed on the token behind them. Skipping goes over that token, so
whatever is read next has tokens of its own to blame. Only the end of input is blamed more than
once: after the first fault there, every block that is open misses its brace.
-/

namespace Scriptlet

variable {α β : Type}

/-- The tokens that complaints are blamed on. -/
def blamedTokens (cs : List Complaint) : List Token := cs.filterMap Complaint.blamed

/-- The faults that are blamed on the end of input. -/
def faultsAtEnd (cs : List Complaint) : List SyntaxFault :=
  (cs.filter (·.blamed.isNone)).map Complaint.fault

section lists
variable {cs ds : List Complaint} {fault : SyntaxFault}

@[simp] lemma blamedTokens_append : blamedTokens (cs ++ ds) = blamedTokens cs ++ blamedTokens ds :=
  List.filterMap_append

@[simp] lemma faultsAtEnd_append : faultsAtEnd (cs ++ ds) = faultsAtEnd cs ++ faultsAtEnd ds := by
  simp only [faultsAtEnd, List.filter_append, List.map_append]

@[simp] lemma blamedTokens_nil : blamedTokens [] = [] := rfl

@[simp] lemma faultsAtEnd_nil : faultsAtEnd [] = [] := rfl

lemma blamedTokens_singleton (blamed : Option Token) :
    blamedTokens [⟨fault, blamed⟩] = blamed.toList := by
  cases blamed <;> rfl

end lists

/-- One fault at the end of input, and fewer than `n` blocks around it that miss their brace. -/
def Unclosed (n : Nat) (faults : List SyntaxFault) : Prop :=
  ∃ fault k, k < n ∧ faults = fault :: List.replicate k .expectedClosingBrace

lemma Unclosed.mono {m n : Nat} {faults : List SyntaxFault} (h : Unclosed m faults)
    (hle : m ≤ n) : Unclosed n faults := by
  obtain ⟨fault, k, hk, heq⟩ := h
  exact ⟨fault, k, Nat.lt_of_lt_of_le hk hle, heq⟩

lemma Unclosed.length_le {n : Nat} {faults : List SyntaxFault} (h : Unclosed n faults) :
    faults.length ≤ n := by
  obtain ⟨fault, k, hk, rfl⟩ := h
  rwa [List.length_cons, List.length_replicate]

lemma Unclosed.snoc {n : Nat} {faults : List SyntaxFault} (h : Unclosed n faults) :
    Unclosed (n + 1) (faults ++ [.expectedClosingBrace]) := by
  obtain ⟨fault, k, hk, rfl⟩ := h
  refine ⟨fault, k + 1, Nat.succ_lt_succ hk, ?_⟩
  rw [List.replicate_succ', List.cons_append]

/-- The reading blames no token but those that it used, and none of them twice. When it blames the
end of input, for fewer than `n` blocks, nothing is left and its value is one that `cut` allows. -/
structure Reading.BlamesOnce (n : Nat) (cut : α → Prop) (ts : List Token) (r : Reading α) :
    Prop where
  tokens : (blamedTokens r.reported).Subperm (ts.take r.used)
  atEnd : faultsAtEnd r.reported = [] ∨
    cut r.value ∧ ts.drop r.used = [] ∧ Unclosed n (faultsAtEnd r.reported)

namespace Reading.BlamesOnce
variable {n : Nat} {cut : α → Prop} {ts : List Token} {r : Reading α}

lemma of_silent (h : r.reported = []) : r.BlamesOnce n cut ts := by
  constructor
  · rw [h]
    exact List.nil_subperm
  · rw [h]
    exact Or.inl rfl

lemma mono {m : Nat} (h : r.BlamesOnce m cut ts) (hle : m ≤ n) : r.BlamesOnce n cut ts :=
  ⟨h.tokens, h.atEnd.imp_right (fun hcut => ⟨hcut.1, hcut.2.1, hcut.2.2.mono hle⟩)⟩

lemma after (h : r.BlamesOnce n cut ts) (t : Token) : (r.after 1).BlamesOnce n cut (t :: ts) := by
  constructor
  · rw [after_reported, after_used, Nat.add_comm, List.take_succ_cons]
    exact h.tokens.cons_right t
  · rw [after_reported, after_used, Nat.add_comm, List.drop_succ_cons]
    exact h.atEnd

end Reading.BlamesOnce

namespace Parser

/-- The parser's reading of the tokens blames none twice, and once the end of input was blamed it
misses a brace itself. -/
def BlamesAt (n : Nat) (p : Parser α) (ts : List Token) : Prop :=
  (p ts).BlamesOnce n (· = .error .expectedClosingBrace) ts

def Blames (n : Nat) (p : Parser α) : Prop := ∀ ts, p.BlamesAt n ts

section combinators
variable {n : Nat} {p : Parser α} {f : α → Parser β} {ts : List Token}

lemma blames_succeed (a : α) : (succeed a).Blames n := fun _ => .of_silent rfl

lemma blames_fail (fault : SyntaxFault) : (fail fault : Parser α).Blames n :=
  fun _ => .of_silent rfl

lemma Blames.mono {m : Nat} (h : p.Blames m) (hle : m ≤ n) : p.Blames n :=
  fun ts => (h ts).mono hle

lemma BlamesAt.andThen (hp : p.BlamesAt n ts)
    (hf : ∀ a, (f a).BlamesAt n (ts.drop (p ts).used)) : (p.andThen f).BlamesAt n ts := by
  obtain ⟨htokens, hend⟩ := hp
  unfold BlamesAt
  cases hv : (p ts).value with
  | error fault =>
    rw [andThen_of_error hv]
    refine ⟨htokens, hend.imp_right (fun hcut => ⟨?_, hcut.2⟩)⟩
    rw [hv] at hcut
    exact congrArg Except.error (Except.error.inj hcut.1)
  | ok a =>
    obtain ⟨hftokens, hfend⟩ := hf a
    have hnone : faultsAtEnd (p ts).reported = [] := by
      refine hend.resolve_right (fun hcut => ?_)
      rw [hv] at hcut
      cases hcut.1
    rw [andThen_of_ok hv]
    constructor
    · rw [blamedTokens_append, List.take_add]
      exact htokens.append hftokens
    · rw [faultsAtEnd_append, hnone, List.nil_append]
      rwa [List.drop_drop] at hfend

lemma Blames.andThen (hp : p.Blames n) (hf : ∀ a, (f a).Blames n) : (p.andThen f).Blames n :=
  fun ts => (hp ts).andThen (fun a => hf a _)

section onFront
variable {choose : Token → Option (Parser α)} {otherwise : Parser α}

lemma BlamesAt.onFront
    (hc : ∀ t q rest, ts = t :: rest → choose t = some q → q.BlamesAt n rest)
    (ho : otherwise.BlamesAt n ts) : (onFront choose otherwise).BlamesAt n ts := by
  unfold BlamesAt
  cases ts with
  | nil => exact ho
  | cons t rest =>
    rw [Parser.onFront]
    cases ht : choose t with
    | none => exact ho
    | some q => exact (hc t q rest rfl ht).after t

lemma Blames.onFront (hc : ∀ t q, choose t = some q → q.Blames n) (ho : otherwise.Blames n) :
    (onFront choose otherwise).Blames n :=
  fun ts => BlamesAt.onFront (fun t q rest _ ht => hc t q ht rest) (ho ts)

end onFront

lemma blames_expect (kind : TokenKind) (fault : SyntaxFault) : (expect kind fault).Blames n := by
  refine Blames.onFront (fun t q ht => ?_) (blames_fail fault)
  split at ht <;> cases ht
  exact blames_succeed t

lemma blames_accept (kind : TokenKind) : (accept kind).Blames n := by
  refine Blames.onFront (fun t q ht => ?_) (blames_succeed none)
  split at ht <;> cases ht
  exact blames_succeed (some t)

end combinators
end Parser

namespace Grammar
open Scriptlet.Parser

section expressions
variable {operandBelow exprBelow : Parser Expr}

lemma blames_operandOver (ho : operandBelow.Blames 0) (he : exprBelow.Blames 0) :
    (operandOver operandBelow exprBelow).Blames 0 := by
  refine Blames.onFront (fun t q h => ?_) (blames_fail _)
  unfold operandFrom at h
  split at h <;> cases h
  · exact ho.andThen (fun e => blames_succeed _)
  · exact ho.andThen (fun e => blames_succeed _)
  · exact he.andThen (fun e => (blames_expect _ _).andThen (fun _ => blames_succeed _))
  all_goals exact blames_succeed _

lemma blames_operations {operand : Parser Expr} (h : operand.Blames 0) (left : Expr) :
    Blames 0 (operations operand left) := by
  intro ts
  induction hlen : ts.length using Nat.strongRecOn generalizing left ts with
  | _ n ih =>
    rw [operations_eq]
    refine BlamesAt.onFront (fun op q rest heq hc => ?_) (blames_succeed left ts)
    split at hc <;> cases hc
    refine (h rest).andThen (fun right => ih _ ?_ _ _ rfl)
    rw [← hlen, heq, List.length_drop, List.length_cons]
    omega

lemma assignment_reading (target : Expr) (equals : Token) (value : Expr) (ts : List Token) :
    ∃ e reported, assignment target equals value ts = ⟨.ok e, 0, reported⟩ ∧
      faultsAtEnd reported = [] ∧ (blamedTokens reported).Sublist [equals] := by
  cases target with
  | ref name => exact ⟨_, [], rfl, rfl, List.nil_sublist _⟩
  | _ => exact ⟨_, [⟨.invalidTarget, some equals⟩], rfl, rfl, List.Sublist.refl _⟩

lemma blames_assigned (he : exprBelow.Blames 0) (target : Expr) (equals : Token)
    (rest : List Token) :
    Reading.BlamesOnce 0 (· = .error .expectedClosingBrace) (equals :: rest)
      ((exprBelow.andThen (assignment target equals) rest).after 1) := by
  have hvalue := he rest
  cases hv : (exprBelow rest).value with
  | error fault =>
    have hstop : exprBelow.andThen (assignment target equals) rest = exprBelow rest := by
      rw [andThen_of_error hv, ← hv]
    rw [hstop]
    exact hvalue.after equals
  | ok value =>
    obtain ⟨htokens, hend⟩ := hvalue
    obtain ⟨e, reported, hassign, hnone, hsub⟩ :=
      assignment_reading target equals value (rest.drop (exprBelow rest).used)
    have hnone' : faultsAtEnd (exprBelow rest).reported = [] := by
      refine hend.resolve_right (fun hcut => ?_)
      rw [hv] at hcut
      cases hcut.1
    rw [andThen_of_ok hv, hassign]
    constructor
    · rw [Reading.after_used, Reading.after_reported, Nat.add_zero, Nat.add_comm 1,
        List.take_succ_cons, blamedTokens_append]
      have hall := htokens.append hsub.subperm
      exact hall.trans (List.perm_append_singleton equals _).subperm
    · rw [Reading.after_reported, faultsAtEnd_append, hnone, hnone']
      exact Or.inl rfl

lemma blames_exprOver (ho : operandBelow.Blames 0) (he : exprBelow.Blames 0) :
    (exprOver operandBelow exprBelow).Blames 0 := by
  have hoperand := blames_operandOver ho he
  refine hoperand.andThen (fun first => (blames_operations hoperand first).andThen (fun left => ?_))
  change Blames 0 ((accept (.symbol .equal)).andThen _)
  rw [accept_andThen]
  intro ts
  cases ts with
  | nil => exact blames_succeed left []
  | cons t rest =>
    by_cases ht : t.kind = .symbol .equal
    · unfold BlamesAt
      simp only [onFront, if_pos ht]
      exact blames_assigned he left t rest
    · unfold BlamesAt
      simp only [onFront, if_neg ht]
      exact blames_succeed left (t :: rest)

end expressions

lemma blames_operand_expr (n : Nat) : Blames 0 (operand n) ∧ Blames 0 (expr n) := by
  induction n with
  | zero =>
    rw [operand_zero, expr_zero]
    exact ⟨blames_fail _, blames_fail _⟩
  | succ n ih =>
    rw [operand_succ, expr_succ]
    exact ⟨blames_operandOver ih.1 ih.2, blames_exprOver ih.1 ih.2⟩

section statements
variable {n : Nat} {expr : Parser Expr} {branch : Parser Stmt} {body : Parser (List Stmt)}

lemma blames_upTo_semicolon {α : Type} {p : Parser α} {fault : SyntaxFault} {make : α → Stmt}
    (hp : p.Blames n) :
    (p.andThen (fun a => (expect (.symbol .semicolon) fault).andThen
      (fun _ => succeed (make a)))).Blames n :=
  hp.andThen (fun _ => (blames_expect _ _).andThen (fun _ => blames_succeed _))

lemma blames_condition {f f' : SyntaxFault} (he : expr.Blames n) :
    (condition expr f f').Blames n :=
  (blames_expect _ _).andThen (fun _ => he.andThen (fun _ =>
    (blames_expect _ _).andThen (fun _ => blames_succeed _)))

lemma blames_declarationRest (he : expr.Blames n) : (declarationRest expr).Blames n := by
  have hinit : (initializer expr).Blames n := by
    refine (blames_accept _).andThen (fun equals => ?_)
    split
    · exact blames_succeed _
    · exact he.andThen (fun e => blames_succeed _)
  exact (blames_expect _ _).andThen (fun name => blames_upTo_semicolon hinit)

lemma blames_statementOver (he : expr.Blames n) (hb : branch.Blames n) (hs : body.Blames n) :
    (statementOver expr branch body).Blames n := by
  refine Blames.onFront (fun t q h => ?_) (blames_upTo_semicolon he)
  split at h <;> cases h
  · rw [ifRest_eq]
    refine (blames_condition he).andThen (fun c => hb.andThen (fun yes =>
      (blames_accept _).andThen (fun otherwise => ?_)))
    cases otherwise with
    | none => exact blames_succeed _
    | some _ => exact hb.andThen (fun no => blames_succeed _)
  · rw [whileRest_eq]
    exact (blames_condition he).andThen (fun c => hb.andThen (fun body => blames_succeed _))
  · exact blames_upTo_semicolon he
  · exact hs.andThen (fun ss => blames_succeed _)

lemma head?_sublist_take_skipped (ts : List Token) :
    ts.head?.toList.Sublist (ts.take (skipped ts)) := by
  cases ts with
  | nil => exact List.Sublist.refl _
  | cons t rest =>
    obtain ⟨k, hk⟩ := Nat.exists_eq_add_one_of_ne_zero
      (Nat.ne_of_gt (skipped_pos (List.cons_ne_nil t rest)))
    rw [hk, List.take_succ_cons]
    exact (List.nil_sublist _).cons_cons t

lemma blamesOnce_recovering {p : Parser Stmt} (hp : p.Blames n) (ts : List Token) :
    (recovering p ts).BlamesOnce (n + 1) (fun _ => True) ts := by
  obtain ⟨htokens, hend⟩ := hp ts
  cases hv : (p ts).value with
  | ok s =>
    rw [recovering_of_ok hv]
    refine ⟨htokens, Or.inl (hend.resolve_right (fun hcut => ?_))⟩
    rw [hv] at hcut
    cases hcut.1
  | error fault =>
    rw [recovering_of_error hv]
    constructor
    · rw [blamedTokens_append, blamedTokens_singleton, List.take_add]
      exact htokens.append (head?_sublist_take_skipped _).subperm
    · rw [faultsAtEnd_append, ← List.drop_drop]
      cases hrest : ts.drop (p ts).used with
      | cons t rest =>
        -- only a parser that has used all tokens can have blamed the end
        refine Or.inl ?_
        rw [hend.resolve_right (fun hcut => by rw [hrest] at hcut; cases hcut.2.1)]
        rfl
      | nil =>
        refine Or.inr ⟨trivial, List.drop_nil, ?_⟩
        rcases hend with hnone | ⟨hclosing, -, hunclosed⟩
        · rw [hnone]
          exact ⟨fault, 0, Nat.succ_pos n, rfl⟩
        · rw [hv] at hclosing
          cases hclosing
          exact hunclosed.snoc

lemma blamesOnce_items (closes : Token → Bool) {item : List Token → Reading (Option Stmt)}
    (hitem : ∀ ts, (item ts).BlamesOnce n (fun _ => True) ts)
    (hpos : ∀ t ts, 0 < (item (t :: ts)).used) (ts : List Token) :
    (items closes item ts).BlamesOnce n (fun _ => True) ts := by
  induction hlen : ts.length using Nat.strongRecOn generalizing ts with
  | _ k ih =>
    by_cases hends : Ends closes ts
    · rw [items_of_ends hends]
      exact .of_silent rfl
    · cases ts with
      | nil => exact absurd (fun t ht => by cases ht) hends
      | cons t rest =>
        have hused := hpos t rest
        have hshorter : ((t :: rest).drop (item (t :: rest)).used).length < k := by
          rw [← hlen, List.length_drop, List.length_cons]
          omega
        obtain ⟨htokens, hend⟩ := hitem (t :: rest)
        obtain ⟨hothers, hothersEnd⟩ := ih _ hshorter _ rfl
        rw [items_step hends hused]
        constructor
        · rw [blamedTokens_append, List.take_add]
          exact htokens.append hothers
        · rw [faultsAtEnd_append, ← List.drop_drop]
          rcases hend with hnone | ⟨-, hall, hunclosed⟩
          · rw [hnone]
            exact hothersEnd
          · -- nothing is left for other items
            rw [hall, items]
            refine Or.inr ⟨trivial, List.drop_nil, ?_⟩
            rwa [faultsAtEnd_nil, List.append_nil]

lemma blockOver_of_drop_eq_nil {item : List Token → Reading (Option Stmt)} {ts : List Token}
    (h : ts.drop (items (·.kind == .symbol .rightBrace) item ts).used = []) :
    blockOver item ts =
      ⟨.error .expectedClosingBrace, (items (·.kind == .symbol .rightBrace) item ts).used,
        (items (·.kind == .symbol .rightBrace) item ts).reported⟩ := by
  unfold blockOver
  rw [bind_eq, andThen_of_ok (a := (items (·.kind == .symbol .rightBrace) item ts).value) rfl]
  dsimp only [always]
  rw [h, bind_eq, expect_andThen]
  simp only [onFront, fail, Nat.add_zero, List.append_nil]

lemma blames_blockOver {item : List Token → Reading (Option Stmt)}
    (hitem : ∀ ts, (item ts).BlamesOnce n (fun _ => True) ts)
    (hpos : ∀ t ts, 0 < (item (t :: ts)).used) : (blockOver item).Blames n := by
  intro ts
  obtain ⟨htokens, hend⟩ := blamesOnce_items (·.kind == .symbol .rightBrace) hitem hpos ts
  rcases hend with hnone | ⟨-, hall, hunclosed⟩
  · have hbody : BlamesAt n (always (items (·.kind == .symbol .rightBrace) item)) ts :=
      ⟨htokens, Or.inl hnone⟩
    exact hbody.andThen (fun ss => (blames_expect _ _).andThen (fun _ => blames_succeed _) _)
  · unfold BlamesAt
    rw [blockOver_of_drop_eq_nil hall]
    exact ⟨htokens, Or.inr ⟨rfl, hall, hunclosed⟩⟩

lemma blames_itemParser (h : Blames n (statement (n + 1))) : (itemParser (n + 1)).Blames n := by
  refine Blames.onFront (fun t q ht => ?_) h
  split at ht <;> cases ht
  exact blames_declarationRest ((blames_operand_expr (n + 1)).2.mono (Nat.zero_le n))

end statements

lemma blames_statement_blockRest (n : Nat) :
    Blames n (statement (n + 1)) ∧ Blames n (blockRest n) := by
  induction n with
  | zero =>
    rw [statement_succ, statement_zero, blockRest_zero]
    exact ⟨blames_statementOver (blames_operand_expr 1).2 (blames_fail _) (blames_fail _),
      blames_fail _⟩
  | succ n ih =>
    have hitem : ∀ ts, (item (n + 1) ts).BlamesOnce (n + 1) (fun _ => True) ts := by
      rw [item_eq]
      exact blamesOnce_recovering (blames_itemParser ih.1)
    have hblock : Blames (n + 1) (blockRest (n + 1)) := by
      rw [blockRest_succ_eq]
      exact blames_blockOver hitem (used_pos_item (n + 1))
    have hexpr : Blames (n + 1) (expr (n + 2)) :=
      (blames_operand_expr (n + 2)).2.mono (Nat.zero_le _)
    refine ⟨?_, hblock⟩
    rw [statement_succ]
    exact blames_statementOver hexpr (ih.1.mono (Nat.le_succ n)) hblock

/-- Reading a program blames no token twice, and it blames the end of input for as many blocks as
can be open. -/
lemma blamesOnce_program (ts : List Token) :
    (program ts).BlamesOnce (maxNesting + 1) (fun _ => True) ts := by
  have hitem : ∀ ts, (item (maxNesting + 1) ts).BlamesOnce (maxNesting + 1) (fun _ => True) ts := by
    rw [item_eq]
    exact blamesOnce_recovering (blames_itemParser (blames_statement_blockRest maxNesting).1)
  exact blamesOnce_items _ hitem (used_pos_item _) ts

end Grammar
end Scriptlet
