import Scriptlet.Proofs.ExpressionEnd

/-!
# Stopping at a semicolon

A statement that ends with a semicolon is read in the same way up to the next semicolon, or the next
keyword that starts a statement, whichever of them it is. Only then does it matter: a semicolon
behind all that was read is used, and anything else is a fault. Skipping goes over the semicolon and
stops before the keyword. So up to and including a semicolon such a statement is read, or skipped,
in the same way whatever follows it.
-/

namespace Scriptlet

/-- Of the complaints, at most one is not of an assignment target, and each is blamed on a
token. -/
structure OneFault (cs : List Complaint) : Prop where
  blamed : ∀ c ∈ cs, c.blamed.isSome
  single : (cs.filter (fun c => c.fault != .invalidTarget)).length ≤ 1

section OnTargets
variable {cs : List Complaint}

lemma OnTargets.filter_eq_nil (h : OnTargets cs) :
    cs.filter (fun c => c.fault != .invalidTarget) = [] := by
  rw [List.filter_eq_nil_iff]
  intro c hc
  simp [(h c hc).1]

lemma OnTargets.oneFault (h : OnTargets cs) : OneFault cs :=
  ⟨fun c hc => (h c hc).2, by simp [h.filter_eq_nil]⟩

lemma OnTargets.oneFault_append (h : OnTargets cs) (fault : SyntaxFault) (u : Token) :
    OneFault (cs ++ [⟨fault, some u⟩]) := by
  refine ⟨List.forall_mem_append.mpr ⟨fun c hc => (h c hc).2, fun c hc => ?_⟩, ?_⟩
  · rw [List.mem_singleton.mp hc]
    rfl
  · rw [List.filter_append, h.filter_eq_nil, List.nil_append]
    exact List.length_filter_le _ _

end OnTargets

/-- No semicolon is among the tokens of `front`, and one stands behind them. -/
structure UpTo (front : List Token) (stop : Token) : Prop where
  free : ∀ t ∈ front, t.kind ≠ .symbol .semicolon
  stop : stop.kind = .symbol .semicolon

namespace Parser
variable {α β : Type}

/-- How a statement ends of which `r` was read from the `room` tokens before `stop`. -/
def closing (r : Reading (Except SyntaxFault α)) (fault : SyntaxFault) (room : Nat) (stop : Token) :
    Reading (Except SyntaxFault α) :=
  match r.value with
  | .error _ => r
  | .ok _ =>
    if r.used = room ∧ stop.kind = .symbol .semicolon then r.after 1
    else ⟨.error fault, r.used, r.reported⟩

/-- On tokens before a boundary the parser does the same whichever boundary it is and whatever
follows, but for its last step, which is to look for a semicolon. The tokens on which it may blame a
target are `among`. -/
def Closes (p : Parser α) (among front : List Token) : Prop :=
  ∃ r fault, (∀ stop rest, stop.kind.IsBoundary →
      p (front ++ stop :: rest) = closing r fault front.length stop) ∧
    r.used ≤ front.length ∧ OnTargetsAmong among r.reported

section Closes
variable {p : Parser α} {f : α → Parser β} {among front more : List Token}

lemma closes_semicolon (h : ∀ t ∈ front, t.kind ≠ .symbol .semicolon) (fault : SyntaxFault)
    (a : α) :
    ((expect (.symbol .semicolon) fault).andThen (fun _ => succeed a)).Closes among front := by
  refine ⟨⟨.ok a, 0, []⟩, fault, fun stop rest _ => ?_, Nat.zero_le _, OnTargetsAmong.nil⟩
  cases front with
  | nil =>
    by_cases hstop : stop.kind = .symbol .semicolon <;>
      simp [closing, Parser.andThen, expect, onFront, hstop, succeed, fail, Reading.after]
  | cons t more =>
    have ht : t.kind ≠ .symbol .semicolon := h t List.mem_cons_self
    simp [closing, Parser.andThen, expect, onFront, ht, fail]

lemma StaysIn.andThen_closes (hp : p.StaysIn among front)
    (hf : ∀ a left right, front = left ++ right → (f a).Closes among right) :
    (p.andThen f).Closes among front := by
  obtain ⟨r, hr, hused, htargets⟩ := hp
  obtain ⟨left, right, rfl, hleft, hdrop⟩ := exists_split [] hused
  unfold Closes Parser.andThen
  cases hv : r.value with
  | error fault =>
    refine ⟨⟨.error fault, r.used, r.reported⟩, fault, fun stop rest hstop => ?_, hused, htargets⟩
    simp only [hr stop rest hstop, hv, closing]
  | ok a =>
    obtain ⟨s, fault, hs, hsused, hstargets⟩ := hf a left right rfl
    refine ⟨⟨s.value, r.used + s.used, r.reported ++ s.reported⟩, fault, fun stop rest hstop => ?_,
      ?_, htargets.append hstargets⟩
    · have hlen : r.used + s.used = (left ++ right).length ↔ s.used = right.length := by
        rw [List.length_append, hleft, Nat.add_left_cancel_iff]
      simp only [hr stop rest hstop, hv]
      rw [List.append_assoc, ← hleft, List.drop_left, hs stop rest hstop, hleft]
      unfold closing
      cases hw : s.value with
      | error fault => simp only [hw]
      | ok b =>
        simp only [hlen]
        split
        · simp only [Reading.after, Nat.add_left_comm, hw]
        · rfl
    · rw [List.length_append, hleft]
      exact Nat.add_le_add_left hsused _

lemma Closes.onFront_some {choose : Token → Option (Parser α)} {otherwise : Parser α} {t : Token}
    (hc : choose t = some p) (hp : p.Closes among more) :
    (onFront choose otherwise).Closes among (t :: more) := by
  obtain ⟨r, fault, hr, hused, htargets⟩ := hp
  refine ⟨r.after 1, fault, fun stop rest hstop => ?_, ?_, htargets⟩
  · have hlen : 1 + r.used = (t :: more).length ↔ r.used = more.length := by
      rw [List.length_cons, Nat.add_comm, Nat.add_right_cancel_iff]
    rw [List.cons_append, onFront, hc]
    dsimp only
    rw [hr stop rest hstop]
    unfold closing
    rw [Reading.after_value]
    cases r.value with
    | error fault => rfl
    | ok a =>
      simp only [Reading.after_used, hlen]
      split <;> rfl
  · rw [Reading.after_used, List.length_cons, Nat.add_comm]
    exact Nat.succ_le_succ hused

lemma Closes.onFront_none {choose : Token → Option (Parser α)} {otherwise : Parser α} {t : Token}
    (hc : choose t = none) (ho : otherwise.Closes among (t :: more)) :
    (onFront choose otherwise).Closes among (t :: more) := by
  obtain ⟨r, fault, hr, h⟩ := ho
  refine ⟨r, fault, fun stop rest hstop => ?_, h⟩
  rw [← hr stop rest hstop, List.cons_append, onFront, hc]

end Closes

lemma Closes.exists_fault {p : Parser α} {among front : List Token} (hp : p.Closes among front) :
    ∃ fault used reported, used ≤ front.length ∧ OnTargetsAmong among reported ∧
      (∀ t rest, t.kind.startsStatement → p (front ++ t :: rest) = ⟨.error fault, used, reported⟩) ∧
      ((∀ s rest, s.kind = .symbol .semicolon →
          p (front ++ s :: rest) = ⟨.error fault, used, reported⟩) ∨
        used = front.length ∧ ∃ a, ∀ s rest, s.kind = .symbol .semicolon →
          p (front ++ s :: rest) = ⟨.ok a, used + 1, reported⟩) := by
  obtain ⟨r, missing, hr, hused, htargets⟩ := hp
  cases hv : r.value with
  | error fault =>
    have hfails (stop : Token) (rest : List Token) (hstop : stop.kind.IsBoundary) :
        p (front ++ stop :: rest) = ⟨.error fault, r.used, r.reported⟩ := by
      have hclosing : closing r missing front.length stop = r := by simp only [closing, hv]
      rw [hr stop rest hstop, hclosing, ← hv]
    exact ⟨fault, r.used, r.reported, hused, htargets, fun t rest ht => hfails t rest (Or.inr ht),
      Or.inl (fun s rest hs => hfails s rest (Or.inl hs))⟩
  | ok a =>
    refine ⟨missing, r.used, r.reported, hused, htargets, fun t rest ht => ?_, ?_⟩
    · have hk : t.kind ≠ .symbol .semicolon := by
        intro hk
        rw [hk] at ht
        cases ht
      rw [hr t rest (Or.inr ht)]
      simp only [closing, hv, hk, and_false, if_false]
    · by_cases hall : r.used = front.length
      · refine Or.inr ⟨hall, a, fun s rest hs => ?_⟩
        rw [hr s rest (Or.inl hs)]
        simp only [closing, hv, hall, hs, and_self, if_true, Reading.after, Nat.add_comm]
      · refine Or.inl (fun s rest hs => ?_)
        rw [hr s rest (Or.inl hs)]
        simp only [closing, hv, hall, false_and, if_false]

end Parser

namespace Grammar
open Scriptlet.Parser

section statements
variable {among front : List Token} {stop : Token}

lemma closes_declarationRest (n : Nat) (h : ∀ t ∈ front, t.kind ≠ .symbol .semicolon)
    (hamong : front ⊆ among) : (declarationRest (expr n)).Closes among front := by
  refine (stays_expect (by decide) _ among front hamong).andThen_closes
    (fun name left right heq => ?_)
  subst heq
  have hright : ∀ t ∈ right, t.kind ≠ .symbol .semicolon :=
    fun t ht => h t (List.mem_append_right left ht)
  have hinto : right ⊆ among := fun _ ht => hamong (List.mem_append_right left ht)
  have hinit : (initializer (expr n)).StaysIn among right := by
    refine staysIn_accept (by decide) (stays_succeed none among right hinto) (fun equals more heq => ?_)
    subst heq
    exact ((stays_expr n).andThen (fun e => stays_succeed _)) among more
      (fun _ ht => hinto (List.mem_cons_of_mem _ ht))
  refine hinit.andThen_closes (fun init left right heq => ?_)
  subst heq
  exact closes_semicolon (fun t ht => hright t (List.mem_append_right left ht)) _ _

lemma closes_expr {make : Expr → Stmt} (n : Nat) (h : ∀ t ∈ front, t.kind ≠ .symbol .semicolon)
    (hamong : front ⊆ among) (fault : SyntaxFault) :
    (Parser.andThen (expr n) (fun e => (expect (.symbol .semicolon) fault).andThen
      (fun _ => succeed (make e)))).Closes among front := by
  refine (stays_expr n among front hamong).andThen_closes (fun _ left right heq => ?_)
  subst heq
  exact closes_semicolon (fun t ht => h t (List.mem_append_right left ht)) _ _

/-- The kinds that begin neither a conditional nor a loop nor a block. -/
def Plain (k : TokenKind) : Prop :=
  k ≠ .keyword .kwIf ∧ k ≠ .keyword .kwWhile ∧ k ≠ .symbol .leftBrace

instance : DecidablePred Plain := fun _ => inferInstanceAs (Decidable (_ ∧ _ ∧ _))

lemma closes_itemParser (n : Nat) (hne : front ≠ []) (h : ∀ t ∈ front, t.kind ≠ .symbol .semicolon)
    (hplain : ∀ t ∈ front.head?, Plain t.kind) : (itemParser (n + 1)).Closes front front := by
  unfold itemParser
  rw [statement_succ]
  cases front with
  | nil => cases hne rfl
  | cons t more =>
    have hmore : ∀ u ∈ more, u.kind ≠ .symbol .semicolon :=
      fun u hu => h u (List.mem_cons_of_mem t hu)
    have hinto : more ⊆ t :: more := List.subset_cons_self t more
    obtain ⟨hif, hwhile, hbrace⟩ := hplain t rfl
    by_cases hvar : t.kind = .keyword .kwVar
    · exact Closes.onFront_some (if_pos hvar) (closes_declarationRest _ hmore hinto)
    · refine Closes.onFront_none (if_neg hvar) ?_
      by_cases hprint : t.kind = .keyword .kwPrint
      · have hprints : Closes (printRest t (expr (n + 1))) (t :: more) more :=
          closes_expr _ hmore hinto _
        exact hprints.onFront_some (by rw [hprint])
      · refine Closes.onFront_none ?_ (closes_expr _ h (List.Subset.refl _) _)
        split <;> simp_all

lemma skipped_append {t : Token} (hfree : ∀ u ∈ front, u.kind ≠ .symbol .semicolon)
    (hstarts : ∀ u ∈ (front ++ [t]).tail, ¬ u.kind.startsStatement) (rest : List Token) :
    skipped (front ++ t :: rest) = front.length + skipped (t :: rest) := by
  induction front with
  | nil => exact (Nat.zero_add _).symm
  | cons u more ih =>
    have hu : u.kind ≠ .symbol .semicolon := hfree u List.mem_cons_self
    have hmore : skipped (more ++ t :: rest) = more.length + skipped (t :: rest) :=
      ih (fun v hv => hfree v (List.mem_cons_of_mem u hv))
        (fun v hv => hstarts v (List.mem_of_mem_tail hv))
    obtain ⟨v, others, heq, hv⟩ : ∃ v others, more ++ t :: rest = v :: others ∧
        ¬ v.kind.startsStatement := by
      cases more with
      | nil => exact ⟨t, rest, rfl, hstarts t List.mem_cons_self⟩
      | cons v more => exact ⟨v, more ++ t :: rest, rfl, hstarts v List.mem_cons_self⟩
    rw [heq] at hmore
    rw [List.cons_append, heq, skipped, if_neg (not_or.mpr ⟨hu, hv⟩), hmore, List.length_cons,
      Nat.add_right_comm]

lemma mem_tail_right {t : Token} {right : List Token} (left : List Token) (h : t ∈ right.tail) :
    t ∈ (left ++ right).tail := by
  cases left with
  | nil => exact h
  | cons u left => exact List.mem_append_right left (List.mem_of_mem_tail h)

lemma skipped_semicolon (h : stop.kind = .symbol .semicolon) (rest : List Token) :
    skipped (stop :: rest) = 1 := by
  cases rest with
  | nil => rfl
  | cons u rest => rw [skipped, if_pos (Or.inl h)]

lemma skipped_upTo (h : UpTo front stop) (hstarts : ∀ t ∈ front.tail, ¬ t.kind.startsStatement)
    (rest : List Token) : skipped (front ++ stop :: rest) = front.length + 1 := by
  have hbetween : ∀ t ∈ (front ++ [stop]).tail, ¬ t.kind.startsStatement := by
    cases front with
    | nil => exact fun t ht => by cases ht
    | cons u more =>
      refine List.forall_mem_append.mpr ⟨hstarts, fun t ht => ?_⟩
      rw [List.mem_singleton.mp ht, h.stop]
      exact Bool.false_ne_true
  rw [skipped_append h.free hbetween, skipped_semicolon h.stop]

lemma skipped_until {t : Token} (hne : front ≠ []) (hfree : ∀ u ∈ front, u.kind ≠ .symbol .semicolon)
    (hstarts : ∀ u ∈ front.tail, ¬ u.kind.startsStatement) (ht : t.kind.startsStatement)
    (rest : List Token) : skipped (front ++ t :: rest) = front.length := by
  obtain ⟨before, last, rfl⟩ := (List.eq_nil_or_concat' front).resolve_left hne
  have hone : skipped (last :: t :: rest) = 1 := by
    rw [skipped, if_pos (Or.inr ht)]
  rw [List.append_assoc, List.singleton_append,
    skipped_append (fun u hu => hfree u (List.mem_append_left _ hu)) hstarts, hone,
    List.length_append, List.length_singleton]

/-- The fault lies on one of the tokens before the keyword or the semicolon: skipping stops before
the keyword, and goes over the semicolon. -/
def SkippedInside (p : Parser Stmt) (front : List Token) (reported : List Complaint) : Prop :=
  (∀ t rest, t.kind.startsStatement →
      recovering p (front ++ t :: rest) = ⟨none, front.length, reported⟩) ∧
    ∀ s rest, s.kind = .symbol .semicolon →
      recovering p (front ++ s :: rest) = ⟨none, front.length + 1, reported⟩

/-- The fault lies on the keyword, which is skipped with what follows. With a semicolon in its place
the statement is read, or the fault lies on the semicolon, over which skipping goes. -/
def SkippedBehind (p : Parser Stmt) (front : List Token) (reported : List Complaint)
    (fault : SyntaxFault) : Prop :=
  (∀ t rest, t.kind.startsStatement → recovering p (front ++ t :: rest) =
      ⟨none, front.length + skipped (t :: rest), reported ++ [⟨fault, some t⟩]⟩) ∧
    ((∃ v, ∀ s rest, s.kind = .symbol .semicolon →
        recovering p (front ++ s :: rest) = ⟨some v, front.length + 1, reported⟩) ∨
      ∀ s rest, s.kind = .symbol .semicolon → recovering p (front ++ s :: rest) =
        ⟨none, front.length + 1, reported ++ [⟨fault, some s⟩]⟩)

/-- A statement that ends with a semicolon is read or skipped as a whole, the semicolon with it, and
how depends on its tokens alone. -/
lemma recovering_closes {p : Parser Stmt} (hp : p.Closes front front)
    (hfree : ∀ u ∈ front, u.kind ≠ .symbol .semicolon)
    (hstarts : ∀ u ∈ front.tail, ¬ u.kind.startsStatement) :
    ∃ reported fault, OnTargetsAmong front reported ∧
      ((∃ u ∈ front, SkippedInside p front (reported ++ [⟨fault, some u⟩])) ∨
        SkippedBehind p front reported fault) := by
  obtain ⟨fault, used, reported, hused, htargets, hkeyword, hsemicolon⟩ := hp.exists_fault
  obtain ⟨left, right, rfl, hleft, -⟩ := exists_split [] hused
  refine ⟨reported, fault, htargets, ?_⟩
  have hskips {stop : Token} {rest : List Token}
      (h : p (left ++ right ++ stop :: rest) = ⟨.error fault, used, reported⟩) :
      recovering p (left ++ right ++ stop :: rest) =
        ⟨none, left.length + skipped (right ++ stop :: rest),
          reported ++ [⟨fault, (right ++ stop :: rest).head?⟩]⟩ := by
    unfold recovering
    simp only [h]
    rw [List.append_assoc, ← hleft, List.drop_left]
  cases right with
  | nil =>
    rw [List.append_nil] at *
    refine Or.inr ⟨fun t rest ht => hskips (hkeyword t rest ht), ?_⟩
    rcases hsemicolon with hfails | ⟨-, v, hreads⟩
    · refine Or.inr (fun s rest hs => ?_)
      rw [hskips (hfails s rest hs), List.nil_append, skipped_semicolon hs]
      rfl
    · refine Or.inl ⟨v, fun s rest hs => ?_⟩
      unfold recovering
      simp only [hreads s rest hs, hleft]
  | cons u more =>
    have hright : ∀ v ∈ u :: more, v.kind ≠ .symbol .semicolon :=
      fun v hv => hfree v (List.mem_append_right left hv)
    have hmore : ∀ v ∈ more, ¬ v.kind.startsStatement :=
      fun v hv => hstarts v (mem_tail_right left hv)
    have hfails := hsemicolon.resolve_right (fun h => by
      rw [List.length_append, hleft, List.length_cons] at h
      omega)
    refine Or.inl ⟨u, List.mem_append_right left List.mem_cons_self, fun t rest ht => ?_,
      fun s rest hs => ?_⟩
    · rw [hskips (hkeyword t rest ht), List.length_append,
        skipped_until (List.cons_ne_nil u more) hright hmore ht]
      rfl
    · rw [hskips (hfails s rest hs), List.length_append, skipped_upTo ⟨hright, hs⟩ hmore]
      rfl

lemma itemParser_semicolon (n : Nat) (h : stop.kind = .symbol .semicolon) (rest : List Token) :
    itemParser (n + 1) (stop :: rest) = ⟨.error .expectedExpression, 0, []⟩ := by
  simp [itemParser, statement_succ, statementOver, expressionStatement, expr_succ, exprOver,
    operandOver, operandFrom, bind_eq, Parser.andThen, onFront, fail, h]

lemma recovering_upTo (n : Nat) (h : UpTo front stop)
    (hstarts : ∀ t ∈ front.tail, ¬ t.kind.startsStatement)
    (hplain : ∀ t ∈ front.head?, Plain t.kind) :
    ∃ r, (∀ rest, recovering (itemParser (n + 1)) (front ++ stop :: rest) = r) ∧
      r.used = front.length + 1 ∧ OneFault r.reported := by
  by_cases hne : front = []
  · subst hne
    refine ⟨⟨none, 1, [] ++ [⟨.expectedExpression, some stop⟩]⟩, fun rest => ?_, rfl,
      OnTargets.nil.oneFault_append _ _⟩
    unfold recovering
    simp only [List.nil_append, itemParser_semicolon n h.stop, List.drop_zero,
      skipped_semicolon h.stop]
    rfl
  obtain ⟨reported, fault, htargets, hcases⟩ :=
    recovering_closes (closes_itemParser n hne h.free hplain) h.free hstarts
  have hone (u : Token) := htargets.onTargets.oneFault_append fault u
  rcases hcases with ⟨u, -, -, hinside⟩ | ⟨-, ⟨v, hreads⟩ | hbehind⟩
  · exact ⟨_, fun rest => hinside stop rest h.stop, rfl, hone u⟩
  · exact ⟨_, fun rest => hreads stop rest h.stop, rfl, htargets.onTargets.oneFault⟩
  · exact ⟨_, fun rest => hbehind stop rest h.stop, rfl, hone stop⟩

end statements
end Grammar
end Scriptlet
