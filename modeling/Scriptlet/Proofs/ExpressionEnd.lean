import Scriptlet.Proofs.ParserSoundness

/-!
# Where expressions end

No expression goes over a semicolon or over a keyword that starts a statement. So whatever reads one
leaves the next such token alone, does not look at what stands behind it, and complains of
assignment targets at most until it stops. Of a statement that has to end with a semicolon only the
last step, which is to look for it, depends on which of these tokens comes next.
-/

namespace Scriptlet

/-- Complaints of assignment targets, each blamed on a token. -/
def OnTargets (cs : List Complaint) : Prop :=
  ∀ c ∈ cs, c.fault = .invalidTarget ∧ c.blamed.isSome

lemma OnTargets.nil : OnTargets [] := fun _ h => by cases h

lemma OnTargets.singleton (t : Token) : OnTargets [⟨.invalidTarget, some t⟩] := by
  intro c hc
  rw [List.mem_singleton] at hc
  subst hc
  exact ⟨rfl, rfl⟩

lemma OnTargets.append {cs ds : List Complaint} (h : OnTargets cs) (h' : OnTargets ds) :
    OnTargets (cs ++ ds) := List.forall_mem_append.mpr ⟨h, h'⟩

/-- The same, each blamed on one of the given tokens. -/
def OnTargetsAmong (among : List Token) (cs : List Complaint) : Prop :=
  ∀ c ∈ cs, c.fault = .invalidTarget ∧ ∃ t ∈ among, c.blamed = some t

namespace OnTargetsAmong
variable {among : List Token} {cs ds : List Complaint}

lemma nil : OnTargetsAmong among [] := fun _ h => by cases h

lemma singleton {t : Token} (h : t ∈ among) : OnTargetsAmong among [⟨.invalidTarget, some t⟩] := by
  intro c hc
  rw [List.mem_singleton] at hc
  subst hc
  exact ⟨rfl, t, h, rfl⟩

lemma append (h : OnTargetsAmong among cs) (h' : OnTargetsAmong among ds) :
    OnTargetsAmong among (cs ++ ds) := List.forall_mem_append.mpr ⟨h, h'⟩

lemma onTargets (h : OnTargetsAmong among cs) : OnTargets cs := by
  intro c hc
  obtain ⟨hfault, t, -, hblamed⟩ := h c hc
  exact ⟨hfault, hblamed ▸ rfl⟩

end OnTargetsAmong

/-- A semicolon, or a keyword that starts a statement. -/
def TokenKind.IsBoundary (k : TokenKind) : Prop :=
  k = .symbol .semicolon ∨ k.startsStatement = true

instance : DecidablePred TokenKind.IsBoundary := fun _ => inferInstanceAs (Decidable (_ ∨ _))

lemma TokenKind.IsBoundary.precedence?_eq_none {k : TokenKind} (h : k.IsBoundary) :
    k.precedence? = none := by
  rcases h with rfl | h
  · rfl
  · cases k with
    | keyword kw => rfl
    | _ => cases h

lemma Token.not_isBoundary_of_denotes? {t : Token} {v : Value} (h : t.denotes? = some v) :
    ¬ t.kind.IsBoundary := by
  unfold Token.denotes? at h
  split at h <;> rename_i hk
  all_goals first
    | cases h; done
    | rw [hk]; decide

namespace Parser
variable {α β : Type}

/-- On tokens before a boundary the parser does the same whichever boundary it is and whatever
follows, and leaves the boundary. The tokens on which it may blame a target are `among`. -/
def StaysIn (p : Parser α) (among front : List Token) : Prop :=
  ∃ r, (∀ stop rest, stop.kind.IsBoundary → p (front ++ stop :: rest) = r) ∧
    r.used ≤ front.length ∧ OnTargetsAmong among r.reported

/-- The parser stays before every boundary. -/
def Stays (p : Parser α) : Prop :=
  ∀ among front, front ⊆ among → p.StaysIn among front

section StaysIn
variable {p : Parser α} {f : α → Parser β} {among front : List Token}

lemma stays_succeed (a : α) : Stays (succeed a) :=
  fun _ _ _ => ⟨⟨.ok a, 0, []⟩, fun _ _ _ => rfl, Nat.zero_le _, OnTargetsAmong.nil⟩

lemma stays_fail (fault : SyntaxFault) : Stays (fail fault : Parser α) :=
  fun _ _ _ => ⟨⟨.error fault, 0, []⟩, fun _ _ _ => rfl, Nat.zero_le _, OnTargetsAmong.nil⟩

lemma staysIn_report {t : Token} (h : t ∈ among) :
    (report .invalidTarget t).StaysIn among front := by
  exact ⟨⟨.ok (), 0, [⟨.invalidTarget, some t⟩]⟩, fun _ _ _ => rfl, Nat.zero_le _,
    OnTargetsAmong.singleton h⟩

lemma StaysIn.andThen (hp : p.StaysIn among front)
    (hf : ∀ a left right, front = left ++ right → (f a).StaysIn among right) :
    (p.andThen f).StaysIn among front := by
  obtain ⟨r, hr, hused, htargets⟩ := hp
  obtain ⟨left, right, rfl, hleft, hdrop⟩ := exists_split [] hused
  unfold StaysIn Parser.andThen
  cases hv : r.value with
  | error fault =>
    refine ⟨⟨.error fault, r.used, r.reported⟩, fun stop rest hstop => ?_, hused, htargets⟩
    simp only [hr stop rest hstop, hv]
  | ok a =>
    obtain ⟨s, hs, hsused, hstargets⟩ := hf a left right rfl
    refine ⟨⟨s.value, r.used + s.used, r.reported ++ s.reported⟩, fun stop rest hstop => ?_, ?_,
      htargets.append hstargets⟩
    · simp only [hr stop rest hstop, hv]
      rw [List.append_assoc, ← hleft, List.drop_left, hs stop rest hstop]
    · have hle := Nat.add_le_add_left hsused r.used
      rwa [List.length_append, hleft]

lemma Stays.andThen (hp : Stays p) (hf : ∀ a, Stays (f a)) : Stays (p.andThen f) :=
  fun among front h => (hp among front h).andThen fun a _ right heq =>
    hf a among right (fun _ ht => h (heq ▸ List.mem_append_right _ ht))

lemma StaysIn.onFront {choose : Token → Option (Parser α)} {otherwise : Parser α}
    (hc : ∀ t q more, choose t = some q → front = t :: more → q.StaysIn among more)
    (hstop : ∀ t, t.kind.IsBoundary → choose t = none) (ho : otherwise.StaysIn among front) :
    (onFront choose otherwise).StaysIn among front := by
  unfold StaysIn Parser.onFront
  cases front with
  | nil =>
    obtain ⟨r, hr, h⟩ := ho
    refine ⟨r, fun stop rest hs => ?_, h⟩
    simp only [List.nil_append, hstop stop hs]
    exact hr stop rest hs
  | cons t more =>
    cases ht : choose t with
    | none =>
      simp only [List.cons_append, ht]
      exact ho
    | some q =>
      obtain ⟨r, hr, hused, htargets⟩ := hc t q more ht rfl
      refine ⟨r.after 1, fun stop rest hs => ?_, ?_, htargets⟩
      · simp only [List.cons_append, ht, hr stop rest hs]
      · rw [Reading.after_used, List.length_cons]
        omega

lemma Stays.onFront {choose : Token → Option (Parser α)} {otherwise : Parser α}
    (hc : ∀ t q, choose t = some q → ¬ t.kind.IsBoundary ∧ Stays q)
    (ho : Stays otherwise) : Stays (onFront choose otherwise) := by
  intro among front h
  refine StaysIn.onFront (fun t q more ht heq => ?_) (fun t hstop => ?_) (ho among front h)
  · subst heq
    exact (hc t q ht).2 among more (fun _ hu => h (List.mem_cons_of_mem t hu))
  · cases ht : choose t with
    | none => rfl
    | some q => exact absurd hstop (hc t q ht).1

lemma stays_expect {kind : TokenKind} (hk : ¬ kind.IsBoundary) (fault : SyntaxFault) :
    Stays (expect kind fault) := by
  refine Stays.onFront (fun t q ht => ?_) (stays_fail fault)
  split at ht
  · rename_i h
    cases ht
    exact ⟨h ▸ hk, stays_succeed _⟩
  · cases ht

lemma staysIn_accept {kind : TokenKind} {f : Option Token → Parser β} (hk : ¬ kind.IsBoundary)
    (hnone : (f none).StaysIn among front)
    (hsome : ∀ t more, front = t :: more → (f (some t)).StaysIn among more) :
    ((accept kind).andThen f).StaysIn among front := by
  rw [accept_andThen]
  refine StaysIn.onFront (fun t q more ht heq => ?_) (fun t hstop => ?_) hnone
  · split at ht
    · cases ht
      exact hsome t more heq
    · cases ht
  · refine if_neg (fun heq => hk ?_)
    rwa [← heq]

end StaysIn
end Parser

namespace Grammar
open Scriptlet.Parser

section expressions
variable {operandBelow exprBelow : Parser Expr}

lemma stays_operandOver (ho : Stays operandBelow) (he : Stays exprBelow) :
    Stays (operandOver operandBelow exprBelow) := by
  refine Stays.onFront (fun t q hc => ?_) (stays_fail _)
  rcases operandFrom_cases hc with hk | hk | ⟨v, hv⟩ | hk
  · rw [operandFrom_unary hk] at hc
    cases hc
    refine ⟨?_, ho.andThen (fun e => stays_succeed _)⟩
    rcases hk with hk | hk <;>
    · rw [hk]
      decide
  · rw [operandFrom_grouping hk] at hc
    cases hc
    refine ⟨?_, he.andThen (fun e => ?_)⟩
    · rw [hk]
      decide
    · exact (stays_expect (by decide) _).andThen (fun _ => stays_succeed _)
  · rw [operandFrom_literal hv] at hc
    cases hc
    exact ⟨Token.not_isBoundary_of_denotes? hv, stays_succeed _⟩
  · rw [operandFrom_ref hk] at hc
    cases hc
    refine ⟨?_, stays_succeed _⟩
    rw [hk]
    decide

lemma stays_operations {operand : Parser Expr} (ho : Stays operand) (left : Expr) :
    Stays (operations operand left) := by
  intro among front h
  induction hlen : front.length using Nat.strongRecOn generalizing front left with
  | _ n ih =>
    rw [operations_eq]
    refine StaysIn.onFront (fun op q more hc heq => ?_) (fun t hstop => ?_)
      (stays_succeed left among front h)
    · split at hc
      · cases hc
        subst heq
        have hmore : more ⊆ among := fun _ ht => h (List.mem_cons_of_mem op ht)
        refine (ho among more hmore).andThen (fun right used rest heq => ?_)
        have hlt : rest.length < n := by
          rw [← hlen, heq, List.length_cons, List.length_append]
          omega
        have hrest : rest ⊆ among := fun _ ht => hmore (heq ▸ List.mem_append_right _ ht)
        exact ih rest.length hlt _ _ hrest rfl
      · cases hc
    · rw [hstop.precedence?_eq_none]
      rfl

lemma stays_exprOver (ho : Stays operandBelow) (he : Stays exprBelow) :
    Stays (exprOver operandBelow exprBelow) := by
  have hoperand := stays_operandOver ho he
  refine hoperand.andThen (fun first => (stays_operations hoperand first).andThen (fun left => ?_))
  intro among front h
  refine staysIn_accept (by decide)
    (stays_succeed left among front h) (fun equals more heq => ?_)
  subst heq
  have hmore : more ⊆ among := fun _ ht => h (List.mem_cons_of_mem equals ht)
  refine (he among more hmore).andThen (fun value _ right heq => ?_)
  have hright : right ⊆ among := fun _ ht => hmore (heq ▸ List.mem_append_right _ ht)
  unfold assignment
  split
  · exact stays_succeed _ among right hright
  · exact (staysIn_report (h List.mem_cons_self)).andThen (fun _ _ rest heq =>
      stays_succeed _ among rest (fun _ ht => hright (heq ▸ List.mem_append_right _ ht)))

end expressions

lemma stays_operand_expr (n : Nat) : Stays (operand n) ∧ Stays (expr n) := by
  induction n with
  | zero =>
    rw [operand_zero, expr_zero]
    exact ⟨stays_fail _, stays_fail _⟩
  | succ n ih =>
    rw [operand_succ, expr_succ]
    exact ⟨stays_operandOver ih.1 ih.2, stays_exprOver ih.1 ih.2⟩

lemma stays_expr (n : Nat) : Stays (expr n) := (stays_operand_expr n).2

end Grammar
end Scriptlet
