import Scriptlet.Proofs.LostSemicolon

/-!
# Statements that end with a simple one

A conditional or a loop that ends with a semicolon ends with a simple statement. Behind its front
part the parser goes on as it does for the simple statement, so what it does when the semicolon is
lost follows from that.
-/

namespace Scriptlet
namespace Grammar
open Scriptlet.Parser

/-- Behind `front` the parser reads what begins with `inner` as `q` does, and stops where it does,
unless an `else` follows. -/
structure GoesOn {α : Type} (p : Parser α) (front : List Token) (q : Parser Stmt)
    (inner : List Token) : Prop where
  stops : ∀ ts n, q.StopsAfter (inner ++ ts) n →
    p.StopsAfter (front ++ (inner ++ ts)) (front.length + n)
  reads : ∀ more a rest, q.Reads (inner ++ more) a rest → ¬ Fronts (.keyword .kwElse) rest →
    ∃ b, p.Reads (front ++ (inner ++ more)) b rest

namespace GoesOn
variable {α β : Type} {p p' : Parser α} {f : α → Parser β} {q : Parser Stmt}
  {front inner left : List Token} {a : α}

lemma nil {p : Parser Stmt} (h : ∀ ts, p (inner ++ ts) = q (inner ++ ts)) :
    GoesOn p [] q inner := by
  refine ⟨fun ts n hq => ?_, fun more a rest hq _ => ⟨a, ?_⟩⟩
  · rw [List.length_nil, Nat.zero_add, List.nil_append]
    unfold StopsAfter
    rw [h]
    exact hq
  · unfold Reads
    rw [List.nil_append, List.append_assoc, h, ← List.append_assoc]
    exact hq

lemma congr (h : GoesOn p front q inner)
    (hp : ∀ ts, p' (front ++ inner ++ ts) = p (front ++ inner ++ ts)) :
    GoesOn p' front q inner := by
  refine ⟨fun ts n hq => ?_, fun more a rest hq helse => ?_⟩
  · have hstops := h.stops ts n hq
    rw [← List.append_assoc] at hstops ⊢
    unfold StopsAfter at hstops ⊢
    rwa [hp]
  · obtain ⟨b, hreads⟩ := h.reads more a rest hq helse
    refine ⟨b, ?_⟩
    rw [← List.append_assoc] at hreads ⊢
    unfold Reads at hreads ⊢
    rwa [List.append_assoc, hp, ← List.append_assoc]

lemma behind {f : α → Parser β} (hp : ∀ ts, p.Reads left a (front ++ (inner ++ ts)))
    (h : GoesOn (f a) front q inner) : GoesOn (p.andThen f) (left ++ front) q inner := by
  refine ⟨fun ts n hq => ?_, fun more b rest hq helse => ?_⟩
  · rw [List.append_assoc, List.length_append, Nat.add_assoc]
    exact (hp ts).andThen_stops (h.stops ts n hq)
  · obtain ⟨c, hreads⟩ := h.reads more b rest hq helse
    have hleft := hp (more ++ rest)
    rw [← List.append_assoc inner, ← List.append_assoc front] at hleft
    exact ⟨c, by rw [List.append_assoc]; exact hleft.andThen hreads⟩

lemma andThen (h : GoesOn p front q inner)
    (hf : ∀ a rest, ¬ Fronts (.keyword .kwElse) rest → ∃ b, (f a).Reads [] b rest) :
    GoesOn (p.andThen f) front q inner := by
  refine ⟨fun ts n hq => (h.stops ts n hq).andThen, fun more a rest hq helse => ?_⟩
  obtain ⟨b, hreads⟩ := h.reads more a rest hq helse
  obtain ⟨c, hmore⟩ := hf b rest helse
  exact ⟨c, hreads.andThen_nil hmore⟩

lemma onFront {choose : Token → Option (Parser α)} {otherwise : Parser α} {t : Token}
    (hc : choose t = some p) (h : GoesOn p front q inner) :
    GoesOn (onFront choose otherwise) (t :: front) q inner := by
  refine ⟨fun ts n hq => ?_, fun more a rest hq helse => ?_⟩
  · rw [List.length_cons, Nat.add_right_comm]
    exact (h.stops ts n hq).onFront_some hc
  · obtain ⟨b, hreads⟩ := h.reads more a rest hq helse
    exact ⟨b, hreads.onFront_some hc⟩

end GoesOn

/-- The tokens before `stop` are `front` and then those of a simple statement, as which the parser
goes on behind `front`. -/
def EndsSimply {α : Type} (p : Parser α) (ts : List Token) (stop : Token) : Prop :=
  ∃ (front inner : List Token) (s : Stmt) (m : Nat), ts = front ++ inner ∧ s.isSimple ∧
    s.Canonical ∧ s.nest < m + 1 ∧ Written s.marks (inner ++ [stop]) ∧
    GoesOn p front (itemParser (m + 1)) inner

section EndsSimply
variable {α β : Type} {p : Parser α} {f : α → Parser β} {ts left : List Token} {stop : Token} {a : α}

lemma EndsSimply.behind (hp : ∀ rest, p.Reads left a (ts ++ rest)) (h : EndsSimply (f a) ts stop) :
    EndsSimply (p.andThen f) (left ++ ts) stop := by
  obtain ⟨front, inner, s, m, rfl, hs, hcan, hnest, hw, hgoes⟩ := h
  refine ⟨left ++ front, inner, s, m, (List.append_assoc _ _ _).symm, hs, hcan, hnest, hw, ?_⟩
  exact hgoes.behind (fun rest => by rw [← List.append_assoc]; exact hp rest)

lemma EndsSimply.andThen (h : EndsSimply p ts stop)
    (hf : ∀ a rest, ¬ Fronts (.keyword .kwElse) rest → ∃ b, (f a).Reads [] b rest) :
    EndsSimply (p.andThen f) ts stop := by
  obtain ⟨front, inner, s, m, hts, hs, hcan, hnest, hw, hgoes⟩ := h
  exact ⟨front, inner, s, m, hts, hs, hcan, hnest, hw, hgoes.andThen hf⟩

lemma EndsSimply.map {g : α → β} (h : EndsSimply p ts stop) :
    EndsSimply (p.andThen (fun a => succeed (g a))) ts stop :=
  h.andThen (fun _ _ _ => ⟨_, reads_succeed.mpr ⟨rfl, rfl⟩⟩)

lemma EndsSimply.onFront {choose : Token → Option (Parser α)} {otherwise : Parser α} {t : Token}
    (hc : choose t = some p) (h : EndsSimply p ts stop) :
    EndsSimply (onFront choose otherwise) (t :: ts) stop := by
  obtain ⟨front, inner, s, m, rfl, hs, hcan, hnest, hw, hgoes⟩ := h
  exact ⟨t :: front, inner, s, m, rfl, hs, hcan, hnest, hw, hgoes.onFront hc⟩

lemma EndsSimply.stopsAfter_nil (h : EndsSimply p ts stop) : p.StopsAfter ts ts.length := by
  obtain ⟨front, inner, s, m, rfl, hs, hcan, hnest, hw, hgoes⟩ := h
  have hstops := hgoes.stops [] inner.length
    (stopsAfter_itemParser hs hcan hnest hw (fun t ht => by cases ht))
  rwa [List.append_nil, ← List.length_append] at hstops

/-- Behind a statement that ends with a simple one and whose last semicolon is lost, a simple
statement is read as more of it or skipped. -/
lemma EndsSimply.readsOrStops {s' : Stmt} {back rest : List Token} {stop' : Token}
    (h : EndsSimply p ts stop) (hs' : s'.isSimple) (hcan' : s'.Canonical)
    (hw' : Written s'.marks (back ++ [stop'])) (hstop' : stop'.kind = .symbol .semicolon)
    (helse : ¬ Fronts (.keyword .kwElse) rest) : p.ReadsOrStops (ts ++ back) stop' rest := by
  obtain ⟨front, inner, s, m, rfl, hs, hcan, hnest, hw, hgoes⟩ := h
  rcases readsOrStops_itemParser hs hcan hnest hw hs' hcan' hw' hstop' rest with
    ⟨a, hreads⟩ | ⟨left, right, heq, hright, hstarts, hstops⟩
  · rw [List.append_assoc] at hreads
    obtain ⟨b, hreads⟩ := hgoes.reads (back ++ [stop']) a rest hreads helse
    refine Or.inl ⟨b, ?_⟩
    rwa [List.append_assoc, List.append_assoc]
  · rw [List.append_assoc] at hstops
    refine Or.inr ⟨front ++ left, right, ?_, hright, hstarts, ?_⟩
    · rw [List.append_assoc, heq, List.append_assoc]
    · rw [List.append_assoc, List.append_assoc, List.length_append]
      exact hgoes.stops (back ++ stop' :: rest) left.length hstops

section branches
variable {expr : Parser Expr} {branch : Parser Stmt} {c : Expr}

lemma EndsSimply.ifThen
    (hc : ∀ rest, (condition expr .expectedParenAfterIf .expectedParenAfterIfCondition).Reads left c
      rest)
    (h : EndsSimply branch ts stop) : EndsSimply (ifRest expr branch) (left ++ ts) stop := by
  rw [ifRest_eq]
  refine EndsSimply.behind (fun rest => hc (ts ++ rest))
    (h.andThen (fun yes rest helse => ⟨.ifThen c yes, ?_⟩))
  have hnone : (accept (.keyword .kwElse)).Reads [] none rest :=
    reads_accept.mpr (Or.inr ⟨rfl, rfl, helse⟩)
  exact hnone.andThen_nil (reads_succeed.mpr ⟨rfl, rfl⟩)

lemma EndsSimply.ifElse {first : List Token} {yes : Stmt} {e : Token}
    (hc : ∀ rest, (condition expr .expectedParenAfterIf .expectedParenAfterIfCondition).Reads left c
      rest)
    (hyes : ∀ rest, branch.Reads first yes (e :: rest)) (he : e.kind = .keyword .kwElse)
    (h : EndsSimply branch ts stop) :
    EndsSimply (ifRest expr branch) (left ++ (first ++ e :: ts)) stop := by
  have hsome (rest : List Token) :
      (accept (.keyword .kwElse)).Reads [e] (some e) (ts ++ rest) :=
    reads_accept.mpr (Or.inl ⟨e, rfl, rfl, he⟩)
  have helse : EndsSimply ((accept (.keyword .kwElse)).andThen (elseRest branch c yes)) ([e] ++ ts)
      stop := EndsSimply.behind hsome h.map
  rw [ifRest_eq]
  refine EndsSimply.behind (fun rest => hc (first ++ e :: ts ++ rest)) ?_
  exact EndsSimply.behind (fun rest => hyes (ts ++ rest)) helse

lemma EndsSimply.whileDo
    (hc : ∀ rest, (condition expr .expectedParenAfterWhile .expectedParenAfterWhileCondition).Reads
      left c rest)
    (h : EndsSimply branch ts stop) : EndsSimply (whileRest expr branch) (left ++ ts) stop := by
  rw [whileRest_eq]
  exact EndsSimply.behind (fun rest => hc (ts ++ rest)) h.map

end branches
end EndsSimply

section split
variable {front back u v : List Token} {s : Token}

lemma ne_of_kind {t u : Token} {k l : TokenKind} (ht : t.kind = k) (hu : u.kind = l) (h : k ≠ l) :
    t ≠ u := by
  rintro rfl
  exact h (ht.symm.trans hu)

lemma before_or_behind (h : front ++ back = u ++ s :: v) :
    (∃ v', front = u ++ s :: v' ∧ v = v' ++ back) ∨ ∃ u', u = front ++ u' ∧ back = u' ++ s :: v := by
  rcases List.append_eq_append_iff.mp h with ⟨u', rfl, hback⟩ | ⟨w, rfl, hw⟩
  · exact Or.inr ⟨u', rfl, hback⟩
  · cases w with
    | nil => exact Or.inr ⟨[], by rw [List.append_nil, List.append_nil], hw.symm⟩
    | cons x v' =>
      obtain ⟨rfl, rfl⟩ := List.cons.inj hw
      exact Or.inl ⟨v', rfl, rfl⟩

lemma exists_behind (h : front ++ back = u ++ s :: v) (hs : s ∉ front) :
    ∃ u', u = front ++ u' ∧ back = u' ++ s :: v :=
  (before_or_behind h).resolve_left (fun ⟨_, hfront, _⟩ =>
    hs (hfront ▸ List.mem_append_right u List.mem_cons_self))

lemma before_or_behind_of_ne {e : Token} (h : front ++ e :: back = u ++ s :: v) (hne : e ≠ s) :
    (∃ v', front = u ++ s :: v' ∧ v = v' ++ e :: back) ∨
      ∃ u', u = front ++ e :: u' ∧ back = u' ++ s :: v := by
  refine (before_or_behind h).imp_right (fun ⟨u', hu, hback⟩ => ?_)
  cases u' with
  | nil => exact absurd (List.cons.inj hback).1 hne
  | cons x others =>
    obtain ⟨rfl, rfl⟩ := List.cons.inj hback
    exact ⟨others, hu, rfl⟩

lemma exists_branch {k : Keyword} {c : Expr} {m : List Mark} (hcan : c.Canonical)
    (hs : s.kind = .symbol .semicolon)
    (hw : Written (.kind (.keyword k) :: .kind (.symbol .leftParen) ::
      (c.marks ++ .kind (.symbol .rightParen) :: m)) (u ++ s :: v)) :
    ∃ t left u', u = t :: (left ++ u') ∧ t.kind = .keyword k ∧ Written (conditionMarks c) left ∧
      Written m (u' ++ s :: v) := by
  obtain ⟨t, more, heq, ht, hmore⟩ := written_cons_iff.mp hw
  obtain ⟨left, back, rfl, hleft, hback⟩ := written_condition_iff.mp hmore
  have hfree : s ∉ t :: left := by
    obtain ⟨l, _, rfl, hl, hrest⟩ := written_cons_iff.mp hleft
    obtain ⟨inner, _, rfl, hinner, hend⟩ := written_append_iff.mp hrest
    obtain ⟨r, none, rfl, hr, hnil⟩ := written_cons_iff.mp hend
    obtain rfl := written_nil_iff.mp hnil
    rw [List.mem_cons, List.mem_cons, List.mem_append, List.mem_singleton]
    rintro (heq | heq | hmem | heq)
    · exact ne_of_kind hs ht (by simp) heq
    · exact ne_of_kind hs hl (by decide) heq
    · exact Expr.not_isBoundary hcan hinner s hmem (Or.inl hs)
    · exact ne_of_kind hs hr (by decide) heq
  have hrow : t :: left ++ back = u ++ s :: v := heq.symm
  obtain ⟨u', rfl, rfl⟩ := exists_behind hrow hfree
  exact ⟨t, left, u', rfl, ht, hleft, hback⟩

end split

section statements
variable {n : Nat} {s : Stmt} {ts : List Token} {stop : Token}

lemma endsSimply_statement (hcan : s.Canonical) (hplain : ¬ s.isDeclaration) (hnest : s.nest < n)
    (hw : Written s.marks (ts ++ [stop])) (hstop : stop.kind = .symbol .semicolon) :
    EndsSimply (statement n) ts stop := by
  induction n generalizing s ts with
  | zero => cases hnest
  | succ n ih =>
    have he := (readsOperands_readsExprs (n + 1)).2
    have hb := (readsStmts_readsRests n).1
    have hsimple (hs : s.isSimple) : EndsSimply (statement (n + 1)) ts stop := by
      have hne := (Stmt.simpleFront hs hcan hw).ne_nil
      refine ⟨[], ts, s, n, rfl, hs, hcan, hnest, hw, GoesOn.nil (fun rest => ?_)⟩
      exact (itemParser_of_written hcan hplain hw hne rest).symm
    cases s with
    | expr e => exact hsimple rfl
    | print keyword e => exact hsimple rfl
    | declare name init => exact absurd rfl hplain
    | block body =>
      rw [Stmt.marks, ← List.cons_append, written_concat_iff] at hw
      rw [hw.2] at hstop
      cases hstop
    | ifThen c yes =>
      obtain ⟨hccan, hycan, hyplain⟩ := hcan
      rw [Stmt.nest, Nat.max_lt, Nat.succ_lt_succ_iff] at hnest
      obtain ⟨t, left, inner, rfl, ht, hleft, hinner⟩ := exists_branch hccan hstop hw
      have hends := (ih hycan hyplain hnest.2 hinner).ifThen
        (fun rest => (readsWhen_condition he hccan hleft).1 hnest.1)
      rw [statement_succ]
      exact hends.onFront (by rw [ht])
    | ifElse c yes no =>
      obtain ⟨hccan, hycan, hyplain, hyclosed, hncan, hnplain⟩ := hcan
      rw [Stmt.nest, Nat.max_lt, Nat.max_lt, Nat.succ_lt_succ_iff, Nat.succ_lt_succ_iff] at hnest
      obtain ⟨t, left, inner, rfl, ht, hleft, hinner⟩ := exists_branch hccan hstop hw
      obtain ⟨first, _, heq, hfirst, hmore⟩ := written_append_iff.mp hinner
      obtain ⟨e, second, rfl, helse, hsecond⟩ := written_cons_iff.mp hmore
      have hne : e ≠ stop := ne_of_kind helse hstop (by decide)
      obtain ⟨second, rfl, rfl⟩ := (before_or_behind_of_ne heq.symm hne).resolve_left
        (fun ⟨_, _, hnil⟩ => List.append_ne_nil_of_right_ne_nil _ (List.cons_ne_nil _ _) hnil.symm)
      have hends := (ih hncan hnplain hnest.2.2 hsecond).ifElse
        (fun rest => (readsWhen_condition he hccan hleft).1 hnest.1)
        (fun rest => (hb yes first (e :: rest) hycan hyplain hfirst
          (fun h => absurd h hyclosed)).1 hnest.2.1) helse
      rw [statement_succ]
      exact hends.onFront (by rw [ht])
    | whileDo c body =>
      obtain ⟨hccan, hbcan, hbplain⟩ := hcan
      rw [Stmt.nest, Nat.max_lt, Nat.succ_lt_succ_iff] at hnest
      obtain ⟨t, left, inner, rfl, ht, hleft, hinner⟩ := exists_branch hccan hstop hw
      have hends := (ih hbcan hbplain hnest.2 hinner).whileDo
        (fun rest => (readsWhen_condition he hccan hleft).1 hnest.1)
      rw [statement_succ]
      exact hends.onFront (by rw [ht])

lemma endsSimply_itemParser (hcan : s.Canonical) (hnest : s.nest < n + 1)
    (hw : Written s.marks (ts ++ [stop])) (hstop : stop.kind = .symbol .semicolon) :
    EndsSimply (itemParser (n + 1)) ts stop := by
  by_cases hplain : s.isDeclaration
  · have hs := Stmt.isSimple_of_isDeclaration hplain
    exact ⟨[], ts, s, n, rfl, hs, hcan, hnest, hw, GoesOn.nil (fun _ => rfl)⟩
  · obtain ⟨front, inner, s', m, rfl, hs', hcan', hnest', hw', hgoes⟩ :=
      endsSimply_statement hcan hplain hnest hw hstop
    have hne := (Stmt.simpleFront hs' hcan' hw').ne_nil
    refine ⟨front, inner, s', m, rfl, hs', hcan', hnest', hw', hgoes.congr (fun rest => ?_)⟩
    exact itemParser_of_written hcan hplain hw (List.append_ne_nil_of_right_ne_nil front hne) rest

end statements
end Grammar
end Scriptlet
