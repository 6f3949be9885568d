import Scriptlet.Proofs.CursorSteps

/-!
# Cursors in order

A walk takes its cursor from one place to another by steps of few kinds. A relation between cursors
that holds across each kind of step, and lasts when one follows another, holds across every walk
that is made of them: so it is with the relation that one cursor stands before another.

Nothing here rests on the grammar, nor on what stands in the token list. What is said is said of
walks that have come to an end.
-/

namespace Scriptlet

namespace Cursor

/-- The cursor one token further on. -/
def next (c : Cursor) : Cursor := { c with place := c.place + 1 }

/-- The cursor after a call that began at `first`. -/
def wrote (c : Cursor) (part : Part) (first : Nat) : Cursor :=
  { c with visits := c.visits ++ [⟨part, first, c.place⟩] }

/-- How many items are over. -/
def items (c : Cursor) : Nat := c.visits.countP (·.part = .item)

/-- From `c` to `c'` the cursor went over no end of input. The calls in between left it no further
back, those of items further on, and there are no more items than tokens that it went over. -/
structure Before (c c' : Cursor) : Prop where
  tokens : c'.tokens = c.tokens
  place : c.place ≤ c'.place
  ends : ∀ i t, c.place ≤ i → i < c'.place → c.tokens[i]? = some t → t.kind ≠ .endOfInput
  visits : ∃ more, c'.visits = c.visits ++ more ∧
    ∀ v ∈ more, v.Within c.place c'.place ∧ (v.part = .item → v.entered < v.left)
  items : c'.items + c.place ≤ c.items + c'.place

/-- No item is among the calls from `c` to `c'`. -/
structure Quiet (c c' : Cursor) : Prop extends c.Before c' where
  same : c'.items = c.items

/-- From `c` to `c'` the cursor went over more tokens than there are items. -/
structure Gains (c c' : Cursor) : Prop extends c.Before c' where
  more : c'.items + c.place < c.items + c'.place

/-- What holds from a cursor to itself and across all steps that it takes, calls of items apart. -/
class Lasting (R : Cursor → Cursor → Prop) : Prop where
  refl : ∀ c, R c c
  trans : ∀ {c c' c''}, R c c' → R c' c'' → R c c''
  next : ∀ {c}, (∀ t, c.tokens[c.place]? = some t → t.kind ≠ .endOfInput) → R c c.next
  report : ∀ c error, R c { c with errors := c.errors ++ [error] }
  called : ∀ {c c' part}, part ≠ .item → R c c' → R c (c'.wrote part c.place)

section relations
variable {c c' c'' : Cursor} {part : Part}

lemma items_wrote (c : Cursor) (part : Part) (first : Nat) :
    (c.wrote part first).items = c.items + if part = .item then 1 else 0 := by
  unfold items wrote
  rw [List.countP_append, List.countP_singleton]
  simp only [decide_eq_true_eq]

lemma items_wrote_of_ne (h : part ≠ .item) (c : Cursor) (first : Nat) :
    (c.wrote part first).items = c.items := by
  rw [items_wrote, if_neg h, Nat.add_zero]

namespace Before

lemma refl (c : Cursor) : c.Before c where
  tokens := rfl
  place := Nat.le_refl _
  ends := fun _ _ hi hlt => absurd hlt (Nat.not_lt.mpr hi)
  visits := ⟨[], (List.append_nil _).symm, fun _ hv => absurd hv List.not_mem_nil⟩
  items := Nat.le_refl _

lemma trans (h : c.Before c') (h' : c'.Before c'') : c.Before c'' where
  tokens := h'.tokens.trans h.tokens
  place := Nat.le_trans h.place h'.place
  ends := by
    intro i t hi hlt ht
    by_cases hmid : i < c'.place
    · exact h.ends i t hi hmid ht
    · exact h'.ends i t (Nat.not_lt.mp hmid) hlt (h.tokens ▸ ht)
  visits := by
    obtain ⟨more, hmore, hfirst⟩ := h.visits
    obtain ⟨others, hothers, hlast⟩ := h'.visits
    refine ⟨more ++ others, by rw [hothers, hmore, List.append_assoc],
      List.forall_mem_append.mpr ⟨fun v hv => ?_, fun v hv => ?_⟩⟩
    · obtain ⟨⟨hentered, hforward, hleft⟩, hitem⟩ := hfirst v hv
      exact ⟨⟨hentered, hforward, Nat.le_trans hleft h'.place⟩, hitem⟩
    · obtain ⟨⟨hentered, hforward, hleft⟩, hitem⟩ := hlast v hv
      exact ⟨⟨Nat.le_trans h.place hentered, hforward, hleft⟩, hitem⟩
  items := by
    have hitems := h.items
    have hitems' := h'.items
    omega

lemma next (h : ∀ t, c.tokens[c.place]? = some t → t.kind ≠ .endOfInput) : c.Before c.next where
  tokens := rfl
  place := Nat.le_succ _
  ends := by
    intro i t hi hlt ht
    obtain rfl : i = c.place := Nat.le_antisymm (Nat.le_of_lt_succ hlt) hi
    exact h t ht
  visits := ⟨[], (List.append_nil _).symm, fun _ hv => absurd hv List.not_mem_nil⟩
  items := Nat.add_le_add_left (Nat.le_succ _) _

lemma report (c : Cursor) (error : SyntaxError) :
    c.Before { c with errors := c.errors ++ [error] } where
  tokens := rfl
  place := Nat.le_refl _
  ends := (refl c).ends
  visits := (refl c).visits
  items := Nat.le_refl _

lemma wrote (h : c.Before c') (hitem : part = .item → c.place < c'.place)
    (hitems : (c'.wrote part c.place).items + c.place ≤ c.items + c'.place) :
    c.Before (c'.wrote part c.place) where
  tokens := h.tokens
  place := h.place
  ends := h.ends
  visits := by
    obtain ⟨more, hmore, hall⟩ := h.visits
    refine ⟨more ++ [⟨part, c.place, c'.place⟩], ?_,
      List.forall_mem_append.mpr ⟨hall, List.forall_mem_singleton.mpr ⟨?_, hitem⟩⟩⟩
    · rw [Cursor.wrote, hmore, List.append_assoc]
    · exact ⟨Nat.le_refl _, h.place, Nat.le_refl _⟩
  items := hitems

lemma called (hpart : part ≠ .item) (h : c.Before c') : c.Before (c'.wrote part c.place) := by
  refine h.wrote (fun hitem => absurd hitem hpart) ?_
  rw [items_wrote_of_ne hpart]
  exact h.items

instance : Lasting Before := ⟨refl, trans, next, report, called⟩

end Before

instance : Lasting Quiet where
  refl c := ⟨.refl c, rfl⟩
  trans h h' := ⟨h.toBefore.trans h'.toBefore, h'.same.trans h.same⟩
  next h := ⟨.next h, rfl⟩
  report c error := ⟨.report c error, rfl⟩
  called hpart h := ⟨h.toBefore.called hpart, (items_wrote_of_ne hpart _ _).trans h.same⟩

namespace Gains

lemma of_quiet (h : c.Quiet c') (hlt : c.place < c'.place) : c.Gains c' :=
  ⟨h.toBefore, by rw [h.same]; exact Nat.add_lt_add_left hlt _⟩

lemma trans_before (h : c.Gains c') (h' : c'.Before c'') : c.Gains c'' :=
  ⟨h.toBefore.trans h', by have hmore := h.more; have hitems := h'.items; omega⟩

lemma behind (h : c.Before c') (h' : c'.Gains c'') : c.Gains c'' :=
  ⟨h.trans h'.toBefore, by have hitems := h.items; have hmore := h'.more; omega⟩

lemma next (h : ∀ t, c.tokens[c.place]? = some t → t.kind ≠ .endOfInput) : c.Gains c.next :=
  ⟨.next h, Nat.add_lt_add_left (Nat.lt_succ_self _) _⟩

lemma called (hpart : part ≠ .item) (h : c.Gains c') : c.Gains (c'.wrote part c.place) :=
  ⟨h.toBefore.called hpart, by rw [items_wrote_of_ne hpart]; exact h.more⟩

lemma place_lt (h : c.Gains c') : c.place < c'.place := by
  obtain ⟨more, hmore, -⟩ := h.visits
  have hitems : c.items ≤ c'.items := by
    unfold Cursor.items
    rw [hmore, List.countP_append]
    exact Nat.le_add_right _ _
  have := h.more
  omega

/-- The token that was gained pays for the item. -/
lemma wrote_item (h : c.Gains c') : c.Before (c'.wrote .item c.place) := by
  refine h.toBefore.wrote (fun _ => h.place_lt) ?_
  rw [items_wrote, if_pos rfl]
  have := h.more
  omega

end Gains
end relations
end Cursor

open Cursor

/-- The relation holds across the walk whenever it comes to an end. -/
def Walk.Keeps {α : Type} (R : Cursor → Cursor → Prop) (walk : Walk α) : Prop :=
  ∀ c a c', walk c = some (a, c') → R c c'

/-- The relation holds across the attempt whether it is stopped or not. -/
def Attempt.Keeps {α : Type} (R : Cursor → Cursor → Prop) (p : Attempt α) : Prop :=
  Walk.Keeps R p.run

namespace Walk
variable {α β : Type} {R : Cursor → Cursor → Prop} [Lasting R] {c c' : Cursor} {walk : Walk α}
  {t : Token}

lemma bind_eq_some {f : α → Walk β} {b : β} :
    (walk >>= f) c = some (b, c') ↔ ∃ a c'', walk c = some (a, c'') ∧ f a c'' = some (b, c') := by
  change ((walk c).bind fun x => f x.1 x.2) = some (b, c') ↔ _
  rw [Option.bind_eq_some_iff]
  constructor
  · rintro ⟨⟨a, c''⟩, hwalk, hf⟩
    exact ⟨a, c'', hwalk, hf⟩
  · rintro ⟨a, c'', hwalk, hf⟩
    exact ⟨(a, c''), hwalk, hf⟩

lemma pure_eq_some {a b : α} : (pure a : Walk α) c = some (b, c') ↔ a = b ∧ c = c' := by
  change some (a, c) = some (b, c') ↔ _
  rw [Option.some.injEq, Prod.mk.injEq]

lemma peek_eq_some (h : peek c = some (t, c')) :
    c.tokens[min c.place (c.tokens.length - 1)]? = some t ∧ c' = c := by
  obtain ⟨u, hu, heq⟩ := Option.map_eq_some_iff.mp h
  obtain ⟨rfl, rfl⟩ := Prod.mk.inj heq
  exact ⟨hu, rfl⟩

lemma previous_stays (h : previous c = some (t, c')) : c' = c := by
  obtain ⟨u, -, heq⟩ := Option.map_eq_some_iff.mp h
  exact (Prod.mk.inj heq).2.symm

lemma atEnd_eq_some {b : Bool} (h : atEnd c = some (b, c')) :
    ∃ t, peek c = some (t, c) ∧ b = (t.kind == .endOfInput) ∧ c' = c := by
  obtain ⟨t, c'', hpeek, hpure⟩ := bind_eq_some.mp h
  obtain ⟨-, rfl⟩ := peek_eq_some hpeek
  obtain ⟨rfl, rfl⟩ := pure_eq_some.mp hpure
  exact ⟨t, hpeek, rfl, rfl⟩

lemma atEnd_stays {b : Bool} (h : atEnd c = some (b, c')) : c' = c := by
  obtain ⟨-, -, -, heq⟩ := atEnd_eq_some h
  exact heq

lemma atEnd_congr {b : Bool} (htokens : c'.tokens = c.tokens) (hplace : c'.place = c.place)
    (h : atEnd c = some (b, c)) : atEnd c' = some (b, c') := by
  obtain ⟨t, hpeek, rfl, -⟩ := atEnd_eq_some h
  have ht := (peek_eq_some hpeek).1
  have hpeek' : peek c' = some (t, c') := by
    unfold peek
    rw [htokens, hplace, ht]
    rfl
  unfold atEnd
  rw [bind_of_eq hpeek']
  rfl

lemma check_stays {kind : TokenKind} {b : Bool} (h : check kind c = some (b, c')) : c' = c := by
  obtain ⟨atEnd, c'', hend, hrest⟩ := bind_eq_some.mp h
  obtain rfl := atEnd_stays hend
  cases atEnd with
  | true => exact (pure_eq_some.mp hrest).2.symm
  | false =>
    obtain ⟨t, c''', hpeek, hpure⟩ := bind_eq_some.mp hrest
    obtain ⟨-, rfl⟩ := peek_eq_some hpeek
    exact (pure_eq_some.mp hpure).2.symm

lemma kind_ne_of_atEnd (h : atEnd c = some (false, c')) :
    ∀ t, c.tokens[c.place]? = some t → t.kind ≠ .endOfInput := by
  obtain ⟨u, hpeek, hkind, -⟩ := atEnd_eq_some h
  intro t ht
  -- where there is a token under the cursor, `peek` does not fall back to the last one
  have hlt : c.place < c.tokens.length := (List.getElem?_eq_some_iff.mp ht).1
  have hmin : min c.place (c.tokens.length - 1) = c.place :=
    Nat.min_eq_left (Nat.le_sub_one_of_lt hlt)
  have hu := (peek_eq_some hpeek).1
  rw [hmin, ht] at hu
  obtain rfl := Option.some.inj hu
  exact beq_eq_false_iff_ne.mp hkind.symm

lemma advance_next (h : atEnd c = some (false, c)) (ha : advance c = some (t, c')) :
    c' = c.next := by
  obtain ⟨b, c'', hend, hrest⟩ := bind_eq_some.mp ha
  obtain ⟨rfl, rfl⟩ := Prod.mk.inj (Option.some.inj (hend.symm.trans h))
  obtain ⟨⟨⟩, c''', hmove, hprevious⟩ := bind_eq_some.mp hrest
  cases hmove
  exact previous_stays hprevious

section keeps
variable {f : α → Walk β}

lemma keeps_of_stays (h : ∀ c a c', walk c = some (a, c') → c' = c) :
    Keeps R walk := by
  intro c a c' hrun
  rw [h c a c' hrun]
  exact Lasting.refl c

lemma keeps_pure (a : α) : Keeps R (pure a : Walk α) :=
  keeps_of_stays (fun _ _ _ h => (pure_eq_some.mp h).2.symm)

lemma keeps_peek : Keeps R peek :=
  keeps_of_stays (fun _ _ _ h => (peek_eq_some h).2)

lemma keeps_check (kind : TokenKind) : Keeps R (check kind) :=
  keeps_of_stays (fun _ _ _ h => check_stays h)

lemma Keeps.bind (h : Keeps R walk) (hf : ∀ a, Keeps R (f a)) :
    Keeps R (walk >>= f) := by
  intro c b c' hrun
  obtain ⟨a, c'', hwalk, hrest⟩ := bind_eq_some.mp hrun
  exact Lasting.trans (h c a c'' hwalk) (hf a c'' b c' hrest)

lemma keeps_advance : Keeps R advance := by
  intro c t c' hrun
  obtain ⟨b, c'', hend, hrest⟩ := bind_eq_some.mp hrun
  obtain rfl := atEnd_stays hend
  cases b with
  | true =>
    rw [previous_stays hrest]
    exact Lasting.refl c''
  | false => exact advance_next hend hrun ▸ Lasting.next (kind_ne_of_atEnd hend)

lemma keeps_accept (kind : TokenKind) : Keeps R (accept kind) := by
  refine (keeps_check kind).bind (fun b => ?_)
  cases b with
  | true => exact keeps_advance.bind (fun _ => keeps_pure _)
  | false => exact keeps_pure none

lemma called_eq_some {part : Part} {a : α} (h : called part walk c = some (a, c')) :
    ∃ c'', walk c = some (a, c'') ∧ c' = c''.wrote part c.place := by
  obtain ⟨before, c₁, hget, hrest⟩ := bind_eq_some.mp h
  cases hget
  obtain ⟨b, c'', hwalk, hrest⟩ := bind_eq_some.mp hrest
  obtain ⟨⟨⟩, c₂, hmodify, hpure⟩ := bind_eq_some.mp hrest
  cases hmodify
  obtain ⟨rfl, rfl⟩ := pure_eq_some.mp hpure
  exact ⟨c'', hwalk, rfl⟩

lemma Keeps.called {part : Part} (hpart : part ≠ .item) (h : Keeps R walk) :
    Keeps R (called part walk) := by
  intro c a c' hrun
  obtain ⟨c'', hwalk, rfl⟩ := called_eq_some hrun
  exact Lasting.called hpart (h c a c'' hwalk)

lemma keeps_skip (rounds : Nat) : Keeps R (skip rounds) := by
  induction rounds with
  | zero => exact fun _ _ _ h => nomatch h
  | succ rounds ih =>
    rw [skip]
    refine (keeps_of_stays (fun _ _ _ h => atEnd_stays h)).bind (fun b => ?_)
    cases b with
    | true => exact keeps_pure ()
    | false =>
      refine (keeps_of_stays (fun _ _ _ h => previous_stays h)).bind (fun before =>
        keeps_peek.bind (fun next => ?_))
      split
      · exact keeps_pure ()
      · exact keeps_advance.bind (fun _ => ih)

lemma keeps_synchronize (rounds : Nat) : Keeps R (synchronize rounds) :=
  (keeps_advance.bind (fun _ => keeps_skip rounds)).called (by decide)

lemma gains_synchronize {rounds : Nat} (h : atEnd c = some (false, c))
    (hrun : synchronize rounds c = some ((), c')) : c.Gains c' := by
  obtain ⟨c'', hwalk, rfl⟩ := called_eq_some hrun
  obtain ⟨t, c₁, hadvance, hskip⟩ := bind_eq_some.mp hwalk
  obtain rfl := advance_next h hadvance
  refine Gains.called (by decide) ?_
  exact (Gains.next (kind_ne_of_atEnd h)).trans_before (keeps_skip rounds _ _ _ hskip)

lemma keeps_items {closed : Walk Bool} {item : Walk (Option Stmt)}
    (hclosed : ∀ c b c', closed c = some (b, c') →
      c' = c ∧ (b = false → atEnd c = some (false, c)))
    (hitem : ∀ c s c', atEnd c = some (false, c) → item c = some (s, c') → R c c')
    (rounds : Nat) : Keeps R (items closed item rounds) := by
  induction rounds with
  | zero => exact fun _ _ _ h => nomatch h
  | succ rounds ih =>
    intro c ss c' hrun
    rw [items] at hrun
    obtain ⟨b, c₁, hb, hrest⟩ := bind_eq_some.mp hrun
    obtain ⟨rfl, hopen⟩ := hclosed c b c₁ hb
    cases b with
    | true => exact keeps_pure [] c₁ ss c' hrest
    | false =>
      obtain ⟨s, c₂, hs, hothers⟩ := bind_eq_some.mp hrest
      refine Lasting.trans (hitem c₁ s c₂ (hopen rfl) hs) ?_
      exact (ih.bind (fun _ => keeps_pure _)) c₂ ss c' hothers

end keeps
end Walk

namespace Attempt
variable {α β : Type} {R : Cursor → Cursor → Prop} [Lasting R] {c c' : Cursor} {p : Attempt α}

section combinators
variable {f : α → Attempt β} {walk : Walk α}

lemma keeps_pure (a : α) : Keeps R (pure a : Attempt α) :=
  Walk.keeps_pure (Except.ok a)

lemma Keeps.bind (h : Keeps R p) (hf : ∀ a, Keeps R (f a)) :
    Keeps R (p >>= f) := by
  refine Walk.Keeps.bind h (fun outcome => ?_)
  cases outcome with
  | ok a => exact hf a
  | error error => exact Walk.keeps_pure _

lemma keeps_lift (h : walk.Keeps R) : Keeps R (liftM walk : Attempt α) :=
  Walk.Keeps.bind h (fun a => Walk.keeps_pure (Except.ok a))

lemma Keeps.called {part : Part} (hpart : part ≠ .item) (h : Keeps R p) :
    Keeps R (called part p) :=
  Walk.Keeps.called hpart h

lemma keeps_fail (fault : SyntaxFault) : Keeps R (fail fault : Attempt α) :=
  (keeps_lift Walk.keeps_peek).bind (fun _ => Walk.keeps_pure _)

lemma keeps_expect (kind : TokenKind) (fault : SyntaxFault) :
    Keeps R (expect kind fault) := by
  refine (keeps_lift (Walk.keeps_check kind)).bind (fun b => ?_)
  cases b with
  | true => exact keeps_lift Walk.keeps_advance
  | false => exact keeps_fail fault

lemma lift_bind_eq_some {o : Except SyntaxError β}
    (h : ((liftM walk : Attempt α) >>= f).run c = some (o, c')) :
    ∃ a c'', walk c = some (a, c'') ∧ (f a).run c'' = some (o, c') := by
  obtain ⟨outcome, c₁, hlift, hrest⟩ := Walk.bind_eq_some.mp h
  change (walk >>= fun a => pure (Except.ok a)) c = some (outcome, c₁) at hlift
  obtain ⟨a, c₂, hwalk, hpure⟩ := Walk.bind_eq_some.mp hlift
  obtain ⟨rfl, rfl⟩ := Walk.pure_eq_some.mp hpure
  exact ⟨a, c₂, hwalk, hrest⟩

end combinators

/-- An answer is given further on. -/
def Moves (p : Attempt α) : Prop := ∀ c a c', p.run c = some (.ok a, c') → c.place < c'.place

lemma moves_fail (fault : SyntaxFault) : Moves (fail fault : Attempt α) := by
  intro c a c' h
  obtain ⟨t, c'', -, hthrow⟩ := lift_bind_eq_some h
  cases hthrow

lemma Moves.bind {f : α → Attempt β} (h : p.Moves) (hf : ∀ a, (f a).Keeps Before) :
    (p >>= f).Moves := by
  intro c b c' hrun
  obtain ⟨outcome, c'', hp, hrest⟩ := Walk.bind_eq_some.mp hrun
  cases outcome with
  | ok a => exact Nat.lt_of_lt_of_le (h c a c'' hp) (hf a c'' _ c' hrest).place
  | error error => cases hrest

lemma Moves.called {part : Part} (h : p.Moves) : (called part p).Moves := by
  intro c a c' hrun
  obtain ⟨c'', hp, rfl⟩ := Walk.called_eq_some hrun
  exact h c a c'' hp

section onFront
variable {choose : Token → Option (Attempt α)} {otherwise : Attempt α}

lemma onFront_eq_some {o : Except SyntaxError α}
    (hend : ∀ t, t.kind = .endOfInput → choose t = none)
    (h : (onFront choose otherwise).run c = some (o, c')) :
    (∃ t q, choose t = some q ∧ Walk.atEnd c = some (false, c) ∧ q.run c.next = some (o, c')) ∨
      otherwise.run c = some (o, c') := by
  obtain ⟨t, c'', hpeek, hrest⟩ := lift_bind_eq_some h
  obtain rfl := (Walk.peek_eq_some hpeek).2
  cases hq : choose t with
  | none =>
    rw [hq] at hrest
    exact Or.inr hrest
  | some q =>
    rw [hq] at hrest
    have hkind : t.kind ≠ .endOfInput := fun hk => by
      rw [hend t hk] at hq
      cases hq
    have hgoes : Walk.atEnd c'' = some (false, c'') := by
      unfold Walk.atEnd
      rw [Walk.bind_of_eq hpeek, beq_eq_false_iff_ne.mpr hkind]
      rfl
    obtain ⟨u, c₁, hadvance, hrun⟩ := lift_bind_eq_some hrest
    obtain rfl := Walk.advance_next hgoes hadvance
    exact Or.inl ⟨t, q, hq, hgoes, hrun⟩

lemma Keeps.onFront (hend : ∀ t, t.kind = .endOfInput → choose t = none)
    (hc : ∀ t q, choose t = some q → q.Keeps R) (ho : otherwise.Keeps R) :
    (onFront choose otherwise).Keeps R := by
  intro c o c' hrun
  obtain ⟨t, q, hq, hgoes, hrest⟩ | hrest := onFront_eq_some hend hrun
  · exact Lasting.trans (Lasting.next (Walk.kind_ne_of_atEnd hgoes)) (hc t q hq _ o c' hrest)
  · exact ho c o c' hrest

lemma Moves.onFront (hend : ∀ t, t.kind = .endOfInput → choose t = none)
    (hc : ∀ t q, choose t = some q → q.Keeps Before) (ho : otherwise.Moves) :
    (onFront choose otherwise).Moves := by
  intro c a c' hrun
  obtain ⟨t, q, hq, -, hrest⟩ | hrest := onFront_eq_some hend hrun
  · exact (hc t q hq _ _ c' hrest).place
  · exact ho c a c' hrest

end onFront

end Attempt
end Scriptlet
