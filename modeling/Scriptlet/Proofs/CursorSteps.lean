import Scriptlet.Proofs.CleanReading
import Scriptlet.Proofs.CursorParser

/-!
# Steps of the cursor

As long as a cursor stands before an end of input, the token under it is the front one of those up
to there, and every step of it is one of reading them. A walk follows a reading when it does, from
any such place, what the reading does with the tokens up to the end: it comes to the same answer, it
moves the cursor over the tokens that the reading uses, it reports the same, and none of its calls
gets beyond that.
-/

namespace Scriptlet

namespace Cursor
variable {c : Cursor} {rounds : Nat} {ahead : List Token} {e t : Token}

/-- From the cursor on stand the tokens `ahead`, which are fewer than there are rounds, and behind
them `e`, the first end of input. -/
structure Sees (c : Cursor) (rounds : Nat) (ahead : List Token) (e : Token) : Prop where
  tokens : ∃ after, c.tokens.drop c.place = ahead ++ e :: after
  short : ahead.length < rounds
  ahead : ∀ t ∈ ahead, t.kind ≠ .endOfInput
  ends : e.kind = .endOfInput

/-- The cursor behind `used` tokens more. -/
def moved (c : Cursor) (used : Nat) (errors : List SyntaxError) (visits : List Visit) : Cursor :=
  { c with
    place := c.place + used
    errors := c.errors ++ errors
    visits := c.visits ++ visits }

@[simp] lemma place_moved {n : Nat} {errors : List SyntaxError} {visits : List Visit} :
    (c.moved n errors visits).place = c.place + n := rfl

lemma moved_zero : c.moved 0 [] [] = c := by
  unfold moved
  rw [List.append_nil, List.append_nil, Nat.add_zero]

lemma moved_moved {m n : Nat} {errors others : List SyntaxError} {visits more : List Visit} :
    (c.moved m errors visits).moved n others more =
      c.moved (m + n) (errors ++ others) (visits ++ more) := by
  unfold moved
  simp only [Nat.add_assoc, List.append_assoc]

lemma Sees.moved (h : c.Sees rounds ahead e) {n : Nat} (hn : n ≤ ahead.length)
    (errors : List SyntaxError) (visits : List Visit) :
    (c.moved n errors visits).Sees rounds (ahead.drop n) e := by
  obtain ⟨⟨after, htokens⟩, hshort, hahead, hend⟩ := h
  have hdrop : (ahead.drop n).length ≤ ahead.length := by
    rw [List.length_drop]
    exact Nat.sub_le _ _
  refine ⟨⟨after, ?_⟩, Nat.lt_of_le_of_lt hdrop hshort,
    fun t ht => hahead t (List.mem_of_mem_drop ht), hend⟩
  calc c.tokens.drop (c.place + n) = (c.tokens.drop c.place).drop n := by rw [List.drop_drop]
    _ = (ahead ++ e :: after).drop n := by rw [htokens]
    _ = ahead.drop n ++ e :: after := List.drop_append_of_le_length hn

lemma Sees.next (h : c.Sees rounds (t :: ahead) e) (errors : List SyntaxError)
    (visits : List Visit) :
    (c.moved 1 errors visits).Sees rounds ahead e :=
  h.moved (Nat.le_add_left 1 ahead.length) errors visits

lemma Sees.getElem? (h : c.Sees rounds ahead e) :
    c.tokens[c.place]? = some (ahead.head?.getD e) := by
  obtain ⟨after, htokens⟩ := h.tokens
  rw [← List.head?_drop, htokens]
  cases ahead <;> rfl

lemma Sees.place_lt (h : c.Sees rounds ahead e) : c.place < c.tokens.length :=
  (List.getElem?_eq_some_iff.mp h.getElem?).1

end Cursor

namespace Walk
variable {α β : Type} {c c' : Cursor} {rounds : Nat} {ahead : List Token} {e t : Token} {a : α}

lemma bind_of_eq {walk : Walk α} {f : α → Walk β} (h : walk c = some (a, c')) :
    (walk >>= f) c = f a c' := by
  change (walk c >>= fun x => f x.1 x.2) = _
  rw [h]
  rfl

lemma peek_of_sees (h : c.Sees rounds ahead e) : peek c = some (ahead.head?.getD e, c) := by
  have hmin : min c.place (c.tokens.length - 1) = c.place :=
    Nat.min_eq_left (Nat.le_sub_one_of_lt h.place_lt)
  unfold peek
  rw [hmin, h.getElem?]
  rfl

lemma atEnd_of_sees (h : c.Sees rounds ahead e) : atEnd c = some (ahead.isEmpty, c) := by
  unfold atEnd
  rw [bind_of_eq (peek_of_sees h)]
  cases ahead with
  | nil => exact congrArg (fun b => some (b, c)) (beq_iff_eq.mpr h.ends)
  | cons t rest =>
    exact congrArg (fun b => some (b, c)) (beq_eq_false_iff_ne.mpr (h.ahead t List.mem_cons_self))

lemma check_of_kind {kind : TokenKind} (h : c.Sees rounds (t :: ahead) e) (hk : t.kind = kind) :
    check kind c = some (true, c) := by
  unfold check
  rw [bind_of_eq (atEnd_of_sees h), List.isEmpty_cons, if_neg Bool.false_ne_true,
    bind_of_eq (peek_of_sees h)]
  exact congrArg (fun b => some (b, c)) (beq_iff_eq.mpr hk)

lemma check_of_ne {kind : TokenKind} (h : c.Sees rounds ahead e)
    (hk : ∀ t ∈ ahead.head?, t.kind ≠ kind) :
    check kind c = some (false, c) := by
  unfold check
  rw [bind_of_eq (atEnd_of_sees h)]
  cases ahead with
  | nil => rfl
  | cons t rest =>
    rw [List.isEmpty_cons, if_neg Bool.false_ne_true, bind_of_eq (peek_of_sees h)]
    exact congrArg (fun b => some (b, c)) (beq_eq_false_iff_ne.mpr (hk t rfl))

lemma previous_of_eq (h : c.tokens[c.place - 1]? = some t) : previous c = some (t, c) := by
  unfold previous
  rw [h]
  rfl

lemma previous_moved (h : c.Sees rounds (t :: ahead) e) :
    previous (c.moved 1 [] []) = some (t, c.moved 1 [] []) :=
  previous_of_eq h.getElem?

lemma advance_of_sees (h : c.Sees rounds (t :: ahead) e) :
    advance c = some (t, c.moved 1 [] []) := by
  unfold advance
  rw [bind_of_eq (atEnd_of_sees h), List.isEmpty_cons, if_neg Bool.false_ne_true]
  have hmove : moveOn c = some ((), c.moved 1 [] []) := by
    unfold Cursor.moved
    rw [List.append_nil, List.append_nil]
    rfl
  rw [bind_of_eq hmove]
  exact previous_moved h

lemma advance_at_end (h : c.Sees rounds [] e) : ∃ t, advance c = some (t, c) := by
  have hlt : c.place - 1 < c.tokens.length := Nat.lt_of_le_of_lt (Nat.sub_le _ _) h.place_lt
  refine ⟨c.tokens[c.place - 1], ?_⟩
  unfold advance
  rw [bind_of_eq (atEnd_of_sees h)]
  exact previous_of_eq (List.getElem?_eq_getElem hlt)

section skip
variable {turns : Nat}

lemma skip_at_end (h : c.Sees rounds [] e) (hturns : 0 < turns) : skip turns c = some ((), c) := by
  obtain ⟨more, rfl⟩ := Nat.exists_eq_add_one_of_ne_zero (Nat.ne_of_gt hturns)
  rw [skip, bind_of_eq (atEnd_of_sees h)]
  rfl

lemma skip_of_sees (h : c.Sees rounds ahead e) (hprevious : previous c = some (t, c))
    (hturns : ahead.length < turns) :
    skip turns c = some ((), c.moved (Grammar.skipped (t :: ahead) - 1) [] []) := by
  induction turns generalizing ahead c t with
  | zero => exact absurd hturns (Nat.not_lt_zero _)
  | succ turns ih =>
    cases ahead with
    | nil => rw [skip_at_end h hturns, Grammar.skipped, Nat.sub_self, Cursor.moved_zero]
    | cons u rest =>
      rw [skip, bind_of_eq (atEnd_of_sees h), List.isEmpty_cons, if_neg Bool.false_ne_true,
        bind_of_eq hprevious, bind_of_eq (peek_of_sees h), List.head?_cons, Option.getD_some,
        Grammar.skipped]
      by_cases hstop : t.kind = .symbol .semicolon ∨ u.kind.startsStatement
      · rw [if_pos hstop, if_pos hstop, Cursor.moved_zero]
        rfl
      · have hpos : 0 < Grammar.skipped (u :: rest) := Grammar.skipped_pos (List.cons_ne_nil _ _)
        rw [if_neg hstop, if_neg hstop, bind_of_eq (advance_of_sees h),
          ih (h.next [] []) (previous_moved h) (Nat.lt_of_succ_lt_succ hturns), Cursor.moved_moved,
          Nat.add_sub_cancel, Nat.add_sub_cancel' hpos]
        rfl

end skip

end Walk

/-- The call lies between two places and left the cursor no further back than it found it. -/
def Visit.Within (v : Visit) (first last : Nat) : Prop :=
  first ≤ v.entered ∧ v.entered ≤ v.left ∧ v.left ≤ last

/-- From `c` on the tokens `ahead` a walk answers `a`, behind `used` of them, having reported the
complaints. -/
structure Arrives {α : Type} (e : Token) (ahead : List Token) (c : Cursor) (walk : Walk α) (a : α)
    (used : Nat) (reported : List Complaint) : Prop where
  within : used ≤ ahead.length
  run : ∃ visits, walk c = some (a, c.moved used (reported.map (Complaint.resolve e)) visits) ∧
    ∀ v ∈ visits, v.Within c.place (c.place + used)

section arrives
variable {α β : Type} {c : Cursor} {ahead : List Token} {e : Token} {walk : Walk α} {a : α}
  {f : α → Walk β} {b : β} {m n rounds : Nat} {reported others : List Complaint}

lemma arrives_of_eq (h : walk c = some (a, c)) : Arrives e ahead c walk a 0 [] := by
  refine ⟨Nat.zero_le _, [], ?_, fun v hv => absurd hv List.not_mem_nil⟩
  rw [h, List.map_nil, Cursor.moved_zero]

lemma Arrives.congr {walk' : Walk α} (h : Arrives e ahead c walk' a m reported)
    (heq : walk c = walk' c) : Arrives e ahead c walk a m reported := by
  obtain ⟨hm, visits, hwalk, hvisits⟩ := h
  exact ⟨hm, visits, heq.trans hwalk, hvisits⟩

lemma arrives_advance {t : Token} (h : c.Sees rounds (t :: ahead) e) :
    Arrives e (t :: ahead) c Walk.advance t 1 [] :=
  ⟨Nat.le_add_left 1 ahead.length, [], Walk.advance_of_sees h,
    fun _ hv => absurd hv List.not_mem_nil⟩

lemma Arrives.bind (h : Arrives e ahead c walk a m reported) (hsees : c.Sees rounds ahead e)
    (hf : ∀ c', c'.Sees rounds (ahead.drop m) e → Arrives e (ahead.drop m) c' (f a) b n others) :
    Arrives e ahead c (walk >>= f) b (m + n) (reported ++ others) := by
  obtain ⟨hm, visits, hwalk, hvisits⟩ := h
  obtain ⟨hn, more, hrest, hmore⟩ := hf _ (hsees.moved hm _ visits)
  rw [List.length_drop] at hn
  refine ⟨by omega, visits ++ more, ?_, List.forall_mem_append.mpr ⟨fun v hv => ?_, fun v hv => ?_⟩⟩
  · rw [Walk.bind_of_eq hwalk, hrest, Cursor.moved_moved, List.map_append]
  · obtain ⟨hfirst, hforward, hlast⟩ := hvisits v hv
    exact ⟨hfirst, hforward, by omega⟩
  · obtain ⟨hfirst, hforward, hlast⟩ := hmore v hv
    rw [Cursor.place_moved] at hfirst hlast
    exact ⟨by omega, hforward, by omega⟩

lemma Arrives.map (h : Arrives e ahead c walk a m reported) (g : α → β) :
    Arrives e ahead c (walk >>= fun a => pure (g a)) (g a) m reported := by
  obtain ⟨hm, visits, hwalk, hvisits⟩ := h
  refine ⟨hm, visits, ?_, hvisits⟩
  rw [Walk.bind_of_eq hwalk]
  rfl

lemma arrives_report (complaint : Complaint) :
    Arrives e ahead c (Walk.report (complaint.resolve e)) () 0 [complaint] := by
  refine ⟨Nat.zero_le _, [], ?_, fun _ hv => absurd hv List.not_mem_nil⟩
  rw [Cursor.moved, List.append_nil]
  rfl

lemma Arrives.called {part : Part} (h : Arrives e ahead c walk a m reported) :
    Arrives e ahead c (Walk.called part walk) a m reported := by
  obtain ⟨hm, visits, hwalk, hvisits⟩ := h
  have hcall : Visit.Within ⟨part, c.place, c.place + m⟩ c.place (c.place + m) :=
    ⟨Nat.le_refl _, Nat.le_add_right _ _, Nat.le_refl _⟩
  refine ⟨hm, visits ++ [⟨part, c.place, c.place + m⟩], ?_,
    List.forall_mem_append.mpr ⟨hvisits, List.forall_mem_singleton.mpr hcall⟩⟩
  unfold Walk.called
  have hget : (get : Walk Cursor) c = some (c, c) := rfl
  rw [Walk.bind_of_eq hget, Walk.bind_of_eq hwalk, Cursor.moved, Cursor.moved, ← List.append_assoc]
  rfl

end arrives

/-- What an attempt answers, where a reading has left `rest`. -/
def blamedOn {α : Type} (e : Token) (rest : List Token) :
    Except SyntaxFault α → Except SyntaxError α
  | .ok a => .ok a
  | .error fault => .error ⟨fault, rest.head?.getD e⟩

/-- Before an end of input `e`, and if the rounds do not run out, a walk does what a reading does
with the tokens up to there. -/
def Walk.Follows {α : Type} (rounds : Nat) (e : Token) (walk : Walk α)
    (read : List Token → Reading α) : Prop :=
  ∀ c ahead, c.Sees rounds ahead e →
    Arrives e ahead c walk (read ahead).value (read ahead).used (read ahead).reported

/-- From `c` on the tokens `ahead` an attempt does what a reading of them did. -/
def Attempt.ArrivesAs {α : Type} (e : Token) (ahead : List Token) (c : Cursor) (p : Attempt α)
    (r : Reading (Except SyntaxFault α)) : Prop :=
  Arrives e ahead c p.run (blamedOn e (ahead.drop r.used) r.value) r.used r.reported

/-- Before an end of input `e`, and if the rounds do not run out, an attempt does what a parser does
with the tokens up to there. -/
def Attempt.Follows {α : Type} (rounds : Nat) (e : Token) (p : Attempt α) (p' : Parser α) : Prop :=
  ∀ c ahead, c.Sees rounds ahead e → p.ArrivesAs e ahead c (p' ahead)

namespace Attempt
section combinators
variable {α β : Type} {rounds : Nat} {e : Token} {c c' : Cursor} {ahead : List Token}
  {p : Attempt α} {p' : Parser α} {f : α → Attempt β} {f' : α → Parser β}

lemma lift_run {walk : Walk α} {a : α} (h : walk c = some (a, c')) :
    (liftM walk : Attempt α).run c = some (.ok a, c') := by
  change ((walk c).bind fun x => some (Except.ok x.1, x.2)) = _
  rw [h]
  rfl

lemma lift_bind {walk : Walk α} {a : α} (h : walk c = some (a, c')) :
    ((liftM walk : Attempt α) >>= f).run c = (f a).run c' := by
  have hrun : ((liftM walk : Attempt α) >>= f).run =
      (liftM walk : Attempt α).run >>= ExceptT.bindCont f := rfl
  rw [hrun, Walk.bind_of_eq (lift_run h)]
  rfl

lemma arrives_lift {walk : Walk α} {a : α} {m : Nat} {reported : List Complaint}
    (h : Arrives e ahead c walk a m reported) :
    Arrives e ahead c (liftM walk : Attempt α).run (.ok a) m reported := by
  obtain ⟨hm, visits, hwalk, hvisits⟩ := h
  exact ⟨hm, visits, lift_run hwalk, hvisits⟩

lemma follows_pure (a : α) : Follows rounds e (pure a) (.succeed a) :=
  fun _ _ _ => arrives_of_eq rfl

lemma follows_fail (fault : SyntaxFault) :
    Follows rounds e (fail fault : Attempt α) (.fail fault) := by
  intro c ahead h
  refine arrives_of_eq ?_
  unfold fail
  rw [lift_bind (Walk.peek_of_sees h)]
  rfl

lemma follows_tooDeep : Follows rounds e (tooDeep : Attempt α) Grammar.tooDeep := follows_fail _

lemma ArrivesAs.andThen (hp : p.ArrivesAs e ahead c (p' ahead)) (hsees : c.Sees rounds ahead e)
    (hf : ∀ a, (p' ahead).value = .ok a → ∀ c', c'.Sees rounds (ahead.drop (p' ahead).used) e →
      (f a).ArrivesAs e (ahead.drop (p' ahead).used) c' (f' a (ahead.drop (p' ahead).used))) :
    (p >>= f).ArrivesAs e ahead c (p'.andThen f' ahead) := by
  have hrun : (p >>= f).run = p.run >>= ExceptT.bindCont f := rfl
  unfold ArrivesAs at hp ⊢
  rw [hrun]
  cases hv : (p' ahead).value with
  | error fault =>
    rw [Parser.andThen_of_error hv]
    rw [hv] at hp
    have hstop := hp.bind (f := ExceptT.bindCont f) hsees (fun c' _ => arrives_of_eq rfl)
    rwa [List.append_nil] at hstop
  | ok a =>
    rw [Parser.andThen_of_ok hv]
    rw [hv] at hp
    have hgo := hp.bind (f := ExceptT.bindCont f) hsees (fun c' h' => hf a hv c' h')
    rwa [List.drop_drop] at hgo

lemma Follows.andThen (hp : Follows rounds e p p') (hf : ∀ a, Follows rounds e (f a) (f' a)) :
    Follows rounds e (p >>= f) (p'.andThen f') :=
  fun c ahead h => (hp c ahead h).andThen h (fun a _ c' h' => hf a c' _ h')

lemma Follows.called {part : Part} (h : Follows rounds e p p') :
    Follows rounds e (called part p) p' :=
  fun c ahead hsees => (h c ahead hsees).called

lemma ArrivesAs.behind {t : Token} {q : Attempt α} {r : Reading (Except SyntaxFault α)}
    (hp : ∀ c', c'.Sees rounds ahead e → p.ArrivesAs e ahead c' r)
    (h : c.Sees rounds (t :: ahead) e)
    (hq : q.run c = p.run (c.moved 1 [] [])) : q.ArrivesAs e (t :: ahead) c (r.after 1) := by
  have hdrop : (t :: ahead).drop (1 + r.used) = ahead.drop r.used := by
    rw [Nat.add_comm, List.drop_succ_cons]
  have hadvance : (Walk.advance >>= fun _ => p.run) c = p.run (c.moved 1 [] []) :=
    Walk.bind_of_eq (Walk.advance_of_sees h)
  have hstep := (arrives_advance h).bind (f := fun _ => p.run) h hp
  unfold ArrivesAs
  rw [Reading.after_used, Reading.after_value, Reading.after_reported, hdrop]
  exact hstep.congr (hq.trans hadvance.symm)

section onFront
variable {choose : Token → Option (Attempt α)} {otherwise : Attempt α} {t : Token}

lemma onFront_of_none (h : Walk.peek c = some (t, c)) (hc : choose t = none) :
    (onFront choose otherwise).run c = otherwise.run c := by
  unfold onFront
  rw [lift_bind h, hc]

lemma onFront_of_some (h : c.Sees rounds (t :: ahead) e) (hc : choose t = some p) :
    (onFront choose otherwise).run c = p.run (c.moved 1 [] []) := by
  unfold onFront
  rw [lift_bind (Walk.peek_of_sees h), List.head?_cons, Option.getD_some, hc]
  exact lift_bind (Walk.advance_of_sees h)

lemma Follows.onFront {choose' : Token → Option (Parser α)} {otherwise' : Parser α}
    (hend : ∀ t, t.kind = .endOfInput → choose t = none)
    (hc : ∀ t, Option.Rel (Follows rounds e) (choose t) (choose' t))
    (ho : Follows rounds e otherwise otherwise') :
    Follows rounds e (onFront choose otherwise) (Parser.onFront choose' otherwise') := by
  intro c ahead h
  cases ahead with
  | nil => exact (ho c [] h).congr (onFront_of_none (Walk.peek_of_sees h) (hend e h.ends))
  | cons t rest =>
    have hchoice := hc t
    rw [Parser.onFront]
    cases hq : choose t with
    | none =>
      rw [hq] at hchoice
      generalize choose' t = q' at hchoice
      cases hchoice
      exact (ho c (t :: rest) h).congr (onFront_of_none (Walk.peek_of_sees h) hq)
    | some q =>
      rw [hq] at hchoice
      generalize choose' t = q' at hchoice
      cases hchoice with
      | some hq' =>
        exact ArrivesAs.behind (fun c' h' => hq' c' rest h') h (onFront_of_some h hq)

end onFront

lemma follows_taking {kind : TokenKind} {make : Token → α} {otherwise : Attempt α}
    {otherwise' : Parser α}
    (htake : ∀ c t rest, c.Sees rounds (t :: rest) e → t.kind = kind →
      p.run c = some (.ok (make t), c.moved 1 [] []))
    (hleave : ∀ c ahead, c.Sees rounds ahead e → (∀ t ∈ ahead.head?, t.kind ≠ kind) →
      p.run c = otherwise.run c)
    (ho : Follows rounds e otherwise otherwise') :
    Follows rounds e p (.onFront
      (fun t => if t.kind = kind then some (.succeed (make t)) else none) otherwise') := by
  intro c ahead h
  cases ahead with
  | nil => exact (ho c [] h).congr (hleave c [] h (fun t ht => absurd ht (Option.not_mem_none t)))
  | cons t rest =>
    rw [Parser.onFront]
    by_cases hk : t.kind = kind
    · rw [if_pos hk]
      refine ArrivesAs.behind (fun c' h' => follows_pure (make t) c' rest h') h ?_
      exact htake c t rest h hk
    · rw [if_neg hk]
      exact (ho c (t :: rest) h).congr
        (hleave c (t :: rest) h (fun u hu => Option.mem_some.mp hu ▸ hk))

lemma follows_accept (kind : TokenKind) :
    Follows rounds e (liftM (Walk.accept kind)) (Parser.accept kind) := by
  refine follows_taking ?_ ?_ (follows_pure none)
  · intro c t rest h hk
    refine lift_run ?_
    unfold Walk.accept
    rw [Walk.bind_of_eq (Walk.check_of_kind h hk), if_pos rfl,
      Walk.bind_of_eq (Walk.advance_of_sees h)]
    rfl
  · intro c ahead h hk
    refine lift_run ?_
    unfold Walk.accept
    rw [Walk.bind_of_eq (Walk.check_of_ne h hk), if_neg Bool.false_ne_true]
    rfl

lemma follows_expect (kind : TokenKind) (fault : SyntaxFault) :
    Follows rounds e (expect kind fault) (Parser.expect kind fault) := by
  refine follows_taking ?_ ?_ (follows_fail fault)
  · intro c t rest h hk
    unfold expect
    rw [lift_bind (Walk.check_of_kind h hk), if_pos rfl, lift_run (Walk.advance_of_sees h)]
  · intro c ahead h hk
    unfold expect
    rw [lift_bind (Walk.check_of_ne h hk), if_neg Bool.false_ne_true]

end combinators
end Attempt
end Scriptlet
