import Scriptlet.Proofs.SemicolonStop
import Scriptlet.Proofs.Sentences

/-!
# Viable prefixes

A parser tracks a sort of phrases when, on any tokens, it reads a phrase of the sort, or finds too
much nesting, or is stopped by a token up to which everything could still be completed to a phrase.
In no case does it look further than one token ahead. What a production tracks follows from what
its parts track, so tracking goes through the whole grammar by one induction on the levels.
-/

namespace Scriptlet

/-- Whether a complaint keeps a statement from being read. -/
def Complaint.blocks (c : Complaint) : Bool := c.fault != .invalidTarget

/-- All complaints of a reading of `ts`: those that it reported and the one that stopped it. -/
def Reading.complaints {α : Type} (r : Reading (Except SyntaxFault α)) (ts : List Token) :
    List Complaint :=
  match r.value with
  | .ok _ => r.reported
  | .error fault => r.reported ++ [⟨fault, (ts.drop r.used).head?⟩]

namespace Parser
variable {α β : Type}

/-- The first complaint that keeps a statement from being read. -/
def firstBlock? (p : Parser α) (ts : List Token) : Option Complaint :=
  ((p ts).complaints ts).find? Complaint.blocks

section firstBlock
variable {p q : Parser α} {f : α → Parser β} {ts : List Token} {c : Complaint}

lemma find?_onTargets {cs : List Complaint} (h : OnTargets cs) :
    cs.find? Complaint.blocks = none := by
  rw [List.find?_eq_none]
  intro c hc
  simp [Complaint.blocks, (h c hc).1]

lemma firstBlock?_fail {fault : SyntaxFault} (h : fault ≠ .invalidTarget) :
    (fail fault : Parser α).firstBlock? ts = some ⟨fault, ts.head?⟩ := by
  have hb : Complaint.blocks ⟨fault, ts.head?⟩ = true := bne_iff_ne.mpr h
  exact List.find?_cons_of_pos hb

lemma complaints_andThen_of_ok {a : α} (h : (p ts).value = .ok a) :
    (p.andThen f ts).complaints ts =
      (p ts).reported ++ (f a (ts.drop (p ts).used)).complaints (ts.drop (p ts).used) := by
  rw [andThen_of_ok h]
  unfold Reading.complaints
  cases (f a (ts.drop (p ts).used)).value with
  | error fault =>
    dsimp only
    rw [List.append_assoc, List.drop_drop]
  | ok b => rfl

lemma firstBlock?_andThen (h : p.firstBlock? ts = some c) :
    (p.andThen f).firstBlock? ts = some c := by
  unfold firstBlock? at h ⊢
  cases hv : (p ts).value with
  | error fault =>
    rw [andThen_of_error hv, ← h]
    unfold Reading.complaints
    rw [hv]
  | ok a =>
    unfold Reading.complaints at h
    rw [hv] at h
    rw [complaints_andThen_of_ok hv, List.find?_append, h, Option.some_or]

lemma firstBlock?_andThen_of_read {front rest : List Token} {a : α} {reported : List Complaint}
    (hp : p (front ++ rest) = ⟨.ok a, front.length, reported⟩) (ht : OnTargets reported) :
    (p.andThen f).firstBlock? (front ++ rest) = (f a).firstBlock? rest := by
  have hv : (p (front ++ rest)).value = .ok a := by rw [hp]
  unfold firstBlock?
  rw [complaints_andThen_of_ok hv, hp, List.drop_left, List.find?_append, find?_onTargets ht,
    Option.none_or]

lemma firstBlock?_onFront_some {choose : Token → Option (Parser α)} {otherwise : Parser α}
    {t : Token} (hc : choose t = some q) :
    (onFront choose otherwise).firstBlock? (t :: ts) = q.firstBlock? ts := by
  have hread : onFront choose otherwise (t :: ts) = (q ts).after 1 := by
    rw [onFront, hc]
  unfold firstBlock?
  rw [hread]
  unfold Reading.complaints
  simp only [Reading.after_value, Reading.after_used, Reading.after_reported, Nat.add_comm 1,
    List.drop_succ_cons]

end firstBlock

/-- On these tokens `p` reads a phrase of the language, or finds too much nesting, or is stopped where
a phrase could still have been completed. Reading and stopping depend on one token ahead only. -/
inductive Tracks (p : Parser α) (L : List Token → Prop) : List Token → Prop where
  | reads (front : List Token) {rest : List Token} {a : α} {reported : List Complaint}
      (targets : OnTargets reported)
      (read : ∀ rest', rest'.head? = rest.head? →
        p (front ++ rest') = ⟨.ok a, front.length, reported⟩)
      (mem : L front) : Tracks p L (front ++ rest)
  | tooDeep {ts : List Token}
      (deep : (p.firstBlock? ts).map Complaint.fault = some .tooMuchNesting) : Tracks p L ts
  | stops (front : List Token) {rest : List Token} {c : Complaint} (blamed : c.blamed = rest.head?)
      (viable : ∃ more, L (front ++ more))
      (first : ∀ rest', rest'.head? = rest.head? → p.firstBlock? (front ++ rest') = some c) :
      Tracks p L (front ++ rest)

section Tracks
variable {p q : Parser α} {f : α → Parser β} {L L' : List Token → Prop} {ts : List Token}

lemma head?_append_congr {front rest rest' : List Token} (h : rest'.head? = rest.head?) :
    (front ++ rest').head? = (front ++ rest).head? := by
  rw [List.head?_append, List.head?_append, h]

lemma tracks_succeed {a : α} (h : L []) : Tracks (succeed a) L ts :=
  .reads [] OnTargets.nil (fun _ _ => rfl) h

lemma tracks_fail {fault : SyntaxFault} (hf : fault ≠ .invalidTarget) (h : ∃ w, L w) :
    Tracks (fail fault : Parser α) L ts :=
  .stops [] (c := ⟨fault, ts.head?⟩) rfl h
    (fun rest' h' => by rw [List.nil_append, firstBlock?_fail hf, h'])

lemma tracks_tooDeep : Tracks (Grammar.tooDeep : Parser α) L ts :=
  .tooDeep (congrArg (Option.map Complaint.fault) (firstBlock?_fail (by decide)))

lemma Tracks.congr (h : Tracks p L ts) (hq : ∀ ts', ts'.head? = ts.head? → q ts' = p ts') :
    Tracks q L ts := by
  have hfirst : ∀ ts', ts'.head? = ts.head? → q.firstBlock? ts' = p.firstBlock? ts' := by
    intro ts' h'
    unfold firstBlock?
    rw [hq ts' h']
  cases h with
  | reads front targets read mem =>
    exact .reads front targets (fun rest' h' => (hq _ (head?_append_congr h')).trans (read rest' h')) mem
  | tooDeep deep => exact .tooDeep (by rw [hfirst _ rfl, deep])
  | stops front blamed viable first =>
    exact .stops front blamed viable
      (fun rest' h' => (hfirst _ (head?_append_congr h')).trans (first rest' h'))

lemma Tracks.mono (h : Tracks p L' ts) (hL : ∀ w, L' w → L w) : Tracks p L ts := by
  cases h with
  | reads front targets read mem => exact .reads front targets read (hL _ mem)
  | tooDeep deep => exact .tooDeep deep
  | stops front blamed viable first =>
    obtain ⟨more, hmore⟩ := viable
    exact .stops front blamed ⟨more, hL _ hmore⟩ first

lemma Tracks.exists_stop {c : Complaint} (h : Tracks p L ts) (hc : p.firstBlock? ts = some c)
    (hfault : c.fault ≠ .tooMuchNesting) :
    ∃ front rest, ts = front ++ rest ∧ c.blamed = rest.head? ∧ (∃ more, L (front ++ more)) ∧
      ∀ rest', rest'.head? = rest.head? → p.firstBlock? (front ++ rest') = some c := by
  cases h with
  | @reads front rest a reported targets read mem =>
    unfold firstBlock? at hc
    rw [read rest rfl] at hc
    exact absurd (hc.symm.trans (find?_onTargets targets)) (Option.some_ne_none c)
  | tooDeep deep =>
    rw [hc] at deep
    exact absurd (Option.some.inj deep) hfault
  | @stops front rest c' blamed viable first =>
    obtain rfl : c' = c := Option.some.inj ((first rest rfl).symm.trans hc)
    exact ⟨front, rest, rfl, blamed, viable, first⟩

lemma tracks_andThen (hp : Tracks p L' ts) (hext : ∀ w, L' w → ∃ more, L (w ++ more))
    (hf : ∀ a front rest, ts = front ++ rest → L' front →
      Tracks (f a) (fun w => L (front ++ w)) rest) : Tracks (p.andThen f) L ts := by
  cases hp with
  | @reads front rest a reported targets read mem =>
    have hnext := hf a front rest rfl mem
    cases hnext with
    | @reads right rest b reported' targets' read' mem' =>
      rw [← List.append_assoc]
      refine .reads _ (a := b) (targets.append targets') (fun rest' h' => ?_) mem'
      have hread := read (right ++ rest') (head?_append_congr h')
      rw [List.append_assoc]
      simp only [Parser.andThen, hread, List.drop_left, read' rest' h', List.length_append]
    | tooDeep deep =>
      exact .tooDeep (by rw [firstBlock?_andThen_of_read (read _ rfl) targets, deep])
    | @stops right rest c blamed viable first =>
      obtain ⟨more, hmore⟩ := viable
      rw [← List.append_assoc]
      refine .stops _ blamed ⟨more, by rwa [List.append_assoc]⟩ (fun rest' h' => ?_)
      have hread := read (right ++ rest') (head?_append_congr h')
      rw [List.append_assoc, firstBlock?_andThen_of_read hread targets, first rest' h']
  | tooDeep deep =>
    obtain ⟨c, hc, hdeep⟩ := Option.map_eq_some_iff.mp deep
    exact .tooDeep (by rw [firstBlock?_andThen hc, Option.map_some, hdeep])
  | stops front blamed viable first =>
    obtain ⟨more, hmore⟩ := viable
    obtain ⟨more', hmore'⟩ := hext _ hmore
    rw [List.append_assoc] at hmore'
    exact .stops front blamed ⟨_, hmore'⟩ (fun rest' h' => firstBlock?_andThen (first rest' h'))

lemma tracks_map {g : α → β} (hp : Tracks p L' ts) (h : ∀ w, L' w → L w) :
    Tracks (p.andThen (fun a => succeed (g a))) L ts :=
  tracks_andThen hp (fun w hw => ⟨[], by rw [List.append_nil]; exact h w hw⟩)
    (fun a front rest _ hw => tracks_succeed (by rw [List.append_nil]; exact h front hw))

lemma tracks_onFront {choose : Token → Option (Parser α)} {otherwise : Parser α}
    (hc : ∀ t q more, choose t = some q → ts = t :: more → Tracks q (fun w => L (t :: w)) more)
    (ho : Tracks otherwise L ts) : Tracks (onFront choose otherwise) L ts := by
  cases ts with
  | nil =>
    refine ho.congr (fun ts' h' => ?_)
    rw [List.head?_eq_none_iff.mp h', onFront]
  | cons t more =>
    cases ht : choose t with
    | none =>
      refine ho.congr (fun ts' h' => ?_)
      obtain ⟨more', rfl⟩ := List.head?_eq_some_iff.mp h'
      rw [onFront, ht]
    | some q =>
      have hq := hc t q more ht rfl
      cases hq with
      | @reads front rest a reported targets read mem =>
        refine .reads (t :: front) (a := a) targets (fun rest' h' => ?_) mem
        rw [List.cons_append, onFront, ht]
        dsimp only
        rw [read rest' h', Reading.after, List.length_cons, Nat.add_comm]
      | tooDeep deep => exact .tooDeep (by rw [firstBlock?_onFront_some ht, deep])
      | @stops front rest c blamed viable first =>
        refine .stops (t :: front) blamed viable (fun rest' h' => ?_)
        rw [List.cons_append, firstBlock?_onFront_some ht, first rest' h']

lemma tracks_expect {kind : TokenKind} {fault : SyntaxFault} {f : Token → Parser β}
    (hfault : fault ≠ .invalidTarget) (hL : ∃ w, L w)
    (hf : ∀ t more, t.kind = kind → ts = t :: more → Tracks (f t) (fun w => L (t :: w)) more) :
    Tracks ((expect kind fault).andThen f) L ts := by
  rw [expect_andThen]
  refine tracks_onFront (fun t q more hc heq => ?_) (tracks_fail hfault hL)
  split at hc
  · rename_i hk
    cases hc
    exact hf t more hk heq
  · cases hc

lemma tracks_accept {kind : TokenKind} {f : Option Token → Parser β}
    (hnone : Tracks (f none) L ts)
    (hsome : ∀ t more, t.kind = kind → ts = t :: more →
      Tracks (f (some t)) (fun w => L (t :: w)) more) :
    Tracks ((accept kind).andThen f) L ts := by
  rw [accept_andThen]
  refine tracks_onFront (fun t q more hc heq => ?_) hnone
  split at hc
  · rename_i hk
    cases hc
    exact hsome t more hk heq
  · cases hc

end Tracks
end Parser
end Scriptlet
