import Scriptlet.Proofs.ErrorContainment

/-!
# Recovery before a keyword

A statement that lacks its semicolon may stand before a keyword that starts the next one. When its
fault lies on one of its own tokens, it is skipped up to the keyword, and the next statement is read
as if it stood alone. But when nothing is wrong with it up to its end the fault lies on the keyword.
Since skipping goes over the token at fault in any case, the keyword is then lost, and with it the
statement that it starts, up to the next semicolon or the next keyword.
-/

namespace Scriptlet

/-- A statement without its semicolon, which may be broken in any other way too: after an optional
`var` or `print` stand tokens of which none is a semicolon or starts a statement, and they do not
begin a block. -/
def Unfinished (ts : List Token) : Prop :=
  ts ≠ [] ∧ ∃ lead body, ts = lead ++ body ∧
    (lead = [] ∨ ∃ t, lead = [t] ∧ (t.kind = .keyword .kwVar ∨ t.kind = .keyword .kwPrint)) ∧
    (∀ t ∈ body, t.kind ≠ .symbol .semicolon ∧ ¬ t.kind.startsStatement) ∧
    ¬ Parser.Fronts (.symbol .leftBrace) ts

lemma Unfinished.brokenAtMost {ts : List Token} (h : Unfinished ts) :
    BrokenAtMost (ts ++ [semicolonToken]) := by
  obtain ⟨-, lead, body, rfl, hlead, hbody, hbrace⟩ := h
  exact ⟨lead, body, semicolonToken, rfl, hlead, hbody, rfl, hbrace⟩

section program
variable {ts : List Token}

/-- The tokens behind a statement that is skipped. -/
def afterSkipped (ts : List Token) : List Token := ts.drop (Grammar.skipped (beforeEnd ts))

lemma exists_skipped (ts : List Token) :
    ∃ lost, ts = lost ++ afterSkipped ts ∧ lost.length = Grammar.skipped (beforeEnd ts) ∧
      beforeEnd ts = lost ++ beforeEnd (afterSkipped ts) := by
  have hle := Grammar.skipped_le (beforeEnd ts)
  obtain ⟨rest, hrest⟩ : beforeEnd ts <+: ts := List.takeWhile_prefix _
  have htake := congrArg (List.take (Grammar.skipped (beforeEnd ts))) hrest
  rw [List.take_append_of_le_length hle] at htake
  have hsplit : ts = (beforeEnd ts).take (Grammar.skipped (beforeEnd ts)) ++ afterSkipped ts := by
    rw [htake, afterSkipped, List.take_append_drop]
  refine ⟨_, hsplit, List.length_take_of_le hle, (congrArg beforeEnd hsplit).trans ?_⟩
  exact beforeEnd_append (fun t ht => kind_ne_endOfInput_of_mem_beforeEnd (List.mem_of_mem_take ht))

lemma parse_of_item {bs : List Token} {v : Option Stmt} {reported : List Complaint} (hne : ts ≠ [])
    (hend : ∀ t ∈ ts, t.kind ≠ .endOfInput) (hblamed : ∀ c ∈ reported, c.blamed.isSome)
    (hitem : Grammar.item (maxNesting + 1) (ts ++ beforeEnd bs) = ⟨v, ts.length, reported⟩)
    (e : Token) : parse (ts ++ bs) = ⟨v.toList ++ (parse bs).statements,
      reported.map (Complaint.resolve e) ++ (parse bs).errors⟩ :=
  parse_of_apart hend hblamed (Grammar.apart_of_item hne hitem rfl) e

lemma beforeEnd_keyword {t : Token} (ht : t.kind.startsStatement) (bs : List Token) :
    beforeEnd (t :: bs) = t :: beforeEnd bs := by
  refine List.takeWhile_cons_of_pos (bne_iff_ne.mpr (fun hk => ?_))
  rw [hk] at ht
  cases ht

lemma errors_of_item {s : Token} {v : Option Stmt} {reported : List Complaint}
    (hend : ∀ t ∈ ts, t.kind ≠ .endOfInput) (hs : s.kind = .symbol .semicolon)
    (hblamed : ∀ c ∈ reported, c.blamed.isSome)
    (hitem : Grammar.item (maxNesting + 1) (ts ++ [s]) = ⟨v, ts.length + 1, reported⟩) (e : Token) :
    (parse (ts ++ [s])).errors = reported.map (Complaint.resolve e) := by
  have hfree : ∀ t ∈ ts ++ [s], t.kind ≠ .endOfInput := by
    refine List.forall_mem_append.mpr ⟨hend, fun t ht => ?_⟩
    rw [List.mem_singleton.mp ht, hs]
    decide
  have hall : Grammar.item (maxNesting + 1) (ts ++ [s] ++ beforeEnd []) =
      ⟨v, (ts ++ [s]).length, reported⟩ := by
    rw [beforeEnd, List.takeWhile_nil, List.append_nil, hitem, List.length_append,
      List.length_singleton]
  have hparse := parse_of_item (by simp) hfree hblamed hall e
  rw [List.append_nil] at hparse
  rw [hparse]
  simp [parse, beforeEnd, Grammar.items]

section skipped
variable {reported : List Complaint} {fault : SyntaxFault}

lemma parse_skippedInside {u : Token} (hne : ts ≠ []) (hend : ∀ t ∈ ts, t.kind ≠ .endOfInput)
    (htargets : OnTargetsAmong ts reported)
    (h : Grammar.SkippedInside (Grammar.itemParser (maxNesting + 1)) ts
      (reported ++ [⟨fault, some u⟩])) (e : Token) :
    (∀ s, s.kind = .symbol .semicolon →
        (parse (ts ++ [s])).errors = reported.map (Complaint.resolve e) ++ [⟨fault, u⟩]) ∧
      ∀ t bs, t.kind.startsStatement → parse (ts ++ t :: bs) =
        ⟨(parse (t :: bs)).statements,
          reported.map (Complaint.resolve e) ++ ⟨fault, u⟩ :: (parse (t :: bs)).errors⟩ := by
  have hblamed := (htargets.onTargets.oneFault_append fault u).blamed
  refine ⟨fun s hs => ?_, fun t bs ht => ?_⟩
  · rw [errors_of_item hend hs hblamed (h.2 s [] hs) e, List.map_append]
    rfl
  · have hskip := h.1 t (beforeEnd bs) ht
    rw [← beforeEnd_keyword ht] at hskip
    rw [parse_of_item hne hend hblamed hskip e, List.map_append, List.append_assoc]
    rfl

lemma parse_skippedBehind (hne : ts ≠ []) (hend : ∀ t ∈ ts, t.kind ≠ .endOfInput)
    (htargets : OnTargetsAmong ts reported)
    (h : Grammar.SkippedBehind (Grammar.itemParser (maxNesting + 1)) ts reported fault)
    (e : Token) :
    (∀ s, s.kind = .symbol .semicolon → (parse (ts ++ [s])).errors ∈
        [reported.map (Complaint.resolve e), reported.map (Complaint.resolve e) ++ [⟨fault, s⟩]]) ∧
      ∀ t bs, t.kind.startsStatement → parse (ts ++ t :: bs) =
        ⟨(parse (afterSkipped (t :: bs))).statements, reported.map (Complaint.resolve e) ++
          ⟨fault, t⟩ :: (parse (afterSkipped (t :: bs))).errors⟩ := by
  have hblamed (u : Token) := (htargets.onTargets.oneFault_append fault u).blamed
  refine ⟨fun s hs => ?_, fun t bs ht => ?_⟩
  · rw [List.mem_pair]
    rcases h.2 with ⟨v, hreads⟩ | hfails
    · exact Or.inl (errors_of_item hend hs htargets.onTargets.oneFault.blamed (hreads s [] hs) e)
    · refine Or.inr ?_
      rw [errors_of_item hend hs (hblamed s) (hfails s [] hs) e, List.map_append]
      rfl
  · obtain ⟨lost, hlost, hlen, hrest⟩ := exists_skipped (t :: bs)
    have hskip := h.1 t (beforeEnd bs) ht
    rw [← beforeEnd_keyword ht, ← hlen, hrest, ← List.length_append, ← List.append_assoc] at hskip
    have hfree : ∀ u ∈ ts ++ lost, u.kind ≠ .endOfInput :=
      List.forall_mem_append.mpr ⟨hend, fun u hu => kind_ne_endOfInput_of_mem_beforeEnd
        (hrest ▸ List.mem_append_left _ hu)⟩
    have hparse := parse_of_item (List.append_ne_nil_of_left_ne_nil hne lost) hfree (hblamed t)
      hskip e
    rw [List.append_assoc, ← hlost, List.map_append, List.append_assoc] at hparse
    exact hparse

end skipped

/-- Before a keyword that starts the next statement, an unfinished one has one error more than those
of its assignment targets. If that error is on one of its tokens, a semicolon does not mend it, and
what follows is parsed on its own. Otherwise the error is on the keyword, there is none on any token
of the statement when a semicolon completes it, and what follows is parsed but for a first statement
that is skipped. Which it is does not depend on what follows. -/
theorem parse_unfinished_append (hend : ∀ t ∈ ts, t.kind ≠ .endOfInput) (h : Unfinished ts) :
    ∃ errs fault, (∀ err ∈ errs, err.fault = .invalidTarget ∧ err.token ∈ ts) ∧
      ((∃ u ∈ ts,
          (∀ s, s.kind = .symbol .semicolon → (parse (ts ++ [s])).errors = errs ++ [⟨fault, u⟩]) ∧
          ∀ t bs, t.kind.startsStatement → parse (ts ++ t :: bs) =
            ⟨(parse (t :: bs)).statements, errs ++ ⟨fault, u⟩ :: (parse (t :: bs)).errors⟩) ∨
        (∀ s, s.kind = .symbol .semicolon →
            (parse (ts ++ [s])).errors ∈ [errs, errs ++ [⟨fault, s⟩]]) ∧
          ∀ t bs, t.kind.startsStatement → parse (ts ++ t :: bs) =
            ⟨(parse (afterSkipped (t :: bs))).statements,
              errs ++ ⟨fault, t⟩ :: (parse (afterSkipped (t :: bs))).errors⟩) := by
  obtain ⟨front, stop, heq, hupTo, hstarts, hplain⟩ := Grammar.exists_upTo h.brokenAtMost
  obtain rfl : ts = front := List.append_inj_left' heq rfl
  obtain ⟨reported, fault, htargets, hcases⟩ := Grammar.recovering_closes
    (Grammar.closes_itemParser maxNesting h.1 hupTo.free hplain) hupTo.free hstarts
  refine ⟨reported.map (Complaint.resolve stop), fault, fun err herr => ?_, ?_⟩
  · obtain ⟨c, hc, rfl⟩ := List.mem_map.mp herr
    obtain ⟨hfault, t, ht, hb⟩ := htargets c hc
    refine ⟨hfault, ?_⟩
    rwa [Complaint.resolve, hb]
  · rcases hcases with ⟨u, hu, hinside⟩ | hbehind
    · exact Or.inl ⟨u, hu, parse_skippedInside h.1 hend htargets hinside stop⟩
    · exact Or.inr (parse_skippedBehind h.1 hend htargets hbehind stop)

def nilToken : Token := ⟨.keyword .kwNil, "nil", none, 1⟩

/-- The tokens of `print nil;`. -/
def printsNil : List Token := [⟨.keyword .kwPrint, "print", none, 1⟩, nilToken, semicolonToken]

theorem parse_unfinished_append_nilTwice :
    (∀ t ∈ [nilToken, nilToken], t.kind ≠ .endOfInput) ∧ Unfinished [nilToken, nilToken] ∧
      (parse [nilToken, nilToken, semicolonToken]).errors =
        [⟨.expectedSemicolonAfterExpression, nilToken⟩] ∧
      ∃ errs, errs ≠ [] ∧ parse ([nilToken, nilToken] ++ printsNil) =
        ⟨(parse printsNil).statements, errs ++ (parse printsNil).errors⟩ := by
  have hend : ∀ t ∈ [nilToken, nilToken], t.kind ≠ .endOfInput := by decide
  have hunfinished : Unfinished [nilToken, nilToken] := by
    refine ⟨List.cons_ne_nil _ _, [], [nilToken, nilToken], rfl, Or.inl rfl, by decide, ?_⟩
    rintro ⟨t, ht, hk⟩
    cases ht
    cases hk
  have hcompleted : (parse [nilToken, nilToken, semicolonToken]).errors =
      [⟨.expectedSemicolonAfterExpression, nilToken⟩] := by decide +kernel
  refine ⟨hend, hunfinished, hcompleted, ?_⟩
  obtain ⟨errs, fault, htargets, ⟨u, -, -, hkept⟩ | ⟨hsemicolon, -⟩⟩ :=
    parse_unfinished_append hend hunfinished
  · refine ⟨errs ++ [⟨fault, u⟩], List.append_ne_nil_of_right_ne_nil _ (List.cons_ne_nil _ _), ?_⟩
    rw [printsNil, hkept _ _ rfl, List.append_assoc]
    rfl
  · have hmem := hsemicolon semicolonToken rfl
    rw [List.cons_append, List.cons_append, List.nil_append, hcompleted, List.mem_pair] at hmem
    rcases hmem with rfl | hlast
    · cases (htargets _ List.mem_cons_self).1
    · have hsame := congrArg List.getLast? hlast
      rw [List.getLast?_append] at hsame
      cases hsame

/-- In `nil print nil;` the fault is on `print`, and the whole statement that it starts is lost. -/
theorem parse_unfinished_append_not_kept :
    (∀ t ∈ [nilToken], t.kind ≠ .endOfInput) ∧ Unfinished [nilToken] ∧
      printsNil.head?.map Token.kind = some (.keyword .kwPrint) ∧
      ¬ ∃ errs, errs ≠ [] ∧ parse ([nilToken] ++ printsNil) =
        ⟨(parse printsNil).statements, errs ++ (parse printsNil).errors⟩ := by
  refine ⟨by decide, ⟨List.cons_ne_nil _ _, [], [nilToken], rfl, Or.inl rfl, by decide, ?_⟩, rfl, ?_⟩
  · rintro ⟨t, ht, hk⟩
    cases ht
    cases hk
  · rintro ⟨errs, -, heq⟩
    have hlost : (parse ([nilToken] ++ printsNil)).statements.length = 0 := by decide +kernel
    have hkept : (parse printsNil).statements.length = 1 := by decide +kernel
    rw [heq, hkept] at hlost
    cases hlost

end program
end Scriptlet
