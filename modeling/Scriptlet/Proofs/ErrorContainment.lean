import Scriptlet.Proofs.ParserCompleteness
import Scriptlet.Proofs.SemicolonStop

/-!
# Errors stay inside their statement

Statements that are read without an error, and a statement up to its only semicolon, whatever is
wrong with it, are read in the same way whatever follows, and what follows is read as if it stood
alone. So parsing a list of tokens that goes on with another one gives the statements and errors
of the first and then those of the second.
-/

namespace Scriptlet

/-- A statement that may be broken in any way but ends at its semicolon: after an optional `var` or
`print` stand tokens of which none is a semicolon or starts a statement, and they do not begin a
block. -/
def BrokenAtMost (ts : List Token) : Prop :=
  ∃ lead body stop, ts = lead ++ body ++ [stop] ∧
    (lead = [] ∨ ∃ t, lead = [t] ∧ (t.kind = .keyword .kwVar ∨ t.kind = .keyword .kwPrint)) ∧
    (∀ t ∈ body, t.kind ≠ .symbol .semicolon ∧ ¬ t.kind.startsStatement) ∧
    stop.kind = .symbol .semicolon ∧ ¬ Parser.Fronts (.symbol .leftBrace) (lead ++ body)

namespace Grammar
open Scriptlet.Parser

/-- The statements and complaints of a program. -/
def program : List Token → Reading (List Stmt) := items (fun _ => false) (item (maxNesting + 1))

/-- From `front`, whatever follows it, come these statements and complaints, and what follows is
read on its own. -/
def Apart (front : List Token) (statements : List Stmt) (reported : List Complaint)
    (rest : List Token) : Prop :=
  (program (front ++ rest)).value = statements ++ (program rest).value ∧
    (program (front ++ rest)).reported = reported ++ (program rest).reported

lemma apart_of_written {ss : List Stmt} {front rest : List Token} (hcan : Stmt.CanonicalAll ss)
    (hw : Written (Stmt.marksAll ss) front) (hnest : Stmt.nestAll ss < maxNesting + 1)
    (hrest : ¬ Fronts (.keyword .kwElse) rest) : Apart front ss [] rest := by
  have hp := readsItems_itemParser (readsStmts_readsRests (maxNesting + 1)).1
  induction ss generalizing front with
  | nil =>
    obtain rfl := written_nil_iff.mp hw
    exact ⟨rfl, rfl⟩
  | cons s ss ih =>
    obtain ⟨first, others, rfl, hfirst, hothers⟩ := written_append_iff.mp hw
    obtain ⟨t, more, rfl, -, -⟩ := Stmt.written_front hcan.1 hfirst
    rw [Stmt.nestAll, Nat.max_lt] at hnest
    have hgoes : ¬ Ends (fun _ => false) (t :: more ++ (others ++ rest)) :=
      fun h => Bool.false_ne_true (h t rfl)
    have hnoelse := not_fronts_else hcan.2 hothers hrest
    have hs := (hp s (t :: more) (others ++ rest) hcan.1 hfirst (fun _ => hnoelse)).1 hnest.1
    obtain ⟨hvalue, hreported⟩ := ih hcan.2 hothers hnest.2
    unfold Apart program at *
    rw [List.append_assoc, item_eq, items_of_reads hgoes (List.cons_ne_nil _ _) hs, ← item_eq]
    exact ⟨by rw [hvalue, List.cons_append], by rw [hreported]⟩

lemma exists_upTo {ts : List Token} (h : BrokenAtMost ts) :
    ∃ front stop, ts = front ++ [stop] ∧ UpTo front stop ∧
      (∀ t ∈ front.tail, ¬ t.kind.startsStatement) ∧ ∀ t ∈ front.head?, Plain t.kind := by
  obtain ⟨lead, body, stop, rfl, hlead, hbody, hstop, hbrace⟩ := h
  refine ⟨lead ++ body, stop, rfl, ⟨?_, hstop⟩, ?_, ?_⟩
  · refine List.forall_mem_append.mpr ⟨fun t ht => ?_, fun t ht => (hbody t ht).1⟩
    rcases hlead with rfl | ⟨u, rfl, hu⟩
    · cases ht
    · rw [List.mem_singleton] at ht
      subst ht
      rcases hu with hu | hu <;> simp [hu]
  · intro t ht
    rcases hlead with rfl | ⟨u, rfl, -⟩
    · exact (hbody t (List.mem_of_mem_tail ht)).2
    · exact (hbody t ht).2
  · intro t ht
    refine ⟨fun hk => ?_, fun hk => ?_, fun hk => hbrace ⟨t, ht, hk⟩⟩
    all_goals
      rcases hlead with rfl | ⟨u, rfl, hu⟩
      · have hnone := (hbody t (List.mem_of_mem_head? ht)).2
        rw [hk] at hnone
        exact hnone rfl
      · cases ht
        rcases hu with hu | hu <;>
        · rw [hu] at hk
          cases hk

lemma apart_of_item {front rest : List Token} {r : Reading (Option Stmt)} (hne : front ≠ [])
    (hr : item (maxNesting + 1) (front ++ rest) = r) (hused : r.used = front.length) :
    Apart front r.value.toList r.reported rest := by
  have hpos : 0 < (item (maxNesting + 1) (front ++ rest)).used := by
    rw [hr, hused]
    exact List.length_pos_iff.mpr hne
  have hgoes : ¬ Ends (fun _ => false) (front ++ rest) := by
    cases front with
    | nil => exact absurd rfl hne
    | cons t more => exact fun h => Bool.false_ne_true (h t rfl)
  unfold Apart program
  rw [items_step hgoes hpos, hr, hused, List.drop_left]
  exact ⟨rfl, rfl⟩

lemma apart_of_brokenAtMost {ts : List Token} (h : BrokenAtMost ts) :
    ∃ statements reported, OneFault reported ∧ ∀ rest, Apart ts statements reported rest := by
  obtain ⟨front, stop, rfl, hupTo, hstarts, hplain⟩ := exists_upTo h
  obtain ⟨r, hr, hused, hone⟩ := recovering_upTo maxNesting hupTo hstarts hplain
  refine ⟨r.value.toList, r.reported, hone, fun rest => ?_⟩
  have hne : front ++ [stop] ≠ [] := List.append_ne_nil_of_right_ne_nil front (List.cons_ne_nil _ _)
  refine apart_of_item hne ?_ (by rw [hused, List.length_append, List.length_singleton])
  rw [List.append_assoc, List.singleton_append]
  exact hr rest

end Grammar

section program
variable {as bs : List Token}

lemma kind_ne_endOfInput_of_mem_beforeEnd {t : Token} (h : t ∈ beforeEnd as) :
    t.kind ≠ .endOfInput := bne_iff_ne.mp (List.all_eq_true.mp List.all_takeWhile t h)

lemma beforeEnd_append (h : ∀ t ∈ as, t.kind ≠ .endOfInput) :
    beforeEnd (as ++ bs) = as ++ beforeEnd bs :=
  List.takeWhile_append_of_pos (fun t ht => bne_iff_ne.mpr (h t ht))

lemma beforeEnd_of_forall (h : ∀ t ∈ as, t.kind ≠ .endOfInput) : beforeEnd as = as := by
  have happend : beforeEnd (as ++ []) = as ++ [] := beforeEnd_append h
  rwa [List.append_nil] at happend

lemma endToken_append (h : ∀ t ∈ as, t.kind ≠ .endOfInput) (hne : bs ≠ []) :
    endToken (as ++ bs) = endToken bs := by
  have hnone : as.find? (·.kind == .endOfInput) = none := by
    rw [List.find?_eq_none]
    intro t ht
    simpa using h t ht
  unfold endToken
  rw [List.find?_append, hnone, Option.none_or, List.getLast?_append_of_ne_nil as hne]

lemma beforeEnd_append_end {t : Token} (h : ∀ u ∈ as, u.kind ≠ .endOfInput)
    (ht : t.kind = .endOfInput) (post : List Token) : beforeEnd (as ++ t :: post) = as := by
  have hnil : beforeEnd (t :: post) = [] :=
    List.takeWhile_cons_of_neg (fun h => bne_iff_ne.mp h ht)
  rw [beforeEnd_append h, hnil, List.append_nil]

lemma endToken_append_end {t : Token} (h : ∀ u ∈ as, u.kind ≠ .endOfInput)
    (ht : t.kind = .endOfInput) (post : List Token) : endToken (as ++ t :: post) = t := by
  have hfind : (t :: post).find? (·.kind == .endOfInput) = some t :=
    List.find?_cons_of_pos (beq_iff_eq.mpr ht)
  rw [endToken_append h (List.cons_ne_nil _ _), endToken, hfind, Option.getD_some]

lemma endToken_kind {tokens : List Token} : (endToken tokens).kind = .endOfInput := by
  unfold endToken
  cases h : tokens.find? (·.kind == .endOfInput) with
  | none => rfl
  | some t =>
    have ht := List.find?_some h
    exact beq_iff_eq.mp ht

/-- What is read apart from what follows is parsed apart from it, too, since complaints that name
their token do not depend on where the end is. -/
lemma parse_of_apart {statements : List Stmt} {reported : List Complaint}
    (hend : ∀ t ∈ as, t.kind ≠ .endOfInput) (hblamed : ∀ c ∈ reported, c.blamed.isSome)
    (hbs : Grammar.Apart as statements reported (beforeEnd bs)) (e : Token) :
    parse (as ++ bs) = ⟨statements ++ (parse bs).statements,
      reported.map (Complaint.resolve e) ++ (parse bs).errors⟩ := by
  have hresolve : ∀ u, reported.map (Complaint.resolve u) = reported.map (Complaint.resolve e) := by
    intro u
    refine List.map_congr_left (fun c hc => ?_)
    obtain ⟨b, hb⟩ := Option.isSome_iff_exists.mp (hblamed c hc)
    rw [Complaint.resolve, Complaint.resolve, hb, Option.getD_some, Option.getD_some]
  have hrest : (Grammar.program (beforeEnd bs)).reported.map
      (Complaint.resolve (endToken (as ++ bs))) = (parse bs).errors := by
    by_cases hne : bs = []
    · subst hne
      simp [beforeEnd, Grammar.program, Grammar.items, parse]
    · rw [endToken_append hend hne]
      rfl
  obtain ⟨hvalue, hreported⟩ := hbs
  rw [← beforeEnd_append hend] at hvalue hreported
  have hall : parse (as ++ bs) = ⟨(Grammar.program (beforeEnd (as ++ bs))).value,
      (Grammar.program (beforeEnd (as ++ bs))).reported.map
        (Complaint.resolve (endToken (as ++ bs)))⟩ := rfl
  rw [hall, hvalue, hreported, List.map_append, hresolve, hrest]
  rfl

lemma parse_append_of_apart {statements : List Stmt} {reported : List Complaint}
    (hend : ∀ t ∈ as, t.kind ≠ .endOfInput) (hblamed : ∀ c ∈ reported, c.blamed.isSome)
    (hnone : Grammar.Apart as statements reported [])
    (hbs : Grammar.Apart as statements reported (beforeEnd bs)) :
    (parse as).errors = reported.map (Complaint.resolve (endToken as)) ∧
      parse (as ++ bs) =
        ⟨(parse as).statements ++ (parse bs).statements, (parse as).errors ++ (parse bs).errors⟩ := by
  have hnil : parse [] = ⟨[], []⟩ := by
    simp [parse, beforeEnd, Grammar.items]
  have has : parse (as ++ []) = _ := parse_of_apart hend hblamed hnone (endToken as)
  rw [List.append_nil, hnil, List.append_nil, List.append_nil] at has
  refine ⟨by rw [has], ?_⟩
  rw [parse_of_apart hend hblamed hbs (endToken as), has]

/-- What is read without an error, and a statement up to its semicolon that may be broken in any
way, is parsed apart from what follows; of the latter at most one error is not about an assignment
target. -/
theorem parse_append (hend : ∀ t ∈ as, t.kind ≠ .endOfInput)
    (has : (parse as).errors = [] ∨ BrokenAtMost as)
    (hbs : ¬ Parser.Fronts (.keyword .kwElse) bs) :
    parse (as ++ bs) =
        ⟨(parse as).statements ++ (parse bs).statements, (parse as).errors ++ (parse bs).errors⟩ ∧
      (BrokenAtMost as →
        ((parse as).errors.filter (·.fault.message ≠ "invalid assignment target.")).length ≤ 1) := by
  have hbroken : BrokenAtMost as → parse (as ++ bs) =
        ⟨(parse as).statements ++ (parse bs).statements, (parse as).errors ++ (parse bs).errors⟩ ∧
      ((parse as).errors.filter (·.fault.message ≠ "invalid assignment target.")).length ≤ 1 := by
    intro h
    obtain ⟨statements, reported, hone, hapart⟩ := Grammar.apart_of_brokenAtMost h
    obtain ⟨herrors, happend⟩ :=
      parse_append_of_apart hend hone.blamed (hapart []) (hapart (beforeEnd bs))
    refine ⟨happend, ?_⟩
    rw [herrors, List.filter_map, List.length_map]
    refine Nat.le_trans (List.Sublist.length_le (List.monotone_filter_right _ ?_)) hone.single
    intro c hc
    rw [Function.comp_apply, decide_eq_true_eq] at hc
    exact bne_iff_ne.mpr (fun hf => hc (congrArg SyntaxFault.message hf))
  refine ⟨?_, fun h => (hbroken h).2⟩
  rcases has with hclean | h
  · have hread := readStmts_parse hclean
    rw [beforeEnd_of_forall hend] at hread
    have hrest : ¬ Parser.Fronts (.keyword .kwElse) (beforeEnd bs) := by
      rintro ⟨t, ht, hk⟩
      obtain ⟨rest, hprefix⟩ := List.takeWhile_prefix (l := bs) (fun t => t.kind != .endOfInput)
      unfold beforeEnd at ht
      refine hbs ⟨t, ?_, hk⟩
      rw [← hprefix, List.head?_append, ht]
      rfl
    have hapart (rest : List Token) (hrest : ¬ Parser.Fronts (.keyword .kwElse) rest) :=
      Grammar.apart_of_written hread.canonical hread.written hread.nest_lt hrest
    refine (parse_append_of_apart hend (fun c hc => by cases hc) (hapart [] ?_) (hapart _ hrest)).2
    rintro ⟨t, ht, -⟩
    cases ht
  · exact (hbroken h).1

/-- The tokens of `print (nil + } = nil;`, without the semicolon. -/
def strayBrace : List Token :=
  [⟨.keyword .kwPrint, "print", none, 1⟩, ⟨.symbol .leftParen, "(", none, 1⟩,
    ⟨.keyword .kwNil, "nil", none, 1⟩, ⟨.symbol .plus, "+", none, 1⟩,
    ⟨.symbol .rightBrace, "\x7d", none, 1⟩, ⟨.symbol .equal, "=", none, 1⟩,
    ⟨.keyword .kwNil, "nil", none, 1⟩]

def semicolonToken : Token := ⟨.symbol .semicolon, ";", none, 1⟩

theorem parse_append_strayBrace :
    (∀ t ∈ strayBrace ++ [semicolonToken], t.kind ≠ .endOfInput) ∧
      BrokenAtMost (strayBrace ++ [semicolonToken]) ∧
      ¬ Parser.Fronts (.keyword .kwElse) danglingElse ∧
      (parse (strayBrace ++ [semicolonToken])).errors.map (·.token.kind) = [.symbol .rightBrace] ∧
      parse (strayBrace ++ [semicolonToken] ++ danglingElse) =
        ⟨(parse (strayBrace ++ [semicolonToken])).statements ++ (parse danglingElse).statements,
          (parse (strayBrace ++ [semicolonToken])).errors ++ (parse danglingElse).errors⟩ ∧
      ((parse (strayBrace ++ [semicolonToken])).errors.filter
        (·.fault.message ≠ "invalid assignment target.")).length ≤ 1 := by
  have hend : ∀ t ∈ strayBrace ++ [semicolonToken], t.kind ≠ .endOfInput := by decide
  have hbroken : BrokenAtMost (strayBrace ++ [semicolonToken]) := by
    refine ⟨strayBrace.take 1, strayBrace.drop 1, semicolonToken, rfl,
      Or.inr ⟨_, rfl, Or.inr rfl⟩, by decide, rfl, ?_⟩
    rintro ⟨t, ht, hk⟩
    cases ht
    cases hk
  have helse : ¬ Parser.Fronts (.keyword .kwElse) danglingElse := by
    rintro ⟨t, ht, hk⟩
    cases ht
    cases hk
  obtain ⟨happend, hone⟩ := parse_append hend (Or.inr hbroken) helse
  exact ⟨hend, hbroken, helse, by decide +kernel, happend, hone hbroken⟩

end program
end Scriptlet
