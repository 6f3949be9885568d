import Scriptlet.Proofs.CursorAgreement

/-!
# Nothing behind the end of input matters

A token list may go on behind its first end of input, or have none. What stands behind it is not
parsed, and where it is missing it is taken to stand on the line of the last token. A walk through
the whole list comes to the same, and none of its calls gets behind the first end of input.
-/

namespace Scriptlet
variable {ts : List Token} {e : Token}

/-- What follows the first end of input is not parsed and blamed for nothing, nor does a cursor that
could walk into it; and tokens without an end of input are parsed as if it stood on the line of the
last of them. -/
theorem parse_upToEnd (hts : ∀ t ∈ ts, t.kind ≠ .endOfInput) (he : e.kind = .endOfInput) :
    (∀ rest, parse (ts ++ [e] ++ rest) = parse (ts ++ [e]) ∧
      ∀ rounds > ts.length,
        ∃ visits, parseWalking rounds (ts ++ [e] ++ rest) = some (parse (ts ++ [e]), visits) ∧
          ∀ v ∈ visits, v.left ≤ ts.length) ∧
      ∀ h : ts ≠ [], e.lexeme = "" → e.literal = none → e.line = (ts.getLast h).line →
        parse ts = parse (ts ++ [e]) ∧
          ∀ rounds, parseWalking rounds ts = parseWalking rounds (ts ++ [e]) := by
  constructor
  · intro rest
    have hbefore : beforeEnd (ts ++ [e] ++ rest) = ts := by
      rw [List.append_assoc, List.singleton_append, beforeEnd_append_end hts he rest]
    have hrest : parse (ts ++ [e] ++ rest) = parse (ts ++ [e]) := by
      unfold parse
      rw [hbefore, beforeEnd_append_end hts he [], List.append_assoc, List.singleton_append,
        endToken_append_end hts he rest, endToken_append_end hts he []]
    refine ⟨hrest, fun rounds hrounds => ?_⟩
    rw [← hbefore] at hrounds
    obtain ⟨visits, hwalk, hvisits⟩ := parseWalking_eq hrounds
    refine ⟨visits, hrest ▸ hwalk, fun v hv => ?_⟩
    have hlast := (hvisits v hv).2.2
    rwa [hbefore] at hlast
  · intro h hlexeme hliteral hline
    have hend : endToken ts = e := by
      obtain ⟨kind, lexeme, literal, line⟩ := e
      cases he
      cases hlexeme
      cases hliteral
      cases hline
      rw [endToken_of_forall hts, List.getLast?_eq_some_getLast h]
      rfl
    have hclosed : closedWithEnd ts = closedWithEnd (ts ++ [e]) := by
      rw [closedWithEnd_of_forall hts, hend]
      unfold closedWithEnd
      rw [List.getLast?_concat]
      exact (if_pos he).symm
    refine ⟨?_, fun rounds => ?_⟩
    · unfold parse
      rw [beforeEnd_append_end hts he [], endToken_append_end hts he [], beforeEnd_of_forall hts,
        hend]
    · unfold parseWalking
      rw [hclosed]

theorem parse_upToEnd_operand :
    let ts : List Token := [⟨.keyword .kwPrint, "print", none, 1⟩, ⟨.symbol .minus, "-", none, 2⟩]
    let e := Token.endOfInput 2
    let rest : List Token :=
      [⟨.keyword .kwNil, "nil", none, 3⟩, ⟨.symbol .semicolon, ";", none, 3⟩, .endOfInput 4]
    (∀ t ∈ ts, t.kind ≠ .endOfInput) ∧
      (parse (ts ++ [e] ++ rest) = parse (ts ++ [e]) ∧
        ∃ visits, parseWalking 3 (ts ++ [e] ++ rest) = some (parse (ts ++ [e]), visits) ∧
          ∀ v ∈ visits, v.left ≤ 2) ∧
      e.line = 2 ∧ parse ts = parse (ts ++ [e]) ∧
        ∀ rounds, parseWalking rounds ts = parseWalking rounds (ts ++ [e]) := by
  intro ts e rest
  have hts : ∀ t ∈ ts, t.kind ≠ .endOfInput := by decide
  obtain ⟨hrest, hmissing⟩ := parse_upToEnd hts (e := e) rfl
  obtain ⟨hparse, hwalk⟩ := hrest rest
  exact ⟨hts, ⟨hparse, hwalk 3 (Nat.lt_succ_self 2)⟩, rfl,
    hmissing (List.cons_ne_nil _ _) rfl rfl rfl⟩

end Scriptlet
