import Scriptlet.Proofs.LooseReading

/-!
# What a clean reading says of the tokens

Statements that are read without any error are canonical, keep the nesting limit, and written out
give the tokens that they were read from.
-/

namespace Scriptlet
namespace Grammar

/-- What a clean reading of statements and declarations in a row comes to when fewer than `n` levels
are nested. -/
structure ReadStmts (n : Nat) (body : List Stmt) (ts : List Token) : Prop where
  canonical : Stmt.CanonicalAll body
  nest_lt : Stmt.nestAll body < n
  written : Written (Stmt.marksAll body) ts

end Grammar

theorem readStmts_parse {tokens : List Token} (h : (parse tokens).errors = []) :
    Grammar.ReadStmts (maxNesting + 1) (parse tokens).statements (beforeEnd tokens) := by
  obtain ⟨program, cs, hread, herrors⟩ := settlesStmts_parse
    (fun e (he : e ∈ (parse tokens).errors) => absurd (h ▸ he) List.not_mem_nil)
  have hcs : cs = [] := List.map_eq_nil_iff.mp (herrors.symm.trans h)
  have hnone : Stmt.misplacedAll program = [] :=
    List.map_eq_nil_iff.mp (hread.reported.trans hcs)
  -- with nothing misplaced in them the loose statements are those that are kept
  obtain ⟨hcan, hsettle⟩ := hread.loose.canonicalAll hnone
  have hprogram : program = (parse tokens).statements := hsettle.symm.trans hread.value
  exact hprogram ▸ ⟨hcan, hread.nest_lt, hread.written⟩

/-- What is read without any error is canonical, and written out it is the tokens before the end
of input. -/
theorem parse_sound {tokens : List Token} (h : (parse tokens).errors = []) :
    Written (Stmt.marksAll (parse tokens).statements) (beforeEnd tokens) ∧
      Stmt.CanonicalAll (parse tokens).statements := by
  have hread := readStmts_parse h
  exact ⟨hread.written, hread.canonical⟩

/-- The tokens of `if (a) if (b) x = x - y; else print -x * y;`. -/
def danglingElse : List Token :=
  [⟨.keyword .kwIf, "if", none, 1⟩, ⟨.symbol .leftParen, "(", none, 1⟩,
    ⟨.identifier, "a", none, 1⟩, ⟨.symbol .rightParen, ")", none, 1⟩,
    ⟨.keyword .kwIf, "if", none, 1⟩, ⟨.symbol .leftParen, "(", none, 1⟩,
    ⟨.identifier, "b", none, 1⟩, ⟨.symbol .rightParen, ")", none, 1⟩,
    ⟨.identifier, "x", none, 1⟩, ⟨.symbol .equal, "=", none, 1⟩, ⟨.identifier, "x", none, 1⟩,
    ⟨.symbol .minus, "-", none, 1⟩, ⟨.identifier, "y", none, 1⟩,
    ⟨.symbol .semicolon, ";", none, 1⟩, ⟨.keyword .kwElse, "else", none, 1⟩,
    ⟨.keyword .kwPrint, "print", none, 1⟩, ⟨.symbol .minus, "-", none, 1⟩,
    ⟨.identifier, "x", none, 1⟩, ⟨.symbol .star, "*", none, 1⟩, ⟨.identifier, "y", none, 1⟩,
    ⟨.symbol .semicolon, ";", none, 1⟩, .endOfInput 1]

theorem parse_sound_danglingElse :
    (parse danglingElse).errors = [] ∧
      Written (Stmt.marksAll (parse danglingElse).statements) (beforeEnd danglingElse) ∧
      Stmt.CanonicalAll (parse danglingElse).statements := by
  have h : (parse danglingElse).errors = [] := by decide +kernel
  exact ⟨h, parse_sound h⟩

end Scriptlet
