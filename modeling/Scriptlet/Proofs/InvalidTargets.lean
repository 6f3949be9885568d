import Scriptlet.Proofs.FirstError

/-!
# Invalid assignment targets

When nothing is wrong with a program but what it assigns to, it is a program in which an `=` may
stand behind any operand of `==`, and reading it is complete: every `=` that assigns to no bare name
is blamed once, behind those on its left and those on its right, and nothing is lost but what
stands on the right of it.
-/

namespace Scriptlet

open Scriptlet.Parser Scriptlet.Grammar
variable {tokens : List Token}

lemma derives_beforeEnd (h : ∀ e ∈ (parse tokens).errors, e.fault = .invalidTarget) :
    Derives .program (beforeEnd tokens) := by
  have htargets : ∀ c ∈ (program (beforeEnd tokens)).reported, c.blocks = false :=
    fun c hc => bne_eq_false_iff_eq.mpr (h _ (List.mem_map_of_mem hc))
  have hnone : (always program).firstBlock? (beforeEnd tokens) = none := by
    rw [firstBlock?_always, List.find?_eq_none]
    exact fun c hc => Bool.eq_false_iff.mp (htargets c hc)
  have hused : (program (beforeEnd tokens)).used = (beforeEnd tokens).length :=
    used_items_item _ _
  have htracks := tracks_program (beforeEnd tokens)
  generalize beforeEnd tokens = ts at hnone hused htracks ⊢
  cases htracks with
  | @reads front rest a reported _ read mem =>
    have hlength : front.length = (front ++ rest).length := by
      rw [← hused]
      exact (congrArg Reading.used (read rest rfl)).symm
    have hrest : rest = [] := List.length_eq_zero_iff.mp (by
      rw [List.length_append] at hlength
      omega)
    rwa [hrest, List.append_nil]
  | tooDeep deep =>
    rw [hnone] at deep
    cases deep
  | @stops front rest c _ _ first =>
    rw [first rest rfl] at hnone
    cases hnone

/-- When all errors are about assignment targets, the tokens are a program in which anything that
could be an operand of `==` may be assigned to. The errors are about every `=` that does not
assign to a bare name, in their order, and the statements are those of the program with the left
side in the place of each such assignment. -/
theorem parse_invalidTargets
    (h : ∀ e ∈ (parse tokens).errors, e.fault.message = "invalid assignment target.") :
    Derives .program (beforeEnd tokens) ∧
      ∃ stmts : List Stmt, Stmt.LooseAll stmts ∧
        Written (Stmt.marksAll stmts) (beforeEnd tokens) ∧
        (parse tokens).errors =
          (Stmt.misplacedAll stmts).map (fun equals => ⟨.invalidTarget, equals⟩) ∧
        (parse tokens).statements = Stmt.settleAll stmts := by
  have hfaults : ∀ e ∈ (parse tokens).errors, e.fault = .invalidTarget :=
    fun e he => SyntaxFault.message_eq_target_iff.mp (h e he)
  obtain ⟨stmts, cs, hread, herrors⟩ := settlesStmts_parse hfaults
  refine ⟨derives_beforeEnd hfaults, stmts, hread.loose, hread.written, ?_, hread.value.symm⟩
  rw [herrors, ← hread.reported, List.map_map]
  rfl

/-- The tokens of `(nil = a) = b = -c = nil; { print (x) = y; }`, each `=` on a line of its own. -/
def assignedToNoName : List Token :=
  [⟨.symbol .leftParen, "(", none, 1⟩, ⟨.keyword .kwNil, "nil", none, 1⟩,
    ⟨.symbol .equal, "=", none, 1⟩, ⟨.identifier, "a", none, 1⟩,
    ⟨.symbol .rightParen, ")", none, 1⟩, ⟨.symbol .equal, "=", none, 2⟩,
    ⟨.identifier, "b", none, 2⟩, ⟨.symbol .equal, "=", none, 3⟩, ⟨.symbol .minus, "-", none, 3⟩,
    ⟨.identifier, "c", none, 3⟩, ⟨.symbol .equal, "=", none, 4⟩,
    ⟨.keyword .kwNil, "nil", none, 4⟩, ⟨.symbol .semicolon, ";", none, 4⟩,
    ⟨.symbol .leftBrace, "\x7b", none, 4⟩, ⟨.keyword .kwPrint, "print", none, 4⟩,
    ⟨.symbol .leftParen, "(", none, 4⟩, ⟨.identifier, "x", none, 4⟩,
    ⟨.symbol .rightParen, ")", none, 4⟩, ⟨.symbol .equal, "=", none, 5⟩,
    ⟨.identifier, "y", none, 5⟩, ⟨.symbol .semicolon, ";", none, 5⟩,
    ⟨.symbol .rightBrace, "\x7d", none, 5⟩, .endOfInput 5]

theorem parse_invalidTargets_assignedToNoName :
    (∀ e ∈ (parse assignedToNoName).errors, e.fault.message = "invalid assignment target.") ∧
      (parse assignedToNoName).errors.map (fun e => e.token.line) = [1, 4, 2, 5] ∧
      Derives .program (beforeEnd assignedToNoName) ∧
      ∃ stmts : List Stmt, Stmt.LooseAll stmts ∧
        Written (Stmt.marksAll stmts) (beforeEnd assignedToNoName) ∧
        (parse assignedToNoName).errors =
          (Stmt.misplacedAll stmts).map (fun equals => ⟨.invalidTarget, equals⟩) ∧
        (parse assignedToNoName).statements = Stmt.settleAll stmts := by
  have h : ∀ e ∈ (parse assignedToNoName).errors,
      e.fault.message = "invalid assignment target." := by
    decide +kernel
  have hlines : (parse assignedToNoName).errors.map (fun e => e.token.line) = [1, 4, 2, 5] := by
    decide +kernel
  exact ⟨h, hlines, parse_invalidTargets h⟩

end Scriptlet
