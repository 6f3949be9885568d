import Scriptlet.Proofs.NestingBound
import Scriptlet.Proofs.ParserCompleteness

/-!
# The height of trees

Running a statement calls itself once more for each node on a path into its tree, so the height
of the tree bounds how deep these calls lie in each other. The nesting limit bounds the height up
to the binary operators on a path. Operators cost no level, though: a sum of any length is read
with nothing nested in it, and its tree is as high as it is long. So no number bounds the height
of all trees that can be read.
-/

namespace Scriptlet

namespace Expr

/-- The number of nodes on a longest path. -/
def height : Expr → Nat
  | literal _ | ref _ => 1
  | grouping e | unary _ e | assign _ e => e.height + 1
  | binary l _ r => max l.height r.height + 1

/-- The greatest number of binary operators around a part. -/
def operators : Expr → Nat
  | literal _ | ref _ => 0
  | grouping e | unary _ e | assign _ e => e.operators
  | binary l _ r => max l.operators r.operators + 1

lemma height_le (e : Expr) : e.height ≤ e.nest + e.operators + 1 := by
  induction e with
  | literal v => exact Nat.le_refl 1
  | ref name => exact Nat.le_refl 1
  | grouping e ih | unary op e ih | assign name e ih =>
    simp only [height, nest, operators]
    omega
  | binary l op r ihl ihr =>
    simp only [height, nest, operators]
    omega

end Expr

namespace Stmt

mutual

def height : Stmt → Nat
  | expr e | print _ e | declare _ (some e) => e.height + 1
  | declare _ none => 1
  | block body => heightAll body + 1
  | ifThen condition yes => max condition.height yes.height + 1
  | ifElse condition yes no => max condition.height (max yes.height no.height) + 1
  | whileDo condition body => max condition.height body.height + 1

def heightAll : List Stmt → Nat
  | [] => 0
  | s :: rest => max s.height (heightAll rest)

end

mutual

def operators : Stmt → Nat
  | expr e | print _ e | declare _ (some e) => e.operators
  | declare _ none => 0
  | block body => operatorsAll body
  | ifThen condition yes => max condition.operators yes.operators
  | ifElse condition yes no => max condition.operators (max yes.operators no.operators)
  | whileDo condition body => max condition.operators body.operators

def operatorsAll : List Stmt → Nat
  | [] => 0
  | s :: rest => max s.operators (operatorsAll rest)

end

mutual

lemma height_le : ∀ s : Stmt, s.height ≤ s.nest + s.operators + 2
  | expr e | print _ e | declare _ (some e) => Nat.succ_le_succ e.height_le
  | declare _ none => Nat.succ_le_succ (Nat.zero_le 1)
  | block body => by
    have hbody := heightAll_le body
    simp only [height, nest, operators]
    omega
  | ifThen condition yes => by
    have hcondition := condition.height_le
    have hyes := height_le yes
    simp only [height, nest, operators]
    omega
  | ifElse condition yes no => by
    have hcondition := condition.height_le
    have hyes := height_le yes
    have hno := height_le no
    simp only [height, nest, operators]
    omega
  | whileDo condition body => by
    have hcondition := condition.height_le
    have hbody := height_le body
    simp only [height, nest, operators]
    omega

lemma heightAll_le : ∀ body : List Stmt, heightAll body ≤ nestAll body + operatorsAll body + 2
  | [] => Nat.zero_le 2
  | s :: rest => by
    have hs := height_le s
    have hrest := heightAll_le rest
    simp only [heightAll, nestAll, operatorsAll]
    omega

end

end Stmt

/-- The nesting limit bounds the height of every statement that is kept, up to the binary
operators on a path. -/
theorem parse_height_le {tokens : List Token} {s : Stmt} (h : s ∈ (parse tokens).statements) :
    s.height ≤ maxNesting + s.operators + 2 := by
  have hnest := nest_le_of_mem_parse h
  have hheight := s.height_le
  omega

section sums

def plusToken : Token := ⟨.symbol .plus, "+", none, 1⟩

/-- `nil` with `n` times `nil` added to it. -/
def nilSum : Nat → Expr
  | 0 => .literal .nil
  | n + 1 => .binary (nilSum n) plusToken (.literal .nil)

lemma canonical_nilSum (n : Nat) : (nilSum n).Canonical ∧ 3 ≤ (nilSum n).rank := by
  induction n with
  | zero => exact ⟨trivial, by decide⟩
  | succ n ih => exact ⟨⟨3, rfl, ih.2, by decide, ih.1, trivial⟩, Nat.le_refl 3⟩

lemma nest_nilSum (n : Nat) : (nilSum n).nest = 0 := by
  induction n with
  | zero => rfl
  | succ n ih =>
    rw [nilSum, Expr.nest, ih]
    rfl

lemma height_nilSum (n : Nat) : (nilSum n).height = n + 1 := by
  induction n with
  | zero => rfl
  | succ n ih =>
    rw [nilSum, Expr.height, ih, Expr.height]
    omega

/-- The tokens of the sum, of which none ends the input. -/
def nilSumTokens : Nat → List Token
  | 0 => [⟨.keyword .kwNil, "nil", none, 1⟩]
  | n + 1 => nilSumTokens n ++ [plusToken, ⟨.keyword .kwNil, "nil", none, 1⟩]

lemma written_nilSum (n : Nat) : Written (nilSum n).marks (nilSumTokens n) := by
  induction n with
  | zero => exact .cons rfl .nil
  | succ n ih => exact ih.append (.cons rfl (.cons rfl .nil))

/-- The program that is this sum. -/
def nilSumProgram (n : Nat) : List Token :=
  nilSumTokens n ++ [⟨.symbol .semicolon, ";", none, 1⟩, .endOfInput 1]

lemma beforeEnd_nilSumProgram (n : Nat) :
    beforeEnd (nilSumProgram n) = nilSumTokens n ++ [⟨.symbol .semicolon, ";", none, 1⟩] := by
  have hplain : ∀ t ∈ nilSumTokens n, t.kind != .endOfInput := by
    induction n with
    | zero => simp [nilSumTokens]
    | succ n ih => simpa [nilSumTokens, plusToken, or_imp, forall_and] using ih
  unfold beforeEnd nilSumProgram
  rw [List.takeWhile_append_of_pos hplain]
  rfl

lemma parse_nilSumProgram (n : Nat) : parse (nilSumProgram n) = ⟨[.expr (nilSum n)], []⟩ := by
  have hcan : Stmt.CanonicalAll [.expr (nilSum n)] := ⟨(canonical_nilSum n).1, trivial⟩
  have hnest : Stmt.nestAll [.expr (nilSum n)] = 0 := by
    simp only [Stmt.nestAll, Stmt.nest, nest_nilSum, Nat.max_self]
  refine parse_of_written hcan ?_ (hnest ▸ Nat.zero_le maxNesting)
  rw [beforeEnd_nilSumProgram, Stmt.marksAll, Stmt.marksAll, List.append_nil]
  exact (written_nilSum n).append (.cons rfl .nil)

lemma mem_parse_nilSumProgram (n : Nat) :
    .expr (nilSum n) ∈ (parse (nilSumProgram n)).statements := by
  rw [parse_nilSumProgram]
  exact List.mem_singleton_self _

theorem parse_height_le_nilSum :
    .expr (nilSum 1000) ∈ (parse (nilSumProgram 1000)).statements ∧
      (Stmt.expr (nilSum 1000)).height ≤ maxNesting + (Stmt.expr (nilSum 1000)).operators + 2 :=
  ⟨mem_parse_nilSumProgram 1000, parse_height_le (mem_parse_nilSumProgram 1000)⟩

/-- No number bounds the height of all statements that can be read. -/
theorem parse_height_unbounded :
    ¬ ∃ bound, ∀ tokens, ∀ s ∈ (parse tokens).statements, s.height ≤ bound := by
  rintro ⟨bound, h⟩
  have hheight : (Stmt.expr (nilSum bound)).height = bound + 2 := by
    rw [Stmt.height, height_nilSum]
  have hle := h _ _ (mem_parse_nilSumProgram bound)
  omega

end sums
end Scriptlet
