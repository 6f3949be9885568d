import Scriptlet.Proofs.CanonicalForm

/-!
# Sentences

The grammar of programs as a grammar, apart from how they are read: which rows of tokens are
operands, expressions, statements and programs. It allows more than is accepted: anything that
could be an operand of `==` may stand on the left of `=`, an `else` may belong to any `if` before
it, and phrases may be nested as deep as they like.
-/

namespace Scriptlet

/-- The sorts of phrases. In a phrase of `level p`, operators outside of the operands have precedence
`p` or bind tighter. -/
inductive Nonterminal where
  | operand
  | level (p : Nat)
  | expression
  | statement
  | blockRest
  | item
  | program

/-- The tokens form a phrase of the sort. -/
inductive Derives : Nonterminal → List Token → Prop where
  | literal {t : Token} (ht : t.denotes?.isSome) : Derives .operand [t]
  | name {t : Token} (ht : t.kind = .identifier) : Derives .operand [t]
  | unary {op : Token} {w : List Token} (hop : op.kind = .symbol .bang ∨ op.kind = .symbol .minus)
      (h : Derives .operand w) : Derives .operand (op :: w)
  | grouping {l r : Token} {w : List Token} (hl : l.kind = .symbol .leftParen)
      (h : Derives .expression w) (hr : r.kind = .symbol .rightParen) :
      Derives .operand (l :: (w ++ [r]))
  | single {p : Nat} {w : List Token} (h : Derives .operand w) : Derives (.level p) w
  | binary {p q : Nat} {op : Token} {v w : List Token} (hop : op.kind.precedence? = some q)
      (hle : p ≤ q) (hv : Derives (.level q) v) (hw : Derives (.level (q + 1)) w) :
      Derives (.level p) (v ++ op :: w)
  | value {w : List Token} (h : Derives (.level 1) w) : Derives .expression w
  | assignment {equals : Token} {v w : List Token} (hv : Derives (.level 1) v)
      (hequals : equals.kind = .symbol .equal) (hw : Derives .expression w) :
      Derives .expression (v ++ equals :: w)
  | expression {stop : Token} {w : List Token} (h : Derives .expression w)
      (hstop : stop.kind = .symbol .semicolon) : Derives .statement (w ++ [stop])
  | print {t stop : Token} {w : List Token} (ht : t.kind = .keyword .kwPrint)
      (h : Derives .expression w) (hstop : stop.kind = .symbol .semicolon) :
      Derives .statement (t :: (w ++ [stop]))
  | block {t : Token} {w : List Token} (ht : t.kind = .symbol .leftBrace)
      (h : Derives .blockRest w) : Derives .statement (t :: w)
  | ifThen {t l r : Token} {c y : List Token} (ht : t.kind = .keyword .kwIf)
      (hl : l.kind = .symbol .leftParen) (hc : Derives .expression c)
      (hr : r.kind = .symbol .rightParen) (hy : Derives .statement y) :
      Derives .statement (t :: l :: (c ++ r :: y))
  | ifElse {t l r e : Token} {c y n : List Token} (ht : t.kind = .keyword .kwIf)
      (hl : l.kind = .symbol .leftParen) (hc : Derives .expression c)
      (hr : r.kind = .symbol .rightParen) (hy : Derives .statement y)
      (he : e.kind = .keyword .kwElse) (hn : Derives .statement n) :
      Derives .statement (t :: l :: (c ++ r :: (y ++ e :: n)))
  | whileDo {t l r : Token} {c b : List Token} (ht : t.kind = .keyword .kwWhile)
      (hl : l.kind = .symbol .leftParen) (hc : Derives .expression c)
      (hr : r.kind = .symbol .rightParen) (hb : Derives .statement b) :
      Derives .statement (t :: l :: (c ++ r :: b))
  | closing {r : Token} {w : List Token} (h : Derives .program w)
      (hr : r.kind = .symbol .rightBrace) : Derives .blockRest (w ++ [r])
  | plain {w : List Token} (h : Derives .statement w) : Derives .item w
  | declaration {t x stop : Token} (ht : t.kind = .keyword .kwVar) (hx : x.kind = .identifier)
      (hstop : stop.kind = .symbol .semicolon) : Derives .item [t, x, stop]
  | initialization {t x equals stop : Token} {w : List Token} (ht : t.kind = .keyword .kwVar)
      (hx : x.kind = .identifier) (hequals : equals.kind = .symbol .equal)
      (h : Derives .expression w) (hstop : stop.kind = .symbol .semicolon) :
      Derives .item (t :: x :: equals :: (w ++ [stop]))
  | empty : Derives .program []
  | more {v w : List Token} (hv : Derives .item v) (hw : Derives .program w) :
      Derives .program (v ++ w)

namespace Derives
variable {w : List Token}

/-- One more operator and operand may follow, whatever its precedence: they belong to the operators
on the right edge that bind looser. -/
lemma snoc {p q : Nat} {op : Token} {v : List Token} (hw : Derives (.level p) w)
    (hop : op.kind.precedence? = some q) (hle : p ≤ q) (hv : Derives .operand v) :
    Derives (.level p) (w ++ op :: v) := by
  generalize hs : Nonterminal.level p = sort at hw
  induction hw generalizing p with
  | single h =>
    cases hs
    exact .binary hop hle (.single h) (.single hv)
  | @binary p' s o l r ho hle' hl hr _ ih =>
    cases hs
    rcases Nat.lt_or_ge s q with hlt | hge
    · -- the operand goes to the right of the tighter operator
      have hright := ih (Nat.succ_le_of_lt hlt) rfl
      rw [List.append_assoc, List.cons_append]
      exact .binary ho hle' hl hright
    · exact .binary hop hle (.binary ho hge hl hr) (.single hv)
  | _ => cases hs

lemma kind_ne_endOfInput {sort : Nonterminal} (h : Derives sort w) :
    ∀ t ∈ w, t.kind ≠ .endOfInput := by
  induction h with
  | literal ht =>
    intro t hmem hk
    rw [List.mem_singleton] at hmem
    subst hmem
    simp [Token.denotes?, hk] at ht
  | unary hop _ ih =>
    rw [List.forall_mem_cons]
    exact ⟨by rcases hop with hk | hk <;> simp [hk], ih⟩
  | @binary _ _ op _ _ hop _ _ _ ihv ihw =>
    have hk : op.kind ≠ .endOfInput := fun hk => by rw [hk] at hop; cases hop
    exact List.forall_mem_append.mpr ⟨ihv, List.forall_mem_cons.mpr ⟨hk, ihw⟩⟩
  | _ => simp_all [or_imp]

/-- How phrases of a sort begin. A program may be empty, and the rest of a block may be a brace. -/
def Front : Nonterminal → List Token → Prop
  | .operand, w | .level _, w | .expression, w => ∃ t v, w = t :: v ∧ Expr.Begins t.kind
  | .statement, w => ∃ t v, w = t :: v ∧ Stmt.Begins t.kind
  | .item, w => ∃ t v, w = t :: v ∧ (Stmt.Begins t.kind ∨ t.kind = .keyword .kwVar)
  | .program, w => w = [] ∨ ∃ t v, w = t :: v ∧ (Stmt.Begins t.kind ∨ t.kind = .keyword .kwVar)
  | .blockRest, _ => True

lemma front {sort : Nonterminal} (h : Derives sort w) : Front sort w := by
  induction h with
  | literal ht =>
    obtain ⟨v, hv⟩ := Option.isSome_iff_exists.mp ht
    exact ⟨_, _, rfl, Expr.begins_of_denotes? hv⟩
  | name ht => exact ⟨_, _, rfl, by simp [ht, Expr.Begins]⟩
  | unary hop _ _ => exact ⟨_, _, rfl, by rcases hop with hk | hk <;> simp [hk, Expr.Begins]⟩
  | grouping hl _ _ _ => exact ⟨_, _, rfl, by simp [hl, Expr.Begins]⟩
  | single _ ih | value _ ih => exact ih
  | binary _ _ _ _ ih _ | assignment _ _ _ ih _ =>
    obtain ⟨t, v, rfl, ht⟩ := ih
    exact ⟨t, _, rfl, ht⟩
  | expression _ _ ih =>
    obtain ⟨t, v, rfl, ht⟩ := ih
    exact ⟨t, _, rfl, Or.inl ht⟩
  | print ht _ _ _ | block ht _ _ | ifThen ht _ _ _ _ _ _ | ifElse ht _ _ _ _ _ _ _ _ _
    | whileDo ht _ _ _ _ _ _ => exact ⟨_, _, rfl, by simp [ht, Stmt.Begins]⟩
  | closing _ _ _ => trivial
  | plain _ ih =>
    obtain ⟨t, v, rfl, ht⟩ := ih
    exact ⟨t, v, rfl, Or.inl ht⟩
  | declaration ht _ _ | initialization ht _ _ _ _ _ => exact ⟨_, _, rfl, Or.inr ht⟩
  | empty => exact Or.inl rfl
  | more _ _ ih _ =>
    obtain ⟨t, v, rfl, ht⟩ := ih
    exact Or.inr ⟨t, _, rfl, ht⟩

end Derives
end Scriptlet
