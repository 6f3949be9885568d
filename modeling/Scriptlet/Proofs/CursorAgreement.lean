import Scriptlet.Proofs.CursorSteps
import Scriptlet.Proofs.ErrorContainment
import Scriptlet.Proofs.PrecedenceClimbing

/-!
# Walking agrees with reading

A walk never gets beyond the first end of input: what it does from any place before it is what the
grammar makes of the tokens up to there. So every token that it looks at is there, its loops end,
and the whole list is parsed as the tokens before the first end of input are.
-/

namespace Scriptlet
namespace Attempt
section expressions
variable {rounds : Nat} {e : Token} {operandBelow exprBelow : Attempt Expr}
  {operandBelow' exprBelow' : Parser Expr}

lemma follows_operandFrom (ho : Follows rounds e operandBelow operandBelow')
    (he : Follows rounds e exprBelow exprBelow') (t : Token) :
    Option.Rel (Follows rounds e) (operandFrom operandBelow exprBelow t)
      (Grammar.operandFrom operandBelow' exprBelow' t) := by
  unfold operandFrom Grammar.operandFrom
  generalize t.kind = kind
  cases kind with
  | symbol s =>
    cases s with
    | bang | minus => exact .some (ho.andThen (fun _ => follows_pure _))
    | leftParen =>
      exact .some (he.andThen (fun _ => (follows_expect _ _).andThen (fun _ => follows_pure _)))
    | _ => exact .none
  | keyword k =>
    cases k with
    | kwFalse | kwTrue | kwNil => exact .some (follows_pure _)
    | _ => exact .none
  | number | string | identifier => exact .some (follows_pure _)
  | endOfInput => exact .none

lemma follows_operandOver (ho : Follows rounds e operandBelow operandBelow')
    (he : Follows rounds e exprBelow exprBelow') :
    Follows rounds e (operandOver operandBelow exprBelow)
      (Grammar.operandOver operandBelow' exprBelow') := by
  refine (Follows.onFront (fun t ht => ?_) (follows_operandFrom ho he) (follows_fail _)).called
  unfold operandFrom
  rw [ht]

section climbing
variable {operand : Attempt Expr} {operand' : Parser Expr} {turns least : Nat} {left : Expr}
  {ahead : List Token} {c : Cursor}

lemma climbFrom_of_not (h : c.Sees rounds ahead e)
    (hnone : ∀ t ∈ ahead.head?, ¬ Grammar.bindsFrom least t.kind) :
    (climbFrom operand (turns + 1) least left).run c = some (.ok left, c) := by
  rw [climbFrom, lift_bind (Walk.peek_of_sees h)]
  cases ahead with
  | nil =>
    rw [List.head?_nil, Option.getD_none, h.ends]
    rfl
  | cons t rest =>
    rw [List.head?_cons, Option.getD_some]
    cases hp : t.kind.precedence? with
    | none => rfl
    | some p =>
      have hlt : p < least := Nat.not_le.mp (fun hle => hnone t rfl ⟨p, hp, hle⟩)
      simp only [if_pos hlt]
      rfl

lemma climbFrom_of_binds {op : Token} {p : Nat} (h : c.Sees rounds (op :: ahead) e)
    (hop : op.kind.precedence? = some p) (hle : least ≤ p) :
    (climbFrom operand (turns + 1) least left).run c =
      (climb operand turns (p + 1) >>= fun right =>
        climbFrom operand turns least (.binary left op right)).run (c.moved 1 [] []) := by
  rw [climbFrom, lift_bind (Walk.peek_of_sees h), List.head?_cons, Option.getD_some, climb,
    bind_assoc]
  simp only [hop, if_neg (Nat.not_lt.mpr hle)]
  exact lift_bind (Walk.advance_of_sees h)

lemma arrives_climb (ho : Follows rounds e operand operand')
    (hrank : operand'.Yields (fun a => a.rank = 5))
    (hfrom : ∀ left rest c, rest.length ≤ ahead.length → Grammar.StandsWhole left rest →
      c.Sees rounds rest e → (climbFrom operand turns least left).ArrivesAs e rest c
        (Grammar.operationsFrom least operand' left rest))
    (h : c.Sees rounds ahead e) :
    (climb operand turns least).ArrivesAs e ahead c (Grammar.climbing operand' least ahead) := by
  refine (ho c ahead h).andThen h (fun first hfirst c' h' => hfrom first _ c' ?_ ?_ h')
  · rw [List.length_drop]
    exact Nat.sub_le _ _
  · exact Grammar.standsWhole_of_rank (hrank _ _ hfirst) _

lemma arrives_climbFrom (ho : Follows rounds e operand operand')
    (hrank : operand'.Yields (fun a => a.rank = 5)) (hturns : ahead.length < turns)
    (hwhole : Grammar.StandsWhole left ahead) (h : c.Sees rounds ahead e) :
    (climbFrom operand turns least left).ArrivesAs e ahead c
      (Grammar.operationsFrom least operand' left ahead) := by
  -- Each operator takes a turn of its own loop, while its operands have all rounds.
  induction turns generalizing least left ahead c with
  | zero => exact absurd hturns (Nat.not_lt_zero _)
  | succ turns ih =>
    obtain hnone | ⟨op, rest, rfl, p, hop, hle⟩ := Grammar.binds_or_not least ahead
    · rw [Grammar.operationsFrom_of_not hnone]
      exact arrives_of_eq (climbFrom_of_not h hnone)
    · have hrest : rest.length < turns := Nat.lt_of_succ_lt_succ hturns
      rw [Grammar.operationsFrom_climbing hop hle (hwhole op rfl p hop)]
      refine ArrivesAs.behind (fun c' h' => ?_) h (climbFrom_of_binds h hop hle)
      have hright : (climb operand turns (p + 1)).ArrivesAs e rest c'
          (Grammar.climbing operand' (p + 1) rest) :=
        arrives_climb ho hrank (fun left more c'' hmore hwhole' h'' =>
          ih (Nat.lt_of_le_of_lt hmore hrest) hwhole' h'') h'
      refine hright.andThen h' (fun right hv c'' h'' => ih ?_ ?_ h'')
      · rw [List.length_drop]
        exact Nat.lt_of_le_of_lt (Nat.sub_le _ _) hrest
      · exact Grammar.standsWhole_binary hop hv

lemma follows_climb (ho : Follows rounds e operand operand')
    (hrank : operand'.Yields (fun a => a.rank = 5)) :
    Follows rounds e (climb operand rounds least) (Grammar.climbing operand' least) :=
  fun _ _ h => arrives_climb ho hrank (fun _ _ _ hmore hwhole h' =>
    arrives_climbFrom ho hrank (Nat.lt_of_le_of_lt hmore h.short) hwhole h') h

end climbing

lemma follows_assignment (target : Expr) (equals : Token) (value : Expr) :
    Follows rounds e (assignment target equals value) (Grammar.assignment target equals value) := by
  have hreport : Follows rounds e (liftM (Walk.report ⟨.invalidTarget, equals⟩) : Attempt Unit)
      (.report .invalidTarget equals) := by
    intro c ahead _
    exact arrives_lift (arrives_report ⟨.invalidTarget, some equals⟩)
  unfold assignment Grammar.assignment
  cases target with
  | ref name => exact follows_pure _
  | _ => exact hreport.andThen (fun _ => follows_pure _)

lemma follows_exprOver (ho : Follows rounds e operandBelow operandBelow')
    (he : Follows rounds e exprBelow exprBelow') :
    Follows rounds e (exprOver rounds operandBelow exprBelow)
      (Grammar.exprOver operandBelow' exprBelow') := by
  have hoperand := follows_operandOver ho he
  rw [Grammar.exprOver_climbing]
  refine ((follows_climb hoperand Grammar.yields_operandOver_rank).called.andThen (fun left =>
    (follows_accept _).andThen (fun equals => ?_))).called
  cases equals with
  | none => exact follows_pure _
  | some equals => exact he.andThen (fun value => follows_assignment left equals value)

end expressions

section statements
variable {rounds : Nat} {e : Token} {expr : Attempt Expr} {expr' : Parser Expr}
  {branch : Attempt Stmt} {branch' : Parser Stmt} {body : Attempt (List Stmt)}
  {body' : Parser (List Stmt)}

lemma follows_initializer (he : Follows rounds e expr expr') :
    Follows rounds e (initializer expr) (Grammar.initializer expr') := by
  refine (follows_accept _).andThen (fun equals => ?_)
  cases equals with
  | none => exact follows_pure _
  | some _ => exact he.andThen (fun _ => follows_pure _)

lemma follows_declarationRest (he : Follows rounds e expr expr') :
    Follows rounds e (declarationRest expr) (Grammar.declarationRest expr') :=
  ((follows_expect _ _).andThen (fun _ => (follows_initializer he).andThen (fun _ =>
    (follows_expect _ _).andThen (fun _ => follows_pure _)))).called

lemma follows_ifRest (he : Follows rounds e expr expr') (hb : Follows rounds e branch branch') :
    Follows rounds e (ifRest expr branch) (Grammar.ifRest expr' branch') := by
  refine ((follows_expect _ _).andThen (fun _ => he.andThen (fun _ =>
    (follows_expect _ _).andThen (fun _ => hb.andThen (fun _ =>
      (follows_accept _).andThen (fun otherwise => ?_)))))).called
  cases otherwise with
  | none => exact follows_pure _
  | some _ => exact hb.andThen (fun _ => follows_pure _)

lemma follows_whileRest (he : Follows rounds e expr expr') (hb : Follows rounds e branch branch') :
    Follows rounds e (whileRest expr branch) (Grammar.whileRest expr' branch') :=
  ((follows_expect _ _).andThen (fun _ => he.andThen (fun _ =>
    (follows_expect _ _).andThen (fun _ => hb.andThen (fun _ => follows_pure _))))).called

lemma follows_upTo {α : Type} {p : Attempt α} {p' : Parser α} (hp : Follows rounds e p p')
    {kind : TokenKind} {fault : SyntaxFault} {make : α → Stmt} :
    Follows rounds e
      (do
        let a ← p
        let _ ← expect kind fault
        return make a)
      (p'.andThen (fun a => (Parser.expect kind fault).andThen (fun _ => .succeed (make a)))) :=
  hp.andThen (fun _ => (follows_expect _ _).andThen (fun _ => follows_pure _))

lemma follows_statementOver (he : Follows rounds e expr expr')
    (hb : Follows rounds e branch branch') (hs : Follows rounds e body body') :
    Follows rounds e (statementOver expr branch body)
      (Grammar.statementOver expr' branch' body') := by
  refine (Follows.onFront (fun t ht => by rw [ht]) (fun t => ?_) (follows_upTo he)).called
  generalize t.kind = kind
  cases kind with
  | symbol s =>
    cases s with
    | leftBrace => exact .some (hs.andThen (fun _ => follows_pure _))
    | _ => exact .none
  | keyword k =>
    cases k with
    | kwIf => exact .some (follows_ifRest he hb)
    | kwWhile => exact .some (follows_whileRest he hb)
    | kwPrint => exact .some (follows_upTo he)
    | _ => exact .none
  | _ => exact .none

lemma follows_synchronize :
    Walk.Follows rounds e (Walk.synchronize rounds) (fun ts => ⟨(), Grammar.skipped ts, []⟩) := by
  intro c ahead h
  refine Arrives.called ?_
  cases ahead with
  | nil =>
    obtain ⟨t, ht⟩ := Walk.advance_at_end h
    refine arrives_of_eq ?_
    rw [Walk.bind_of_eq ht, Walk.skip_at_end h h.short]
  | cons t rest =>
    have hpos : 0 < Grammar.skipped (t :: rest) := Grammar.skipped_pos (List.cons_ne_nil _ _)
    refine ⟨Grammar.skipped_le (t :: rest), [], ?_, fun _ hv => absurd hv List.not_mem_nil⟩
    rw [Walk.bind_of_eq (Walk.advance_of_sees h),
      Walk.skip_of_sees (h.next [] []) (Walk.previous_moved h)
        (Nat.lt_of_succ_lt h.short), Cursor.moved_moved,
      Nat.add_sub_cancel' hpos]
    rfl

lemma follows_recovering {p : Attempt Stmt} {p' : Parser Stmt} (hp : Follows rounds e p p') :
    Walk.Follows rounds e (recovering rounds p) (Grammar.recovering p') := by
  intro c ahead h
  have hp := hp c ahead h
  unfold ArrivesAs at hp
  cases hv : (p' ahead).value with
  | ok s =>
    rw [hv] at hp
    rw [Grammar.recovering_of_ok hv]
    have hread := hp.bind (f := recoverFrom rounds) h (fun c' _ => arrives_of_eq rfl)
    rwa [List.append_nil] at hread
  | error fault =>
    rw [hv] at hp
    rw [Grammar.recovering_of_error hv]
    refine hp.bind (f := recoverFrom rounds) h (fun c' h' => ?_)
    have hskip (c'' : Cursor) (h'' : c''.Sees rounds (ahead.drop (p' ahead).used) e) :=
      (follows_synchronize c'' _ h'').map (fun _ => (none : Option Stmt))
    have hreport := (arrives_report ⟨fault, (ahead.drop (p' ahead).used).head?⟩).bind
      (f := fun _ => Walk.synchronize rounds >>= fun _ => pure none) h' hskip
    rwa [Nat.zero_add, List.append_nil] at hreport

/-- A walk that tells whether reading items ends here. -/
def TellsEnd (rounds : Nat) (e : Token) (closed : Walk Bool) (closes : Token → Bool) : Prop :=
  ∀ c ahead, c.Sees rounds ahead e → ∃ b, closed c = some (b, c) ∧ (b ↔ Grammar.Ends closes ahead)

lemma arrives_items {closed : Walk Bool} {closes : Token → Bool} {item : Walk (Option Stmt)}
    {item' : List Token → Reading (Option Stmt)} (hclosed : TellsEnd rounds e closed closes)
    (hitem : Walk.Follows rounds e item item') (hpos : ∀ t ts, 0 < (item' (t :: ts)).used)
    {turns : Nat} {ahead : List Token} {c : Cursor} (hturns : ahead.length < turns)
    (h : c.Sees rounds ahead e) :
    Arrives e ahead c (Walk.items closed item turns) (Grammar.items closes item' ahead).value
      (Grammar.items closes item' ahead).used (Grammar.items closes item' ahead).reported := by
  -- every item uses a token, so there are as many turns as are needed
  induction turns generalizing ahead c with
  | zero => exact absurd hturns (Nat.not_lt_zero _)
  | succ turns ih =>
    obtain ⟨b, hb, hends⟩ := hclosed c ahead h
    rw [Walk.items]
    cases b with
    | true =>
      rw [Grammar.items_of_ends (hends.mp rfl)]
      refine arrives_of_eq ?_
      rw [Walk.bind_of_eq hb]
      rfl
    | false =>
      have hgoes : ¬ Grammar.Ends closes ahead := fun h => Bool.false_ne_true (hends.mpr h)
      have hne : ahead ≠ [] := by
        rintro rfl
        exact hgoes (fun t ht => absurd ht (Option.not_mem_none t))
      obtain ⟨t, rest, rfl⟩ := List.exists_cons_of_ne_nil hne
      have hused := hpos t rest
      have hless : ((t :: rest).drop (item' (t :: rest)).used).length < turns := by
        rw [List.length_drop]
        rw [List.length_cons] at hturns ⊢
        omega
      rw [Grammar.items_step hgoes hused]
      have hothers (c' : Cursor)
          (h' : c'.Sees rounds ((t :: rest).drop (item' (t :: rest)).used) e) :=
        (ih hless h').map (fun others => (item' (t :: rest)).value.toList ++ others)
      have hstep := (hitem c _ h).bind (f := fun first => do
        let others ← Walk.items closed item turns
        return first.toList ++ others) h hothers
      refine hstep.congr ?_
      rw [Walk.bind_of_eq hb]
      rfl

lemma follows_items {closed : Walk Bool} {closes : Token → Bool} {item : Walk (Option Stmt)}
    {item' : List Token → Reading (Option Stmt)} (hclosed : TellsEnd rounds e closed closes)
    (hitem : Walk.Follows rounds e item item') (hpos : ∀ t ts, 0 < (item' (t :: ts)).used) :
    Walk.Follows rounds e (Walk.items closed item rounds) (Grammar.items closes item') :=
  fun _ _ h => arrives_items hclosed hitem hpos h.short h

lemma tellsEnd_atEnd : TellsEnd rounds e Walk.atEnd (fun _ => false) := by
  intro c ahead h
  refine ⟨ahead.isEmpty, Walk.atEnd_of_sees h, ?_⟩
  cases ahead with
  | nil => exact iff_of_true rfl (fun t ht => absurd ht (Option.not_mem_none t))
  | cons t rest => exact iff_of_false Bool.false_ne_true (fun h => Bool.false_ne_true (h t rfl))

lemma tellsEnd_atBlockEnd : TellsEnd rounds e atBlockEnd (·.kind == .symbol .rightBrace) := by
  intro c ahead h
  unfold atBlockEnd
  cases ahead with
  | nil =>
    refine ⟨true, ?_, iff_of_true rfl (fun t ht => absurd ht (Option.not_mem_none t))⟩
    rw [Walk.bind_of_eq (Walk.check_of_ne h (fun t ht => absurd ht (Option.not_mem_none t)))]
    exact Walk.atEnd_of_sees h
  | cons t rest =>
    by_cases hk : t.kind = .symbol .rightBrace
    · refine ⟨true, ?_, iff_of_true rfl (fun u hu => ?_)⟩
      · rw [Walk.bind_of_eq (Walk.check_of_kind h hk)]
        rfl
      · cases hu
        exact beq_iff_eq.mpr hk
    · refine ⟨false, ?_, iff_of_false Bool.false_ne_true (fun h => hk (beq_iff_eq.mp (h t rfl)))⟩
      rw [Walk.bind_of_eq (Walk.check_of_ne h (fun u hu => Option.mem_some.mp hu ▸ hk))]
      exact Walk.atEnd_of_sees h

lemma follows_itemOver {statement : Attempt Stmt} {statement' : Parser Stmt}
    (he : Follows rounds e expr expr') (hs : Follows rounds e statement statement') :
    Walk.Follows rounds e (itemOver rounds expr statement) (Grammar.itemOver expr' statement') := by
  have hitem : Follows rounds e (onFront
      (fun t => if t.kind = .keyword .kwVar then some (declarationRest expr) else none) statement)
      (.onFront
        (fun t => if t.kind = .keyword .kwVar then some (Grammar.declarationRest expr') else none)
        statement') := by
    refine Follows.onFront (fun t ht => by rw [ht]; rfl) (fun t => ?_) hs
    split
    · exact .some (follows_declarationRest he)
    · exact .none
  exact fun c ahead h => (follows_recovering hitem c ahead h).called

lemma follows_blockOver {item : Walk (Option Stmt)} {item' : List Token → Reading (Option Stmt)}
    (hitem : Walk.Follows rounds e item item') (hpos : ∀ t ts, 0 < (item' (t :: ts)).used) :
    Follows rounds e (blockOver rounds item) (Grammar.blockOver item') := by
  have hbody : Follows rounds e (liftM (Walk.items atBlockEnd item rounds) : Attempt (List Stmt))
      (.always (Grammar.items (·.kind == .symbol .rightBrace) item')) :=
    fun c ahead h => arrives_lift (follows_items tellsEnd_atBlockEnd hitem hpos c ahead h)
  exact (hbody.andThen (fun _ => (follows_expect _ _).andThen (fun _ => follows_pure _))).called

end statements

section levels
variable {rounds : Nat} {e : Token}

lemma follows_operand_expr (n : Nat) :
    Follows rounds e (operand rounds n) (Grammar.operand n) ∧
      Follows rounds e (expr rounds n) (Grammar.expr n) := by
  induction n with
  | zero =>
    rw [operand, expr, Grammar.operand_zero, Grammar.expr_zero]
    exact ⟨follows_tooDeep, follows_tooDeep⟩
  | succ n ih =>
    rw [operand, expr, Grammar.operand_succ, Grammar.expr_succ]
    exact ⟨follows_operandOver ih.1 ih.2, follows_exprOver ih.1 ih.2⟩

lemma follows_statement_blockRest (n : Nat) :
    Follows rounds e (statement rounds n) (Grammar.statement n) ∧
      Follows rounds e (blockRest rounds n) (Grammar.blockRest n) := by
  induction n with
  | zero =>
    rw [statement, blockRest, Grammar.statement_zero, Grammar.blockRest_zero]
    exact ⟨follows_tooDeep, follows_tooDeep⟩
  | succ n ih =>
    have he : Follows rounds e (expr rounds (n + 1)) (Grammar.expr (n + 1)) :=
      (follows_operand_expr (n + 1)).2
    have hs := follows_statementOver he ih.1 ih.2
    rw [statement, blockRest, Grammar.statement_succ, Grammar.blockRest_succ_eq]
    refine ⟨hs, follows_blockOver (follows_itemOver he ?_) (Grammar.used_pos_item (n + 1))⟩
    rw [Grammar.statement_succ]
    exact hs

lemma follows_item (n : Nat) : Walk.Follows rounds e (item rounds n) (Grammar.item n) :=
  follows_itemOver (follows_operand_expr n).2 (follows_statement_blockRest n).1

end levels
end Attempt

section program
variable {tokens : List Token}

lemma endToken_of_forall (h : ∀ t ∈ tokens, t.kind ≠ .endOfInput) :
    endToken tokens = .endOfInput ((tokens.getLast?.map Token.line).getD 1) := by
  have hnone : tokens.find? (·.kind == .endOfInput) = none := by
    rw [List.find?_eq_none]
    intro t ht
    simpa using h t ht
  rw [endToken, hnone, Option.getD_none]

lemma closedWithEnd_of_forall (h : ∀ t ∈ tokens, t.kind ≠ .endOfInput) :
    closedWithEnd tokens = tokens ++ [endToken tokens] := by
  rw [endToken_of_forall h]
  unfold closedWithEnd
  cases hlast : tokens.getLast? with
  | none =>
    rw [List.getLast?_eq_none_iff] at hlast
    rw [hlast]
    rfl
  | some last => exact if_neg (h last (List.mem_of_getLast? hlast))

lemma closedWithEnd_append_end (as : List Token) (e : Token) (post : List Token) :
    ∃ more, closedWithEnd (as ++ e :: post) = as ++ e :: (post ++ more) := by
  unfold closedWithEnd
  split
  · split
    · exact ⟨[], by rw [List.append_nil]⟩
    · exact ⟨[_], by rw [List.append_assoc, List.cons_append]⟩
  · rename_i hlast
    rw [List.getLast?_eq_none_iff] at hlast
    exact absurd hlast (List.append_ne_nil_of_right_ne_nil as (List.cons_ne_nil e post))

lemma sees_closedWithEnd {rounds : Nat} (hrounds : (beforeEnd tokens).length < rounds) :
    Cursor.Sees ⟨closedWithEnd tokens, 0, [], []⟩ rounds (beforeEnd tokens) (endToken tokens) := by
  refine ⟨?_, hrounds, fun t ht => kind_ne_endOfInput_of_mem_beforeEnd ht, endToken_kind⟩
  rw [List.drop_zero]
  cases hfind : tokens.find? (·.kind == .endOfInput) with
  | none =>
    have hall : ∀ t ∈ tokens, t.kind ≠ .endOfInput := fun t ht hk =>
      List.find?_eq_none.mp hfind t ht (beq_iff_eq.mpr hk)
    rw [closedWithEnd_of_forall hall, beforeEnd_of_forall hall]
    exact ⟨[], rfl⟩
  | some e =>
    obtain ⟨hk, as, post, rfl, has⟩ := List.find?_eq_some_iff_append.mp hfind
    have hall : ∀ t ∈ as, t.kind ≠ .endOfInput := fun t ht hk => by simpa [hk] using has t ht
    have he : e.kind = .endOfInput := beq_iff_eq.mp hk
    obtain ⟨more, hmore⟩ := closedWithEnd_append_end as e post
    rw [beforeEnd_append_end hall he, endToken_append_end hall he, hmore]
    exact ⟨post ++ more, rfl⟩

/-- Given more rounds than there are tokens before the first end of input, a walk through all tokens
has a result, which is what those tokens are parsed as, and never goes behind them or backwards. -/
theorem parseWalking_eq {rounds : Nat} (hrounds : (beforeEnd tokens).length < rounds) :
    ∃ visits, parseWalking rounds tokens = some (parse tokens, visits) ∧
      ∀ v ∈ visits, v.Within 0 (beforeEnd tokens).length := by
  have hprogram : Walk.Follows rounds (endToken tokens) (walkProgram rounds) Grammar.program :=
    Attempt.follows_items Attempt.tellsEnd_atEnd (Attempt.follows_item (maxNesting + 1))
      (Grammar.used_pos_item (maxNesting + 1))
  obtain ⟨hwithin, visits, hwalk, hvisits⟩ := hprogram _ _ (sees_closedWithEnd hrounds)
  refine ⟨visits, ?_, fun v hv => ?_⟩
  · unfold parseWalking
    rw [hwalk]
    rfl
  · obtain ⟨hfirst, hforward, hlast⟩ := hvisits v hv
    rw [Nat.zero_add] at hlast
    exact ⟨hfirst, hforward, Nat.le_trans hlast hwithin⟩

end program
end Scriptlet
