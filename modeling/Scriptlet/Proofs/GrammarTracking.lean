import Scriptlet.Proofs.ErrorContainment
import Scriptlet.Proofs.ViablePrefix

/-!
# The grammar tracks its sentences

With any number of levels left, each production reads phrases of its sort, finds too much nesting,
or is stopped right behind a prefix of such a phrase. A prefix is completed by one token for
each thing that is still expected.
-/

namespace Scriptlet
namespace Grammar
open Scriptlet.Parser

/-- A token of the kind, by which a phrase can be completed. -/
def tokenOf (k : TokenKind) : Token := ⟨k, "", none, 0⟩

section phrases

lemma operand_nil : Derives .operand [tokenOf (.keyword .kwNil)] := .literal rfl

lemma expression_nil : Derives .expression [tokenOf (.keyword .kwNil)] := .value (.single operand_nil)

lemma statement_nil :
    Derives .statement [tokenOf (.keyword .kwNil), tokenOf (.symbol .semicolon)] :=
  .expression expression_nil rfl

end phrases

section expressions
variable {operandBelow exprBelow : Parser Expr}

lemma tracks_operandOver (ho : ∀ ts, Tracks operandBelow (Derives .operand) ts)
    (he : ∀ ts, Tracks exprBelow (Derives .expression) ts) (ts : List Token) :
    Tracks (operandOver operandBelow exprBelow) (Derives .operand) ts := by
  refine tracks_onFront (fun t q more hc _ => ?_) (tracks_fail (by decide) ⟨_, operand_nil⟩)
  rcases operandFrom_cases hc with hk | hk | ⟨v, hv⟩ | hk
  · rw [operandFrom_unary hk] at hc
    cases hc
    exact tracks_map (ho more) (fun w hw => .unary hk hw)
  · rw [operandFrom_grouping hk] at hc
    cases hc
    have hclose : ∀ w, Derives .expression w →
        Derives .operand (t :: (w ++ [tokenOf (.symbol .rightParen)])) :=
      fun w hw => .grouping hk hw rfl
    refine tracks_andThen (he more) (fun w hw => ⟨_, hclose w hw⟩) (fun e inner rest _ hw => ?_)
    refine tracks_expect (by decide) ⟨_, hclose inner hw⟩ (fun r rest hr _ => ?_)
    exact tracks_succeed (.grouping hk hw hr)
  · rw [operandFrom_literal hv] at hc
    cases hc
    exact tracks_succeed (.literal (Option.isSome_of_eq_some hv))
  · rw [operandFrom_ref hk] at hc
    cases hc
    exact tracks_succeed (.name hk)

lemma tracks_operations {operand : Parser Expr} (ho : ∀ ts, Tracks operand (Derives .operand) ts)
    (left : Expr) {w ts : List Token} (hw : Derives (.level 1) w) :
    Tracks (operations operand left) (fun u => Derives (.level 1) (w ++ u)) ts := by
  induction hlen : ts.length using Nat.strongRecOn generalizing left w ts with
  | _ n ih =>
    have hnil : Derives (.level 1) (w ++ []) := by rwa [List.append_nil]
    rw [operations_eq]
    refine tracks_onFront (fun op q more hc heq => ?_) (tracks_succeed hnil)
    split at hc
    · rename_i hop
      cases hc
      obtain ⟨p, hp⟩ := Option.isSome_iff_exists.mp hop
      have hsnoc : ∀ v, Derives .operand v → Derives (.level 1) (w ++ op :: v) :=
        fun v hv => hw.snoc hp (Expr.precedence?_bounds hp).1 hv
      refine tracks_andThen (ho more) (fun v hv => ⟨[], ?_⟩) (fun right v rest hmore hv => ?_)
      · rw [List.append_nil]
        exact hsnoc v hv
      · have hlt : rest.length < n := by
          rw [← hlen, heq, hmore, List.length_cons, List.length_append]
          omega
        have hmany := ih rest.length hlt (left.attach op right) (hsnoc v hv) rfl
        simpa only [List.append_assoc, List.cons_append] using hmany
    · cases hc

lemma tracks_assignment {L : List Token → Prop} {target value : Expr} {equals : Token}
    {ts : List Token} (h : L []) : Tracks (assignment target equals value) L ts := by
  unfold assignment
  split
  · exact tracks_succeed h
  · exact .reads [] (a := target) (OnTargets.singleton equals) (fun _ _ => rfl) h

lemma tracks_exprOver (ho : ∀ ts, Tracks operandBelow (Derives .operand) ts)
    (he : ∀ ts, Tracks exprBelow (Derives .expression) ts) (ts : List Token) :
    Tracks (exprOver operandBelow exprBelow) (Derives .expression) ts := by
  have hoperand := tracks_operandOver ho he
  have hvalue : ∀ w, Derives (.level 1) w → ∃ more, Derives .expression (w ++ more) :=
    fun w hw => ⟨[], by rw [List.append_nil]; exact .value hw⟩
  refine tracks_andThen (hoperand ts) (fun w hw => hvalue w (.single hw))
    (fun first w rest _ hw => ?_)
  refine tracks_andThen (tracks_operations hoperand first (.single hw)) (fun u hu => ?_)
    (fun left u rest _ hu => ?_)
  · simpa only [List.append_assoc] using hvalue _ hu
  · refine tracks_accept (tracks_succeed ?_) (fun equals more hequals _ => ?_)
    · rw [List.append_nil]
      exact .value hu
    · have hassign : ∀ v, Derives .expression v → Derives .expression (w ++ (u ++ equals :: v)) := by
        intro v hv
        rw [← List.append_assoc]
        exact .assignment hu hequals hv
      refine tracks_andThen (he more) (fun v hv => ⟨[], ?_⟩) (fun value v rest _ hv => ?_)
      · rw [List.append_nil]
        exact hassign v hv
      · refine tracks_assignment ?_
        rw [List.append_nil]
        exact hassign v hv

end expressions

lemma tracks_operand_expr (n : Nat) :
    (∀ ts, Tracks (operand n) (Derives .operand) ts) ∧
      ∀ ts, Tracks (expr n) (Derives .expression) ts := by
  induction n with
  | zero =>
    rw [operand_zero, expr_zero]
    exact ⟨fun _ => tracks_tooDeep, fun _ => tracks_tooDeep⟩
  | succ n ih =>
    rw [operand_succ, expr_succ]
    exact ⟨tracks_operandOver ih.1 ih.2, tracks_exprOver ih.1 ih.2⟩

lemma tracks_expr (n : Nat) (ts : List Token) : Tracks (expr n) (Derives .expression) ts :=
  (tracks_operand_expr n).2 ts

section statements
variable {expr : Parser Expr} {branch : Parser Stmt} {body : Parser (List Stmt)} {t : Token}
  {ts : List Token}

lemma tracks_upTo_semicolon {α : Type} {p : Parser α} {L L' : List Token → Prop}
    {fault : SyntaxFault} {make : α → Stmt} (hp : Tracks p L' ts) (hfault : fault ≠ .invalidTarget)
    (hL : ∀ w stop, L' w → stop.kind = .symbol .semicolon → L (w ++ [stop])) :
    Tracks (p.andThen (fun a => (expect (.symbol .semicolon) fault).andThen
      (fun _ => succeed (make a)))) L ts := by
  have hstop : ∀ w, L' w → ∃ more, L (w ++ more) :=
    fun w hw => ⟨[tokenOf (.symbol .semicolon)], hL w _ hw rfl⟩
  refine tracks_andThen hp hstop (fun a w rest _ hw => ?_)
  refine tracks_expect hfault (hstop w hw) (fun stop rest hs _ => ?_)
  exact tracks_succeed (hL w stop hw hs)

lemma tracks_condition {L : List Token → Prop} {f f' : SyntaxFault} {next : Expr → Parser Stmt}
    (he : ∀ ts, Tracks expr (Derives .expression) ts) (hf : f ≠ .invalidTarget)
    (hf' : f' ≠ .invalidTarget)
    (hL : ∀ l c r, l.kind = .symbol .leftParen → Derives .expression c →
      r.kind = .symbol .rightParen → ∃ more, L (l :: (c ++ r :: more)))
    (hnext : ∀ l c r e ts, l.kind = .symbol .leftParen → Derives .expression c →
      r.kind = .symbol .rightParen → Tracks (next e) (fun w => L (l :: (c ++ r :: w))) ts) :
    Tracks ((expect (.symbol .leftParen) f).andThen (fun _ => expr.andThen (fun e =>
      (expect (.symbol .rightParen) f').andThen (fun _ => next e)))) L ts := by
  have hright : ∀ l c, l.kind = .symbol .leftParen → Derives .expression c →
      ∃ more, L (l :: (c ++ more)) := by
    intro l c hl hc
    obtain ⟨more, hmore⟩ := hL l c (tokenOf (.symbol .rightParen)) hl hc rfl
    exact ⟨_, hmore⟩
  have hleft : ∃ w, L w := by
    obtain ⟨more, hmore⟩ := hright (tokenOf (.symbol .leftParen)) _ rfl expression_nil
    exact ⟨_, hmore⟩
  refine tracks_expect hf hleft (fun l rest hl _ => ?_)
  refine tracks_andThen (he rest) (fun c hc => hright l c hl hc) (fun e c rest _ hc => ?_)
  refine tracks_expect hf' (hright l c hl hc) (fun r rest hr _ => ?_)
  exact hnext l c r e rest hl hc hr

lemma tracks_ifRest (ht : t.kind = .keyword .kwIf)
    (he : ∀ ts, Tracks expr (Derives .expression) ts)
    (hb : ∀ ts, Tracks branch (Derives .statement) ts) :
    Tracks (ifRest expr branch) (fun w => Derives .statement (t :: w)) ts := by
  refine tracks_condition he (by decide) (by decide)
    (fun l c r hl hc hr => ⟨_, .ifThen ht hl hc hr statement_nil⟩)
    (fun l c r condition ts hl hc hr => ?_)
  have hthen : ∀ y, Derives .statement y → Derives .statement (t :: l :: (c ++ r :: (y ++ []))) := by
    intro y hy
    rw [List.append_nil]
    exact .ifThen ht hl hc hr hy
  refine tracks_andThen (hb ts) (fun y hy => ⟨[], hthen y hy⟩) (fun yes y rest _ hy => ?_)
  refine tracks_accept (tracks_succeed (hthen y hy)) (fun e rest hk _ => ?_)
  exact tracks_map (hb rest) (fun w hw => .ifElse ht hl hc hr hy hk hw)

lemma tracks_whileRest (ht : t.kind = .keyword .kwWhile)
    (he : ∀ ts, Tracks expr (Derives .expression) ts)
    (hb : ∀ ts, Tracks branch (Derives .statement) ts) :
    Tracks (whileRest expr branch) (fun w => Derives .statement (t :: w)) ts :=
  tracks_condition he (by decide) (by decide)
    (fun _ _ _ hl hc hr => ⟨_, .whileDo ht hl hc hr statement_nil⟩)
    (fun _ _ _ _ ts hl hc hr => tracks_map (hb ts) (fun _ hw => .whileDo ht hl hc hr hw))

lemma tracks_statementOver (he : ∀ ts, Tracks expr (Derives .expression) ts)
    (hb : ∀ ts, Tracks branch (Derives .statement) ts)
    (hs : ∀ ts, Tracks body (Derives .blockRest) ts) (ts : List Token) :
    Tracks (statementOver expr branch body) (Derives .statement) ts := by
  refine tracks_onFront (fun t p more hc _ => ?_) ?_
  · split at hc <;> rename_i hk <;> cases hc
    · exact tracks_ifRest hk he hb
    · exact tracks_whileRest hk he hb
    · exact tracks_upTo_semicolon (he more) (by decide) (fun w stop hw hs => .print hk hw hs)
    · exact tracks_map (hs more) (fun w hw => .block hk hw)
  · exact tracks_upTo_semicolon (he ts) (by decide) (fun w stop hw hs => .expression hw hs)

/-- What may stand between the name and the semicolon of a declaration. -/
def Initializer (w : List Token) : Prop :=
  w = [] ∨ ∃ equals v, w = equals :: v ∧ equals.kind = .symbol .equal ∧ Derives .expression v

lemma tracks_initializer (he : ∀ ts, Tracks expr (Derives .expression) ts) :
    Tracks (initializer expr) Initializer ts := by
  refine tracks_accept (tracks_succeed (Or.inl rfl)) (fun equals more hk _ => ?_)
  exact tracks_map (he more) (fun w hw => Or.inr ⟨equals, w, rfl, hk, hw⟩)

lemma tracks_declarationRest (ht : t.kind = .keyword .kwVar)
    (he : ∀ ts, Tracks expr (Derives .expression) ts) :
    Tracks (declarationRest expr) (fun w => Derives .item (t :: w)) ts := by
  have hplain : ∃ w, Derives .item (t :: w) :=
    ⟨[tokenOf .identifier, tokenOf (.symbol .semicolon)], .declaration ht rfl rfl⟩
  refine tracks_expect (by decide) hplain (fun x rest hx _ => ?_)
  refine tracks_upTo_semicolon (tracks_initializer he) (by decide) (fun w stop hw hs => ?_)
  rcases hw with rfl | ⟨equals, v, rfl, hequals, hv⟩
  · exact .declaration ht hx hs
  · exact .initialization ht hx hequals hv hs

end statements

lemma tracks_itemParser {n : Nat} (hs : ∀ ts, Tracks (statement n) (Derives .statement) ts)
    (ts : List Token) : Tracks (itemParser n) (Derives .item) ts := by
  refine tracks_onFront (fun t p more hc _ => ?_) ?_
  · split at hc
    · rename_i hk
      cases hc
      exact tracks_declarationRest hk (tracks_expr n)
    · cases hc
  · exact (hs ts).mono (fun _ hw => .plain hw)

section items
variable {p : Parser Stmt} {closes : Token → Bool} {ts front rest : List Token} {c : Complaint}

lemma reported_recovering : (recovering p ts).reported = (p ts).complaints ts := by
  unfold recovering Reading.complaints
  generalize p ts = r
  obtain ⟨value, used, reported⟩ := r
  cases value <;> rfl

lemma firstBlock?_always {α : Type} (read : List Token → Reading α) :
    (always read).firstBlock? ts = (read ts).reported.find? Complaint.blocks := rfl

lemma firstBlock?_items (hadv : Advances p) (ho : ¬ Ends closes ts)
    (h : p.firstBlock? ts = some c) :
    (always (items closes (recovering p))).firstBlock? ts = some c := by
  have hpos : 0 < (recovering p ts).used := by
    cases ts with
    | nil => exact absurd (fun t ht => by cases ht) ho
    | cons t more => exact used_pos_recovering hadv t more
  rw [firstBlock?_always, items_step ho hpos, reported_recovering, List.find?_append]
  unfold firstBlock? at h
  rw [h, Option.some_or]

lemma items_of_read {s : Stmt} {reported : List Complaint} (hadv : Advances p)
    (ho : ¬ Ends closes (front ++ rest))
    (hp : p (front ++ rest) = ⟨.ok s, front.length, reported⟩) :
    items closes (recovering p) (front ++ rest) =
      ⟨s :: (items closes (recovering p) rest).value,
        front.length + (items closes (recovering p) rest).used,
        reported ++ (items closes (recovering p) rest).reported⟩ := by
  have hv : (p (front ++ rest)).value = .ok s := by rw [hp]
  rw [items_of_ok ho hv (hadv _ s hv), hp, List.drop_left]

lemma firstBlock?_items_of_read {s : Stmt} {reported : List Complaint} (hadv : Advances p)
    (ho : ¬ Ends closes (front ++ rest))
    (hp : p (front ++ rest) = ⟨.ok s, front.length, reported⟩) (ht : OnTargets reported) :
    (always (items closes (recovering p))).firstBlock? (front ++ rest) =
      (always (items closes (recovering p))).firstBlock? rest := by
  rw [firstBlock?_always, firstBlock?_always, items_of_read hadv ho hp, List.find?_append,
    find?_onTargets ht, Option.none_or]

lemma tracks_items_of_read {s : Stmt} {reported : List Complaint} (hadv : Advances p)
    (hgoes : ∀ rest', rest'.head? = rest.head? → ¬ Ends closes (front ++ rest'))
    (targets : OnTargets reported)
    (read : ∀ rest', rest'.head? = rest.head? →
      p (front ++ rest') = ⟨.ok s, front.length, reported⟩) (mem : Derives .item front)
    (hothers : Tracks (always (items closes (recovering p))) (Derives .program) rest) :
    Tracks (always (items closes (recovering p))) (Derives .program) (front ++ rest) := by
  cases hothers with
  | @reads right rest body reported' targets' read' mem' =>
    rw [← List.append_assoc]
    refine .reads _ (a := s :: body) (targets.append targets') (fun rest' h' => ?_) (.more mem mem')
    have hhead : (right ++ rest').head? = (right ++ rest).head? := head?_append_congr h'
    have hbody := read' rest' h'
    unfold always at hbody ⊢
    rw [Reading.mk.injEq, Except.ok.injEq] at hbody
    obtain ⟨hvalue, hlength, hreported⟩ := hbody
    rw [List.append_assoc, items_of_read hadv (hgoes _ hhead) (read _ hhead), hvalue, hlength,
      hreported, List.length_append]
  | tooDeep deep =>
    exact .tooDeep (by
      rw [firstBlock?_items_of_read hadv (hgoes rest rfl) (read rest rfl) targets, deep])
  | @stops right rest c blamed viable first =>
    obtain ⟨more, hmore⟩ := viable
    rw [← List.append_assoc]
    refine .stops _ blamed ⟨more, ?_⟩ (fun rest' h' => ?_)
    · rw [List.append_assoc]
      exact .more mem hmore
    · have hhead : (right ++ rest').head? = (right ++ rest).head? := head?_append_congr h'
      rw [List.append_assoc, firstBlock?_items_of_read hadv (hgoes _ hhead) (read _ hhead) targets,
        first rest' h']

lemma tracks_items (hp : ∀ ts, Tracks p (Derives .item) ts) (hadv : Advances p) (ts : List Token) :
    Tracks (always (items closes (recovering p))) (Derives .program) ts := by
  induction hlen : ts.length using Nat.strongRecOn generalizing ts with
  | _ n ih =>
    by_cases he : Ends closes ts
    · refine .reads [] (a := []) OnTargets.nil (fun rest' h' => ?_) .empty
      have he' : Ends closes rest' := fun t ht => he t (h' ▸ ht)
      unfold always
      rw [List.nil_append, items_of_ends he']
      rfl
    · have hgoes : ∀ ts', ts'.head? = ts.head? → ¬ Ends closes ts' :=
        fun ts' h' he' => he (fun t ht => he' t (h' ▸ ht))
      have hitem := hp ts
      cases hitem with
      | @reads front rest s reported targets read mem =>
        have hused := hadv (front ++ rest) s (by rw [read rest rfl])
        rw [read rest rfl] at hused
        have hlt : rest.length < n := by
          rw [← hlen, List.length_append]
          exact Nat.lt_add_of_pos_left hused
        exact tracks_items_of_read hadv (fun _ h' => hgoes _ (head?_append_congr h')) targets read
          mem (ih rest.length hlt rest rfl)
      | tooDeep deep =>
        obtain ⟨c, hc, hdeep⟩ := Option.map_eq_some_iff.mp deep
        exact .tooDeep (by rw [firstBlock?_items hadv he hc, Option.map_some, hdeep])
      | stops front blamed viable first =>
        obtain ⟨more, hmore⟩ := viable
        have hprogram := Derives.more hmore .empty
        rw [List.append_nil] at hprogram
        exact .stops front blamed ⟨more, hprogram⟩ (fun rest' h' =>
          firstBlock?_items hadv (hgoes _ (head?_append_congr h')) (first rest' h'))

end items

lemma tracks_blockOver {item : List Token → Reading (Option Stmt)}
    (hitem : ∀ closes ts, Tracks (always (items closes item)) (Derives .program) ts)
    (ts : List Token) : Tracks (blockOver item) (Derives .blockRest) ts := by
  have hclose : ∀ w, Derives .program w → ∃ more, Derives .blockRest (w ++ more) :=
    fun w hw => ⟨[tokenOf (.symbol .rightBrace)], .closing hw rfl⟩
  unfold blockOver
  refine tracks_andThen (hitem _ ts) hclose (fun body w rest _ hw => ?_)
  refine tracks_expect (by decide) (hclose w hw) (fun r rest hr _ => ?_)
  exact tracks_succeed (.closing hw hr)

lemma tracks_statement_blockRest (n : Nat) :
    (∀ ts, Tracks (statement n) (Derives .statement) ts) ∧
      ∀ ts, Tracks (blockRest n) (Derives .blockRest) ts := by
  induction n with
  | zero =>
    rw [statement_zero, blockRest_zero]
    exact ⟨fun _ => tracks_tooDeep, fun _ => tracks_tooDeep⟩
  | succ n ih =>
    have hs : ∀ ts, Tracks (statement (n + 1)) (Derives .statement) ts := by
      rw [statement_succ]
      exact tracks_statementOver (tracks_expr (n + 1)) ih.1 ih.2
    refine ⟨hs, ?_⟩
    rw [blockRest_succ_eq, item_eq]
    exact tracks_blockOver (fun _ => tracks_items (tracks_itemParser hs) (advances_itemParser _))

/-- The program is read to its end or stopped where it could still have become another one. -/
theorem tracks_program (ts : List Token) :
    Tracks (always program) (Derives .program) ts := by
  have hs := (tracks_statement_blockRest (maxNesting + 1)).1
  unfold program
  rw [item_eq]
  exact tracks_items (tracks_itemParser hs) (advances_itemParser _) ts

end Grammar
end Scriptlet
