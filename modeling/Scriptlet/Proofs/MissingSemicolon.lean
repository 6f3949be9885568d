import Scriptlet.Source.Scan
import Scriptlet.Proofs.SimpleEnding
import Scriptlet.Proofs.SingleComplaint

/-!
# A program without one of its semicolons

From a program that is read without an error one semicolon is taken away. Where an expression, a
`print` or a declaration follows, or nothing, the parser reports at most one error: it reads two
statements as one, or skips both. Skipping does not know of blocks and branches, so nothing of the
kind holds where a block begins or ends there, or a branch, nor where a conditional or a loop begins.
-/

namespace Scriptlet
namespace Grammar
open Scriptlet.Parser

/-- With `n` levels left the parser reads with at most one complaint what is left of a canonical
statement without one of its semicolons, when a simple statement may begin there; where an `if` at
its end could take an `else`, none may follow. -/
def LosesOne (n : Nat) (p : Parser Stmt) : Prop :=
  ∀ (s : Stmt) (u : List Token) (stop : Token) (v rest : List Token), s.Canonical →
    ¬ s.isDeclaration → s.nest < n → Written s.marks (u ++ stop :: v) →
    stop.kind = .symbol .semicolon → Resumes v →
    (s.endsOpen → ¬ Fronts (.keyword .kwElse) rest) → p.ReadsWithOne (u ++ v) rest

/-- The same for the rest of a block. -/
def LosesOneInside (n : Nat) (p : Parser (List Stmt)) : Prop :=
  ∀ body u stop v close rest, Stmt.CanonicalAll body → Stmt.nestAll body < n →
    Written (Stmt.marksAll body) (u ++ stop :: v) → stop.kind = .symbol .semicolon → Resumes v →
    close.kind = .symbol .rightBrace → p.ReadsWithOne (u ++ v ++ [close]) rest

section induction
variable {n : Nat}

lemma losesOne_statement (hs : LosesOne n (statement n)) (hb : LosesOneInside n (blockRest n)) :
    LosesOne (n + 1) (statement (n + 1)) := by
  have he := (readsOperands_readsExprs (n + 1)).2
  have hread := (readsStmts_readsRests n).1
  intro s u stop v rest hcan hplain hnest hw hstop hv hrest
  have hsimple : ¬ s.isSimple := fun h => hv.ne_nil (Stmt.eq_nil_of_isSimple h hcan hw hstop)
  rw [statement_succ]
  cases s with
  | expr e | print keyword e | declare name init => exact absurd rfl hsimple
  | block body =>
    obtain ⟨t, _, heq, ht, hmore⟩ := written_cons_iff.mp hw
    obtain ⟨inner, _, rfl, hinner, hend⟩ := written_append_iff.mp hmore
    obtain ⟨close, none, rfl, hclose, hnone⟩ := written_cons_iff.mp hend
    obtain rfl := written_nil_iff.mp hnone
    have hrow : [t] ++ (inner ++ [close]) = u ++ stop :: v := heq.symm
    obtain ⟨u, rfl, hbehind⟩ := exists_behind hrow
      (fun h => ne_of_kind ht hstop (by decide) (List.mem_singleton.mp h).symm)
    have hne : close ≠ stop := ne_of_kind hclose hstop (by decide)
    obtain ⟨v, rfl, rfl⟩ := (before_or_behind_of_ne hbehind hne).resolve_right
      (fun ⟨w, _, hnil⟩ => List.append_ne_nil_of_right_ne_nil w (List.cons_ne_nil _ _) hnil.symm)
    have hone := hb body u stop v close rest hcan (Nat.succ_lt_succ_iff.mp hnest) hinner hstop
      (hv.of_append (by rw [show close.kind = _ from hclose]; rfl)) hclose
    rw [List.append_assoc] at hone
    have hblock : (Parser.andThen (blockRest n) (fun ss => succeed (Stmt.block ss))).ReadsWithOne
        (u ++ (v ++ [close])) rest := ReadsWithOne.map hone
    refine hblock.onFront_some ?_
    rw [ht]
    rfl
  | ifThen c yes =>
    obtain ⟨hccan, hycan, hyplain⟩ := hcan
    rw [Stmt.nest, Nat.max_lt, Nat.succ_lt_succ_iff] at hnest
    obtain ⟨t, left, inner, rfl, ht, hleft, hinner⟩ := exists_branch hccan hstop hw
    have hone := readsWithOne_ifThen ((readsWhen_condition he hccan hleft).1 hnest.1)
      (hs yes inner stop v rest hycan hyplain hnest.2 hinner hstop hv (fun _ => hrest rfl))
      (hrest rfl)
    rw [List.cons_append, List.append_assoc]
    exact hone.onFront_some (by rw [ht])
  | ifElse c yes no =>
    obtain ⟨hccan, hycan, hyplain, hyclosed, hncan, hnplain⟩ := hcan
    rw [Stmt.nest, Nat.max_lt, Nat.max_lt, Nat.succ_lt_succ_iff, Nat.succ_lt_succ_iff] at hnest
    obtain ⟨t, left, inner, rfl, ht, hleft, hinner⟩ := exists_branch hccan hstop hw
    obtain ⟨first, _, heq, hfirst, hmore⟩ := written_append_iff.mp hinner
    obtain ⟨e, second, rfl, helse, hsecond⟩ := written_cons_iff.mp hmore
    have hc (ts : List Token) : (condition (expr (n + 1)) .expectedParenAfterIf
        .expectedParenAfterIfCondition).Reads left c ts :=
      (readsWhen_condition he hccan hleft).1 hnest.1
    rw [List.cons_append, List.append_assoc]
    rcases before_or_behind_of_ne heq.symm (ne_of_kind helse hstop (by decide)) with
      ⟨v, rfl, rfl⟩ | ⟨second', rfl, rfl⟩
    · have hyes := hs yes inner stop v (e :: second ++ rest) hycan hyplain hnest.2.1 hfirst hstop
        (hv.of_append (by rw [show e.kind = _ from helse]; rfl)) (fun h => absurd h hyclosed)
      have hno := (hread no second rest hncan hnplain hsecond hrest).1 hnest.2.2
      have hone := readsWithOne_ifElse_left (hc _) hyes helse hno
      rw [List.append_assoc] at hone
      exact hone.onFront_some (by rw [ht])
    · have hyes := (hread yes first (e :: (second' ++ v) ++ rest) hycan hyplain hfirst
        (fun h => absurd h hyclosed)).1 hnest.2.1
      have hno := hs no second' stop v rest hncan hnplain hnest.2.2 hsecond hstop hv hrest
      have hone := readsWithOne_ifElse_right (hc _) hyes helse hno
      rw [List.append_assoc, List.cons_append]
      exact hone.onFront_some (by rw [ht])
  | whileDo c body =>
    obtain ⟨hccan, hbcan, hbplain⟩ := hcan
    rw [Stmt.nest, Nat.max_lt, Nat.succ_lt_succ_iff] at hnest
    obtain ⟨t, left, inner, rfl, ht, hleft, hinner⟩ := exists_branch hccan hstop hw
    have hone := readsWithOne_whileDo ((readsWhen_condition he hccan hleft).1 hnest.1)
      (hs body inner stop v rest hbcan hbplain hnest.2 hinner hstop hv hrest)
    rw [List.cons_append, List.append_assoc]
    exact hone.onFront_some (by rw [ht])

lemma readsWithOne_itemParser (hs : LosesOne (n + 1) (statement (n + 1))) {s : Stmt}
    {u v rest : List Token} {stop : Token} (hcan : s.Canonical) (hnest : s.nest < n + 1)
    (hw : Written s.marks (u ++ stop :: v)) (hstop : stop.kind = .symbol .semicolon)
    (hv : Resumes v) (hrest : ¬ Fronts (.keyword .kwElse) rest) :
    (itemParser (n + 1)).ReadsWithOne (u ++ v) rest := by
  by_cases hplain : s.isDeclaration
  · have hsimple := Stmt.isSimple_of_isDeclaration hplain
    exact absurd (Stmt.eq_nil_of_isSimple hsimple hcan hw hstop) hv.ne_nil
  · obtain ⟨t, more, rfl, -⟩ := Stmt.exists_front hcan hw hstop
    obtain ⟨a, cs, hreads, hone⟩ := hs s _ stop v rest hcan hplain hnest hw hstop hv (fun _ => hrest)
    refine ⟨a, cs, ?_, hone⟩
    unfold ReadsWith at hreads ⊢
    rw [List.append_assoc] at hreads ⊢
    rwa [itemParser_of_written hcan hplain hw (List.cons_ne_nil t more)]

/-- Behind an item that has lost its last semicolon the next one is read with it or skipped, when a
simple statement may begin there. -/
lemma readsWithOne_join {s s' : Stmt} {u back rest : List Token} {stop : Token} (hcan : s.Canonical)
    (hnest : s.nest < n + 1) (hw : Written s.marks (u ++ [stop]))
    (hstop : stop.kind = .symbol .semicolon) (hcan' : s'.Canonical) (hw' : Written s'.marks back)
    (hback : ∀ t ∈ back.head?, ¬ t.kind.isStructural) (hrest : ¬ Fronts (.keyword .kwElse) rest) :
    (always (recovering (itemParser (n + 1)))).ReadsWithOne (u ++ back) rest := by
  have hs' : s'.isSimple := by
    obtain ⟨t, more, rfl, -⟩ := Stmt.written_front hcan' hw'
    exact Stmt.isSimple_of_front hw' (hback t rfl)
  obtain ⟨front, stop', rfl, hstop'⟩ := Stmt.exists_stop hs' hw'
  have hends := endsSimply_itemParser hcan hnest hw hstop
  rw [← List.append_assoc]
  exact readsWithOne_of_readsOrStops (hends.readsOrStops hs' hcan' hw' hstop' hrest)

section items
variable {closes : Token → Bool} {s : Stmt} {ss : List Stmt} {u v rest : List Token} {stop : Token}

lemma readsWithOne_items_join (hcan : Stmt.CanonicalAll (s :: ss))
    (hnest : Stmt.nestAll (s :: ss) < n + 1) (hs : Written s.marks (u ++ [stop]))
    (hss : Written (Stmt.marksAll ss) v) (hstop : stop.kind = .symbol .semicolon)
    (hv : ∀ t ∈ v.head?, ¬ t.kind.isStructural) (hlast : v = [] → rest = [])
    (hcloses : ∀ t, t.kind ≠ .symbol .rightBrace → ¬ closes t) (hends : Ends closes rest)
    (hrest : ¬ Fronts (.keyword .kwElse) rest) :
    (always (items closes (recovering (itemParser (n + 1))))).ReadsWithOne (u ++ v) rest := by
  have hp := readsItems_itemParser (readsStmts_readsRests (n + 1)).1
  rw [Stmt.nestAll, Nat.max_lt] at hnest
  obtain ⟨t, more, rfl, hbrace⟩ := Stmt.exists_front hcan.1 hs hstop
  have hgoes (ts : List Token) : ¬ Ends closes (t :: more ++ ts) :=
    fun h => hcloses t hbrace (h t rfl)
  cases ss with
  | nil =>
    obtain rfl := written_nil_iff.mp hss
    obtain rfl := hlast rfl
    have hstops := (endsSimply_itemParser hcan.1 hnest.1 hs hstop).stopsAfter_nil
    have hnone : (always (items closes (recovering (itemParser (n + 1))))).Reads [] [] [] :=
      reads_always.mpr (items_of_ends hends)
    exact readsWithOne_items_left (hgoes _) (List.cons_ne_nil _ _)
      (readsWithOne_of_stopsAfter hstops) hnone
  | cons s' ss =>
    rw [Stmt.nestAll, Nat.max_lt] at hnest
    obtain ⟨back, others, rfl, hback, hothers⟩ := written_append_iff.mp hss
    obtain ⟨x, next, rfl, -⟩ := Stmt.written_front hcan.2.1 hback
    have hone := readsWithOne_join hcan.1 hnest.1 hs hstop hcan.2.1 hback hv
      (not_fronts_else hcan.2.2 hothers hrest)
    have hclean := (readsWhen_items hp hcan.2.2 hothers hcloses hends hrest).1 hnest.2.2
    rw [← List.append_assoc]
    refine readsWithOne_items_left ?_ (List.cons_ne_nil _ _) hone hclean
    rw [List.append_assoc]
    exact hgoes _

lemma not_fronts_else_lost (hcan : Stmt.CanonicalAll ss)
    (hw : Written (Stmt.marksAll ss) (u ++ stop :: v))
    (hv : ∀ t ∈ v.head?, ¬ t.kind.isStructural) (hrest : ¬ Fronts (.keyword .kwElse) rest) :
    ¬ Fronts (.keyword .kwElse) (u ++ v ++ rest) := by
  rintro ⟨t, ht, hk⟩
  cases u with
  | nil =>
    cases v with
    | nil => exact hrest ⟨t, ht, hk⟩
    | cons x v =>
      cases ht
      exact hv t rfl (by rw [hk]; rfl)
  | cons x u => exact not_fronts_else hcan hw hrest ⟨t, ht, hk⟩

lemma readsWithOne_items (hs : LosesOne (n + 1) (statement (n + 1)))
    (hcan : Stmt.CanonicalAll ss) (hnest : Stmt.nestAll ss < n + 1)
    (hw : Written (Stmt.marksAll ss) (u ++ stop :: v)) (hstop : stop.kind = .symbol .semicolon)
    (hv : ∀ t ∈ v.head?, ¬ t.kind.isStructural) (hlast : v = [] → rest = [])
    (hcloses : ∀ t, t.kind ≠ .symbol .rightBrace → ¬ closes t) (hends : Ends closes rest)
    (hrest : ¬ Fronts (.keyword .kwElse) rest) :
    (always (items closes (recovering (itemParser (n + 1))))).ReadsWithOne (u ++ v) rest := by
  induction ss generalizing u with
  | nil =>
    exact absurd (written_nil_iff.mp hw)
      (List.append_ne_nil_of_right_ne_nil u (List.cons_ne_nil stop v))
  | cons s ss ih =>
    have hp := readsItems_itemParser (readsStmts_readsRests (n + 1)).1
    obtain ⟨first, others, heq, hfirst, hothers⟩ := written_append_iff.mp hw
    obtain ⟨hfits, hfits'⟩ := Nat.max_lt.mp hnest
    rcases before_or_behind heq.symm with ⟨w, rfl, rfl⟩ | ⟨u', rfl, rfl⟩
    · cases w with
      | nil => exact readsWithOne_items_join hcan hnest hfirst hothers hstop hv hlast hcloses hends hrest
      | cons x w =>
        -- the semicolon stands inside of the first item
        obtain ⟨t, more, rfl, hbrace⟩ := Stmt.exists_front hcan.1 hfirst hstop
        have hone := readsWithOne_itemParser hs hcan.1 hfits hfirst hstop ⟨x, rfl, hv x rfl⟩
          (not_fronts_else hcan.2 hothers hrest)
        have hclean := (readsWhen_items hp hcan.2 hothers hcloses hends hrest).1 hfits'
        rw [← List.append_assoc]
        exact readsWithOne_items_left (fun h => hcloses t hbrace (h t rfl)) (List.cons_ne_nil _ _)
          (readsWithOne_recovering hone) hclean
    · obtain ⟨t, more, rfl, -, hbrace⟩ := Stmt.written_front hcan.1 hfirst
      have hclean := (hp s (t :: more) (u' ++ v ++ rest) hcan.1 hfirst
        (fun _ => not_fronts_else_lost hcan.2 hothers hv hrest)).1 hfits
      rw [List.append_assoc]
      exact readsWithOne_items_right (fun h => hcloses t hbrace (h t rfl)) (List.cons_ne_nil _ _)
        hclean (ih hcan.2 hfits' hothers)

end items

lemma losesOne_statement_blockRest (n : Nat) :
    LosesOne n (statement n) ∧ LosesOneInside n (blockRest n) := by
  induction n with
  | zero =>
    exact ⟨fun _ _ _ _ _ _ _ hnest => absurd hnest (Nat.not_lt_zero _),
      fun _ _ _ _ _ _ _ hnest => absurd hnest (Nat.not_lt_zero _)⟩
  | succ n ih =>
    have hs := losesOne_statement ih.1 ih.2
    refine ⟨hs, fun body u stop v close rest hcan hnest hw hstop hv hclose => ?_⟩
    rw [blockRest_succ_eq, blockOver, item_eq]
    have hends : Ends (·.kind == .symbol .rightBrace) ([close] ++ rest) := by
      intro t ht
      cases ht
      exact beq_iff_eq.mpr hclose
    have hnoelse : ¬ Fronts (.keyword .kwElse) ([close] ++ rest) := by
      rintro ⟨t, ht, hk⟩
      cases ht
      rw [hclose] at hk
      cases hk
    have hitems := readsWithOne_items hs hcan hnest hw hstop
      (fun t ht => by
        obtain ⟨u, hu, hk⟩ := hv
        rwa [Option.mem_unique ht hu])
      (fun h => absurd h hv.ne_nil) (fun t ht => mt beq_iff_eq.mp ht) hends hnoelse
    refine ReadsWithOne.andThen hitems (fun body => ⟨body, ?_⟩)
    exact Reads.andThen_nil (reads_expect.mpr ⟨rfl, hclose⟩) (reads_succeed.mpr ⟨rfl, rfl⟩)

end induction
end Grammar

section program
variable {pre post : List Token} {stop : Token}

lemma beforeEnd_append_of_mem (h : ∃ t ∈ pre, t.kind = .endOfInput) (more : List Token) :
    beforeEnd (pre ++ more) = beforeEnd pre := by
  obtain ⟨t, ht, hk⟩ := h
  unfold beforeEnd
  rw [List.takeWhile_append, if_neg]
  intro hlength
  have hall : beforeEnd pre = pre := (List.takeWhile_prefix _).eq_of_length hlength
  rw [← hall] at ht
  exact kind_ne_endOfInput_of_mem_beforeEnd ht hk

/-- From a program that is read without an error a semicolon can be taken away, and at most one
error is reported when what follows it neither begins a block, a conditional or a loop nor ends a
block or a branch. -/
theorem parse_without_semicolon (h : (parse (pre ++ stop :: post)).errors = [])
    (hstop : stop.kind = .symbol .semicolon)
    (hpost : ∀ t ∈ post.head?, ¬ t.kind.isStructural) :
    (parse (pre ++ post)).errors.length ≤ 1 := by
  by_cases hend : ∃ t ∈ pre, t.kind = .endOfInput
  · -- the semicolon stands behind the end of input
    have hsame : beforeEnd (pre ++ post) = beforeEnd (pre ++ stop :: post) := by
      rw [beforeEnd_append_of_mem hend, beforeEnd_append_of_mem hend]
    have hnone := List.map_eq_nil_iff.mp h
    unfold parse
    rw [List.length_map, hsame, hnone]
    exact Nat.zero_le 1
  · have hpre : ∀ t ∈ pre, t.kind ≠ .endOfInput := fun t ht hk => hend ⟨t, ht, hk⟩
    have hread := readStmts_parse h
    have hrest : beforeEnd (stop :: post) = stop :: beforeEnd post :=
      List.takeWhile_cons_of_pos (bne_iff_ne.mpr (by rw [hstop]; decide))
    have hw := hread.written
    rw [beforeEnd_append hpre, hrest] at hw
    have hv : ∀ t ∈ (beforeEnd post).head?, ¬ t.kind.isStructural := by
      intro t ht
      obtain ⟨more, hmore⟩ : beforeEnd post <+: post := List.takeWhile_prefix _
      refine hpost t ?_
      rw [← hmore, List.head?_append, ht]
      rfl
    have hs := (Grammar.losesOne_statement_blockRest (maxNesting + 1)).1
    have hone : (Parser.always (Grammar.items (fun _ => false)
        (Grammar.item (maxNesting + 1)))).ReadsWithOne (pre ++ beforeEnd post) [] :=
      Grammar.readsWithOne_items hs hread.canonical hread.nest_lt hw hstop hv (fun _ => rfl)
        (fun _ _ => Bool.false_ne_true) (fun _ ht => by cases ht) (fun ⟨_, ht, _⟩ => by cases ht)
    obtain ⟨body, cs, hitems, hcs⟩ := hone
    rw [Parser.readsWith_always, List.append_nil] at hitems
    unfold parse
    rw [List.length_map, beforeEnd_append hpre, hitems]
    exact hcs

/-- The tokens of a text, without the end of input. -/
def tokensOf (text : String) : List Token := (scan text).tokens.dropLast

/-- The tokens of a declaration in a block, up to its semicolon. -/
def nestedFront : List Token := tokensOf "while (a) \x7b if (b) \x7b var x"

/-- The tokens behind the semicolon. -/
def nestedBack : List Token := tokensOf "x = nil; \x7d else nil; \x7d"

theorem parse_without_semicolon_nested :
    (parse (nestedFront ++ semicolonToken :: nestedBack)).errors = [] ∧
      (∀ t ∈ nestedBack.head?, ¬ t.kind.isStructural) ∧
      (parse (nestedFront ++ nestedBack)).errors.map SyntaxError.fault =
        [.expectedSemicolonAfterDeclaration] ∧
      (parse (nestedFront ++ nestedBack)).errors.length ≤ 1 := by
  have h : (parse (nestedFront ++ semicolonToken :: nestedBack)).errors = [] := by decide +kernel
  have hback : ∀ t ∈ nestedBack.head?, ¬ t.kind.isStructural := by decide +kernel
  exact ⟨h, hback, by decide +kernel, parse_without_semicolon h rfl hback⟩

/-- A program in two parts, without the semicolon between them, of which the second one begins with
a structural token. -/
def structuralCut : TokenKind → List Token × List Token
  | .symbol .leftBrace => (tokensOf "nil", tokensOf "\x7b nil; \x7d")
  | .symbol .rightBrace => (tokensOf "\x7b nil", tokensOf "\x7d")
  | .keyword .kwElse => (tokensOf "if (a) if (b) nil", tokensOf "else nil; else nil;")
  | .keyword .kwIf => (tokensOf "nil", tokensOf "if (a) nil; else nil;")
  | .keyword .kwWhile => (tokensOf "nil", tokensOf "while (a) \x7b print nil; \x7d")
  | _ => ([], [])

theorem parse_without_semicolon_structural :
    (¬ ∀ pre stop post, (parse (pre ++ stop :: post)).errors = [] →
        stop.kind = .symbol .semicolon → (parse (pre ++ post)).errors.length ≤ 1) ∧
      ∀ k ∈ [TokenKind.symbol .leftBrace, .symbol .rightBrace, .keyword .kwElse, .keyword .kwIf,
          .keyword .kwWhile],
        (parse ((structuralCut k).1 ++ semicolonToken :: (structuralCut k).2)).errors = [] ∧
          (structuralCut k).2.head?.map Token.kind = some k ∧
          1 < (parse ((structuralCut k).1 ++ (structuralCut k).2)).errors.length := by
  have hcuts : ∀ k ∈ [TokenKind.symbol .leftBrace, .symbol .rightBrace, .keyword .kwElse,
      .keyword .kwIf, .keyword .kwWhile],
      (parse ((structuralCut k).1 ++ semicolonToken :: (structuralCut k).2)).errors = [] ∧
        (structuralCut k).2.head?.map Token.kind = some k ∧
        1 < (parse ((structuralCut k).1 ++ (structuralCut k).2)).errors.length := by
    decide +kernel
  refine ⟨fun hall => ?_, hcuts⟩
  obtain ⟨hclean, -, hmany⟩ := hcuts _ List.mem_cons_self
  exact Nat.not_le_of_lt hmany (hall _ _ _ hclean rfl)

end program
end Scriptlet
