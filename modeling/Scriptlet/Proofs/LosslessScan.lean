import Scriptlet.Proofs.MaximalMunch
import Scriptlet.Proofs.ScanJoin

/-!
# A scan loses nothing

The rules of the cut leave no choice at any place, so a text has one cut. What a scan reports is
read off its pieces one by one: tokens off the lexemes, errors off the text that belongs to none.
-/

namespace Scriptlet

lemma Lexeme.head_not_blank {k : TokenKind} {c : Char} {cs : List Char} (h : Lexeme k (c :: cs)) :
    c ∉ [' ', '\t', '\r', '\n'] := by
  intro hc
  have hother : ∀ x ∈ [' ', '\t', '\r', '\n'],
      (¬ IsDigit x ∧ ¬ BeginsName x ∧ x ≠ '"') ∧ Symbol.single? x = none :=
    List.forall_mem_iff_forall_getElem.mpr (by decide)
  obtain ⟨⟨hdigit, hname, hquote⟩, hnone⟩ := hother c hc
  obtain ⟨s, -, hs⟩ := h.of_other hdigit hname hquote
  obtain ⟨t, ht, -⟩ := Symbol.spelling_shape hs
  rw [hnone] at ht
  cases ht

section unique
variable {p q : Piece} {more rest : List Char}

lemma Cut.text_ne_nil (h : Cut p more) : p.text ≠ [] := by
  cases h with
  | lexeme isLexeme => exact isLexeme.ne_nil
  | _ => simp

lemma takeWhile_of_not_head {f : Char → Bool} {body : List Char} (hbody : ∀ x ∈ body, f x = true)
    (hmore : ∀ x, more.head? = some x → f x = false) : (body ++ more).takeWhile f = body := by
  cases more with
  | nil => rw [List.append_nil, List.takeWhile_eq_self_iff.mpr hbody]
  | cons x more => exact takeWhile_upTo hbody (hmore x rfl)

lemma slash_prefix (cs : List Char) : ∃ k w, Lexeme k w ∧ w <+: '/' :: cs :=
  ⟨_, _, Lexeme.symbol .slash, List.cons_prefix_cons.mpr ⟨rfl, List.nil_prefix⟩⟩

/-- Where a lexeme can be cut, nothing else can: a longer lexeme it is not, a comment is excluded,
and neither a blank nor text without a lexeme begins with one. -/
lemma Cut.eq_lexeme {k : TokenKind} {w : List Char} (h : Cut ⟨.lexeme k, w⟩ more)
    (hq : Cut q rest) (htext : w ++ more = q.text ++ rest) : q = ⟨.lexeme k, w⟩ := by
  obtain ⟨isLexeme, longest, noComment⟩ := h
  cases hq with
  | lexeme isLexeme' longest' =>
    have hle := longest' _ _ isLexeme (htext ▸ List.prefix_append _ _)
    have hge := longest _ _ isLexeme' (htext ▸ List.prefix_append _ _)
    obtain ⟨rfl, -⟩ := List.append_inj htext (Nat.le_antisymm hle hge)
    rw [isLexeme.kind_unique isLexeme']
  | blank isBlank =>
    obtain ⟨c, cs, rfl⟩ := List.exists_cons_of_ne_nil isLexeme.ne_nil
    obtain ⟨rfl, -⟩ := List.cons.inj htext
    exact absurd isBlank isLexeme.head_not_blank
  | comment =>
    rw [htext] at noComment
    exact absurd ⟨_, rfl⟩ noComment
  | unexpected _ _ noLexeme => exact absurd ⟨_, htext⟩ (noLexeme k w isLexeme)
  | unterminated _ noLexeme =>
    rw [List.append_nil] at htext
    exact absurd ⟨_, htext⟩ (noLexeme k w isLexeme)

/-- Where a character is unexpected, nothing else can be cut: a comment begins with the lexeme of
its slash. -/
lemma Cut.eq_unexpected {c : Char} (h : Cut ⟨.unexpected, [c]⟩ more) (hq : Cut q rest)
    (htext : c :: more = q.text ++ rest) : q = ⟨.unexpected, [c]⟩ := by
  have ⟨hblank, hquote, hnone⟩ : c ∉ [' ', '\t', '\r', '\n'] ∧ c ≠ '"' ∧ NoLexeme (c :: more) := by
    cases h with
    | unexpected noBlank noQuote noLexeme => exact ⟨noBlank, noQuote, noLexeme⟩
  cases hq with
  | lexeme isLexeme => exact absurd ⟨_, htext.symm⟩ (hnone _ _ isLexeme)
  | blank isBlank =>
    obtain ⟨rfl, -⟩ := List.cons.inj htext
    exact absurd isBlank hblank
  | comment =>
    obtain ⟨rfl, -⟩ := List.cons.inj htext
    obtain ⟨k, w, hw, hfront⟩ := slash_prefix more
    exact absurd hfront (hnone k w hw)
  | unexpected =>
    obtain ⟨rfl, -⟩ := List.cons.inj htext
    rfl
  | unterminated =>
    obtain ⟨rfl, -⟩ := List.cons.inj htext
    exact absurd rfl hquote

lemma Cut.eq_first {c : Char} (h : Cut p more) (hcs : c :: rest = p.text ++ more) :
    p = Piece.first c rest := by
  obtain ⟨t, ht⟩ := Piece.first_text c rest
  have hfirst := Piece.cut_first ht
  have htext := hcs.symm.trans ht
  cases h with
  | lexeme isLexeme longest noComment =>
    exact ((Cut.lexeme isLexeme longest noComment).eq_lexeme hfirst htext).symm
  | blank isBlank =>
    obtain ⟨rfl, rfl⟩ := List.cons.inj hcs
    rw [Piece.first, if_pos (isBlank_iff.mpr isBlank)]
  | @comment body _ sameLine ends =>
    obtain ⟨rfl, rfl⟩ := List.cons.inj hcs
    have hbody : ∀ x ∈ '/' :: body, (x != '\n') = true := by
      intro x hx
      rcases List.mem_cons.mp hx with rfl | hx
      · rfl
      · exact bne_iff_ne.mpr (fun hne => sameLine (hne ▸ hx))
    have htake : ('/' :: body ++ more).takeWhile (· != '\n') = '/' :: body :=
      takeWhile_of_not_head hbody (fun x hx => by simp [ends x hx])
    exact congrArg (fun w => Piece.mk .comment ('/' :: w)) htake.symm
  | unexpected noBlank noQuote noLexeme =>
    exact ((Cut.unexpected noBlank noQuote noLexeme).eq_unexpected hfirst htext).symm
  | @unterminated body unclosed =>
    rw [List.append_nil] at hcs
    obtain ⟨rfl, rfl⟩ := List.cons.inj hcs
    have hdrop : rest.dropWhile (· != '"') = [] :=
      List.dropWhile_eq_nil_iff.mpr (fun x hx => bne_iff_ne.mpr (fun hne => unclosed (hne ▸ hx)))
    change _ = Piece.quoted rest
    rw [Piece.quoted, hdrop]

theorem CutAll.eq_pieces {ps : List Piece} (h : CutAll ps) :
    ps = pieces (ps.flatMap Piece.text) := by
  induction ps with
  | nil => rw [List.flatMap_nil, pieces]
  | cons p ps ih =>
    obtain ⟨hp, hps⟩ := h
    obtain ⟨c, cs, hcs⟩ := List.exists_cons_of_ne_nil hp.text_ne_nil
    have hfirst : p = Piece.first c (cs ++ ps.flatMap Piece.text) :=
      hp.eq_first (by rw [hcs, List.cons_append])
    have hlength : p.text.length - 1 = cs.length := by
      rw [hcs, List.length_cons, Nat.add_sub_cancel]
    rw [List.flatMap_cons, hcs, List.cons_append, pieces, ← hfirst, hlength, List.drop_left,
      ← ih hps]

end unique

namespace Piece

/-- The kind and text of the token that a piece gives. -/
def word? (p : Piece) : Option (TokenKind × String) :=
  match p.kind with
  | .lexeme k => some (k, String.ofList p.text)
  | _ => none

/-- The wording of the error that a piece gives. -/
def complaint? (p : Piece) : Option String :=
  match p.kind, p.text with
  | .unexpected, c :: _ => some ("unexpected character '" ++ c.toString ++ "'.")
  | .unterminated, _ => some "unterminated string."
  | _, _ => none

lemma word?_eq (p : Piece) (line : Nat) :
    (p.token? line).map (fun t => (t.kind, t.lexeme)) = p.word? := by
  obtain ⟨kind, text⟩ := p
  cases kind <;> rfl

lemma complaint?_eq (p : Piece) (line : Nat) :
    (p.error? line).map (fun e => e.fault.message) = p.complaint? := by
  obtain ⟨kind, text⟩ := p
  cases kind <;> cases text <;> rfl

end Piece

lemma map_filterMap_withLines {β γ : Type} {f : Piece → Nat → Option β} {g : β → γ}
    {h : Piece → Option γ} (hf : ∀ p line, (f p line).map g = h p) (line : Nat) (ps : List Piece) :
    ((withLines line ps).filterMap (fun (p, line) => f p line)).map g = ps.filterMap h := by
  rw [List.map_filterMap]
  have hfst : (fun x : Piece × Nat => (f x.1 x.2).map g) = h ∘ Prod.fst := by
    funext x
    exact hf x.1 x.2
  rw [hfst, ← List.filterMap_map, map_fst_withLines]

lemma CutAll.forall_cut {ps : List Piece} (h : CutAll ps) : ∀ p ∈ ps, ∃ more, Cut p more := by
  induction ps with
  | nil => simp
  | cons p ps ih => exact List.forall_mem_cons.mpr ⟨⟨_, h.1⟩, ih h.2⟩

lemma Cut.lexeme_of_word? {p : Piece} {more : List Char} {w : TokenKind × String} (h : Cut p more)
    (hw : p.word? = some w) : Lexeme w.1 w.2.toList := by
  cases h with
  | lexeme isLexeme =>
    cases hw
    rw [String.toList_ofList]
    exact isLexeme
  | _ => cases hw

lemma Lexeme.ne_endOfInput {k : TokenKind} {w : List Char} (h : Lexeme k w) :
    k ≠ .endOfInput := by
  cases h <;> simp

/-- A source is cut into pieces by the rules in exactly one way. Its tokens are the lexemes among
the pieces in order, each of the one kind that its text has, with one end of input behind them;
its errors are the pieces that belong to no lexeme, in order. -/
theorem scan_maximalMunch (source : String) : ∃ ps : List Piece,
    (CutAll ps ∧ ps.flatMap Piece.text = source.toList ∧ ∀ p ∈ ps, p.text ≠ []) ∧
    (∀ qs, CutAll qs → qs.flatMap Piece.text = source.toList → qs = ps) ∧
    (scan source).tokens.map (fun t => (t.kind, t.lexeme)) =
      ps.filterMap Piece.word? ++ [(.endOfInput, "")] ∧
    (∀ w ∈ ps.filterMap Piece.word?, w.1 ≠ .endOfInput ∧
      ∀ k, Lexeme k w.2.toList ↔ k = w.1) ∧
    (scan source).errors.map (fun e => e.fault.message) = ps.filterMap Piece.complaint? := by
  have hcut := cutAll_pieces source.toList
  have htext := flatMap_text_pieces source.toList
  refine ⟨pieces source.toList, ⟨hcut, htext, ?_⟩, ?_, ?_, ?_, ?_⟩
  · intro p hp
    obtain ⟨more, h⟩ := hcut.forall_cut p hp
    exact h.text_ne_nil
  · intro qs hqs hsource
    rw [hqs.eq_pieces, hsource]
  · unfold scan
    rw [List.map_append, map_filterMap_withLines Piece.word?_eq]
    rfl
  · intro w hw
    obtain ⟨p, hp, hword⟩ := List.mem_filterMap.mp hw
    obtain ⟨more, h⟩ := hcut.forall_cut p hp
    have hlexeme := h.lexeme_of_word? hword
    refine ⟨hlexeme.ne_endOfInput, fun k => ⟨fun hk => hk.kind_unique hlexeme, ?_⟩⟩
    rintro rfl
    exact hlexeme
  · exact map_filterMap_withLines Piece.complaint?_eq 1 _

end Scriptlet
