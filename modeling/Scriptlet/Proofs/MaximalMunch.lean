import Mathlib.Data.List.Infix
import Mathlib.Data.List.TakeWhile
import Scriptlet.Proofs.Lexeme
import Scriptlet.Source.Piece

/-!
# Maximal munch

The rules by which a source is cut, said without a scanner: at each place stands the longest
lexeme, or a blank, or a comment, or text at which no lexeme begins. The pieces of a text keep to
them.
-/

namespace Scriptlet

/-- No word of the language is a front part of the text. -/
def NoLexeme (text : List Char) : Prop := ∀ k w, Lexeme k w → ¬ w <+: text

/-- A piece is cut by the rules when `rest` is what follows it. Two slashes begin a comment and
not a symbol, and only a quote without a second one begins an open string. -/
inductive Cut : Piece → List Char → Prop where
  | lexeme {k : TokenKind} {w rest : List Char} (isLexeme : Lexeme k w)
      (longest : ∀ l v, Lexeme l v → v <+: w ++ rest → v.length ≤ w.length)
      (noComment : ¬ ['/', '/'] <+: w ++ rest) : Cut ⟨.lexeme k, w⟩ rest
  | blank {c : Char} {rest : List Char} (isBlank : c ∈ [' ', '\t', '\r', '\n']) :
      Cut ⟨.blank, [c]⟩ rest
  | comment {body rest : List Char} (sameLine : '\n' ∉ body)
      (ends : ∀ x, rest.head? = some x → x = '\n') : Cut ⟨.comment, '/' :: '/' :: body⟩ rest
  | unexpected {c : Char} {rest : List Char} (noBlank : c ∉ [' ', '\t', '\r', '\n'])
      (noQuote : c ≠ '"') (noLexeme : NoLexeme (c :: rest)) : Cut ⟨.unexpected, [c]⟩ rest
  | unterminated {body : List Char} (unclosed : '"' ∉ body) (noLexeme : NoLexeme ('"' :: body)) :
      Cut ⟨.unterminated, '"' :: body⟩ []

/-- Each piece is cut by the rules from what it and the pieces behind it make up. -/
def CutAll : List Piece → Prop
  | [] => True
  | p :: ps => Cut p (ps.flatMap Piece.text) ∧ CutAll ps

section classes
variable {c : Char}

lemma isDigit_iff : c.isDigit = true ↔ IsDigit c := by
  simp [Char.isDigit, IsDigit, Char.le_def]

lemma isAlpha_iff : c.isAlpha = true ↔ IsLetter c := by
  have hupper : c.isUpper = true ↔ 'A' ≤ c ∧ c ≤ 'Z' := decide_eq_true_iff
  have hlower : c.isLower = true ↔ 'a' ≤ c ∧ c ≤ 'z' :=
    Bool.and_eq_true_iff.trans (and_congr decide_eq_true_iff decide_eq_true_iff)
  have halpha : c.isAlpha = true ↔ c.isUpper = true ∨ c.isLower = true := Bool.or_eq_true_iff
  rw [halpha, hupper, hlower, or_comm, IsLetter]

lemma startsWord_iff : startsWord c = true ↔ BeginsName c := by
  simp [startsWord, isAlpha_iff, BeginsName]

lemma continuesWord_iff : continuesWord c = true ↔ InName c := by
  simp [continuesWord, Char.isAlphanum, isAlpha_iff, isDigit_iff, InName, or_assoc]

lemma isBlank_iff : isBlank c = true ↔ c ∈ [' ', '\t', '\r', '\n'] := by
  simp [isBlank, or_assoc]

end classes

section fronts
variable {p : Char → Bool} {w l more : List Char} {c : Char}

lemma length_le_takeWhile (hw : ∀ x ∈ w, p x = true) (h : w <+: l) :
    w.length ≤ (l.takeWhile p).length := by
  obtain ⟨t, rfl⟩ := h
  rw [List.takeWhile_append_of_pos hw, List.length_append]
  omega

lemma takeWhile_upTo (hw : ∀ x ∈ w, p x = true) (hc : p c = false) :
    (w ++ c :: more).takeWhile p = w := by
  rw [List.takeWhile_append_of_pos hw, List.takeWhile_cons, hc]
  simp

lemma dropWhile_upTo (hw : ∀ x ∈ w, p x = true) (hc : p c = false) :
    (w ++ c :: more).dropWhile p = c :: more := by
  rw [List.dropWhile_append_of_pos hw, List.dropWhile_cons, hc]
  simp

end fronts

section symbols
variable {c : Char} {s t : Symbol}

lemma Symbol.spelling_of_single? (h : single? c = some s) : s.spelling.toList = [c] := by
  unfold single? at h
  split at h <;> cases h <;> rfl

lemma Symbol.spelling_of_withEqual? (h : s.withEqual? = some t) :
    t.spelling.toList = s.spelling.toList ++ ['='] := by
  cases s <;> cases h <;> rfl

lemma Symbol.spelling_shape {cs : List Char} (h : t.spelling.toList = c :: cs) :
    ∃ s, single? c = some s ∧ (cs = [] ∧ s = t ∨ cs = ['='] ∧ s.withEqual? = some t) := by
  cases t <;> cases h <;> exact ⟨_, rfl, by decide⟩

end symbols

namespace Piece
variable {c : Char} {rest more : List Char}

lemma cut_lexeme {k : TokenKind} {w : List Char} (h : c :: rest = w ++ more) (hw : Lexeme k w)
    (longest : ∀ l vs, Lexeme l (c :: vs) → vs <+: rest → vs.length < w.length)
    (hslash : c = '/' → rest.head? ≠ some '/') : Cut ⟨.lexeme k, w⟩ more := by
  refine Cut.lexeme hw ?_ ?_
  · intro l v hl hv
    obtain ⟨x, vs, rfl⟩ := List.exists_cons_of_ne_nil hl.ne_nil
    rw [← h, List.cons_prefix_cons] at hv
    obtain ⟨rfl, hvs⟩ := hv
    have hlt := longest l vs hl hvs
    rw [List.length_cons]
    omega
  · intro hcomment
    rw [← h, List.cons_prefix_cons] at hcomment
    obtain ⟨hc, t, rfl⟩ := hcomment
    exact hslash hc.symm rfl

lemma decimal_front {ds fs : List Char} {f : Char} (hds : ∀ x ∈ c :: ds, IsDigit x)
    (h : ds ++ '.' :: f :: fs <+: rest) : rest.takeWhile Char.isDigit = ds ∧
      ∃ t, rest.dropWhile Char.isDigit = '.' :: f :: (fs ++ t) := by
  obtain ⟨t, rfl⟩ := h
  have hdigits : ∀ x ∈ ds, x.isDigit = true :=
    fun x hx => isDigit_iff.mpr (hds x (List.mem_cons_of_mem c hx))
  have hpoint : Char.isDigit '.' = false := rfl
  rw [List.append_assoc, List.cons_append, List.cons_append, takeWhile_upTo hdigits hpoint,
    dropWhile_upTo hdigits hpoint]
  exact ⟨rfl, t, rfl⟩

lemma digits_takeWhile (hc : IsDigit c) (l : List Char) :
    ∀ x ∈ c :: l.takeWhile Char.isDigit, IsDigit x := by
  intro x hx
  rcases List.mem_cons.mp hx with rfl | hx
  · exact hc
  · exact isDigit_iff.mp (List.mem_takeWhile_imp hx)

lemma length_le_digits {vs : List Char} (hvs : ∀ x ∈ c :: vs, IsDigit x) (h : vs <+: rest) :
    vs.length ≤ (rest.takeWhile Char.isDigit).length :=
  length_le_takeWhile (fun x hx => isDigit_iff.mpr (hvs x (List.mem_cons_of_mem c hx))) h

lemma no_comment_of_digit (hc : IsDigit c) : c = '/' → rest.head? ≠ some '/' := by
  rintro rfl
  exact absurd hc (by decide)

lemma cut_whole (hc : IsDigit c)
    (hno : ∀ d t, rest.dropWhile Char.isDigit = '.' :: d :: t → ¬ d.isDigit)
    (h : c :: rest = c :: rest.takeWhile Char.isDigit ++ more) :
    Cut ⟨.lexeme .number, c :: rest.takeWhile Char.isDigit⟩ more := by
  refine cut_lexeme h (Lexeme.whole (digits_takeWhile hc rest)) ?_ (no_comment_of_digit hc)
  intro l vs hl hvs
  rcases (hl.of_digit hc).2 with hall | ⟨ds, f, fs, rfl, hds, hfs⟩
  · have hle := length_le_digits hall hvs
    rw [List.length_cons]
    omega
  · obtain ⟨-, t, htail⟩ := decimal_front hds hvs
    exact absurd (isDigit_iff.mpr (hfs f List.mem_cons_self)) (hno f _ htail)

lemma cut_decimal {d : Char} {tail : List Char} (hc : IsDigit c) (hd : IsDigit d)
    (hdrop : rest.dropWhile Char.isDigit = '.' :: d :: tail)
    (h : c :: rest =
      c :: rest.takeWhile Char.isDigit ++ '.' :: d :: tail.takeWhile Char.isDigit ++ more) :
    Cut ⟨.lexeme .number,
      c :: rest.takeWhile Char.isDigit ++ '.' :: d :: tail.takeWhile Char.isDigit⟩ more := by
  have hlexeme := Lexeme.decimal (digits_takeWhile hc rest) (digits_takeWhile hd tail)
  refine cut_lexeme h hlexeme ?_ (no_comment_of_digit hc)
  intro l vs hl hvs
  rcases (hl.of_digit hc).2 with hall | ⟨ds, f, fs, rfl, hds, hfs⟩
  · have hle := length_le_digits hall hvs
    simp only [List.length_append, List.length_cons]
    omega
  · obtain ⟨htake, t, htail⟩ := decimal_front hds hvs
    rw [hdrop] at htail
    obtain ⟨rfl, rfl⟩ := List.cons.inj (List.cons.inj htail).2
    have hle := length_le_digits hfs (List.prefix_append fs t)
    rw [← htake]
    simp only [List.length_append, List.length_cons]
    omega

lemma cut_number (hc : IsDigit c) (h : c :: rest = (number c rest).text ++ more) :
    Cut (number c rest) more := by
  generalize hp : number c rest = p at h ⊢
  unfold number at hp
  dsimp only at hp
  split at hp
  · rename_i d tail hdrop
    split at hp
    · rename_i hd
      subst hp
      exact cut_decimal hc (isDigit_iff.mp hd) hdrop h
    · rename_i hd
      subst hp
      refine cut_whole hc (fun x t hx => ?_) h
      rw [hdrop] at hx
      obtain ⟨rfl, -⟩ := List.cons.inj (List.cons.inj hx).2
      exact hd
  · rename_i hdrop
    subst hp
    exact cut_whole hc (fun x t hx => absurd hx (hdrop x t)) h

lemma cut_word (hc : BeginsName c) (h : c :: rest = (word c rest).text ++ more) :
    Cut (word c rest) more := by
  have hin : ∀ x ∈ rest.takeWhile continuesWord, InName x :=
    fun x hx => continuesWord_iff.mp (List.mem_takeWhile_imp hx)
  have hlexeme : Lexeme (.ofWord (String.ofList (c :: rest.takeWhile continuesWord)))
      (c :: rest.takeWhile continuesWord) := by
    unfold TokenKind.ofWord
    split
    · rename_i k hk
      have hspelling := congrArg String.toList (Keyword.spelling_of_ofSpelling? hk)
      rw [String.toList_ofList] at hspelling
      rw [← hspelling]
      exact Lexeme.keyword k
    · rename_i hk
      refine Lexeme.identifier hc hin (fun k hspelling => ?_)
      rw [← hspelling, String.ofList_toList, Keyword.ofSpelling?_spelling] at hk
      cases hk
  refine cut_lexeme h hlexeme ?_ ?_
  · intro l vs hl hvs
    have hname : ∀ x ∈ vs, continuesWord x = true :=
      fun x hx => continuesWord_iff.mpr ((hl.of_name hc).1 x hx)
    have hle := length_le_takeWhile hname hvs
    rw [List.length_cons]
    omega
  · rintro rfl
    exact absurd hc (by decide)

lemma cut_quoted (h : '"' :: rest = (quoted rest).text ++ more) : Cut (quoted rest) more := by
  have hsplit := List.takeWhile_append_dropWhile (p := (· != '"')) (l := rest)
  have hbody : '"' ∉ rest.takeWhile (· != '"') := fun hmem => by
    have := List.mem_takeWhile_imp hmem
    simp at this
  generalize hp : quoted rest = p at h ⊢
  unfold quoted at hp
  split at hp
  · rename_i hdrop
    subst hp
    have hmore : more = [] := by simpa using h
    rw [hdrop, List.append_nil] at hsplit
    rw [hsplit] at hbody
    subst hmore
    refine Cut.unterminated hbody (fun k w hw hfront => ?_)
    obtain ⟨x, xs, rfl⟩ := List.exists_cons_of_ne_nil hw.ne_nil
    rw [List.cons_prefix_cons] at hfront
    obtain ⟨rfl, hxs⟩ := hfront
    obtain ⟨-, body, rfl, -⟩ := hw.of_quote
    exact hbody (hxs.subset (by simp))
  · subst hp
    refine cut_lexeme h (Lexeme.string hbody) ?_ (by simp)
    intro l vs hl hvs
    obtain ⟨-, body, rfl, hclosed⟩ := hl.of_quote
    have hne : ∀ x ∈ body, (x != '"') = true :=
      fun x hx => bne_iff_ne.mpr (fun hquote => hclosed (hquote ▸ hx))
    have hle := length_le_takeWhile hne ((List.prefix_append body ['"']).trans hvs)
    simp only [List.length_cons, List.length_append, List.length_nil]
    omega

lemma cut_symbol (hblank : c ∉ [' ', '\t', '\r', '\n'])
    (hslash : c = '/' → rest.head? ≠ some '/') (hquote : c ≠ '"') (hdigit : ¬ IsDigit c)
    (hname : ¬ BeginsName c) (h : c :: rest = (symbol c rest).text ++ more) :
    Cut (symbol c rest) more := by
  have hsymbol {l : TokenKind} {vs : List Char} (hl : Lexeme l (c :: vs)) :
      ∃ t : Symbol, t.spelling.toList = c :: vs := by
    obtain ⟨t, -, ht⟩ := hl.of_other hdigit hname hquote
    exact ⟨t, ht⟩
  generalize hp : symbol c rest = p at h ⊢
  unfold symbol at hp
  split at hp
  · rename_i hnone
    subst hp
    obtain rfl : rest = more := by simpa using h
    refine Cut.unexpected hblank hquote (fun k w hw hfront => ?_)
    obtain ⟨x, vs, rfl⟩ := List.exists_cons_of_ne_nil hw.ne_nil
    rw [List.cons_prefix_cons] at hfront
    obtain ⟨rfl, -⟩ := hfront
    obtain ⟨t, ht⟩ := hsymbol hw
    obtain ⟨s, hs, -⟩ := Symbol.spelling_shape ht
    rw [hnone] at hs
    cases hs
  · rename_i s hs
    have hspelling := Symbol.spelling_of_single? hs
    split at hp
    · rename_i t tail ht
      subst hp
      have hlexeme : Lexeme (.symbol t) [c, '='] := by
        have hsym := Lexeme.symbol t
        rwa [Symbol.spelling_of_withEqual? ht, hspelling] at hsym
      refine cut_lexeme h hlexeme ?_ hslash
      intro l vs hl hvs
      obtain ⟨u, hu⟩ := hsymbol hl
      obtain ⟨s', -, ⟨rfl, -⟩ | ⟨rfl, -⟩⟩ := Symbol.spelling_shape hu <;> simp
    · rename_i hno
      subst hp
      have hlexeme : Lexeme (.symbol s) [c] := hspelling ▸ Lexeme.symbol s
      refine cut_lexeme h hlexeme ?_ hslash
      intro l vs hl hvs
      obtain ⟨u, hu⟩ := hsymbol hl
      obtain ⟨s', hs', ⟨rfl, -⟩ | ⟨rfl, hwith⟩⟩ := Symbol.spelling_shape hu
      · simp
      · -- the longer symbol would have been taken
        obtain ⟨tail, rfl⟩ := hvs
        obtain rfl : s = s' := Option.some.inj (hs.symm.trans hs')
        exact absurd rfl (hno u tail hwith)

lemma cut_comment (hhead : rest.head? = some '/')
    (h : '/' :: rest = '/' :: rest.takeWhile (· != '\n') ++ more) :
    Cut ⟨.comment, '/' :: rest.takeWhile (· != '\n')⟩ more := by
  obtain ⟨tail, rfl⟩ := List.head?_eq_some_iff.mp hhead
  have htake : ('/' :: tail).takeWhile (· != '\n') = '/' :: tail.takeWhile (· != '\n') := rfl
  have hmore : more = tail.dropWhile (· != '\n') := by
    have hsplit := List.takeWhile_append_dropWhile (p := (· != '\n')) (l := tail)
    rw [htake, List.cons_append, List.cons_append] at h
    have htail := (List.cons.inj (List.cons.inj h).2).2
    exact (List.append_cancel_left (hsplit.trans htail)).symm
  rw [htake]
  refine Cut.comment (fun hmem => ?_) (fun x hx => ?_)
  · have hne := List.mem_takeWhile_imp hmem
    simp at hne
  · have hnot := List.head?_dropWhile_not (· != '\n') tail
    rw [← hmore, hx] at hnot
    simpa using hnot

theorem cut_first (h : c :: rest = (first c rest).text ++ more) : Cut (first c rest) more := by
  unfold first at h ⊢
  by_cases hblank : isBlank c
  · rw [if_pos hblank]
    exact Cut.blank (isBlank_iff.mp hblank)
  rw [if_neg hblank] at h ⊢
  by_cases hcomment : (c == '/' && rest.head? == some '/')
  · rw [if_pos hcomment] at h ⊢
    obtain ⟨hc, hhead⟩ := (Bool.and_eq_true _ _).mp hcomment
    obtain rfl := eq_of_beq hc
    exact cut_comment (eq_of_beq hhead) h
  rw [if_neg hcomment] at h ⊢
  have hslash : c = '/' → rest.head? ≠ some '/' := by
    intro hc hhead
    rw [hc, hhead] at hcomment
    exact hcomment rfl
  by_cases hquote : c == '"'
  · rw [if_pos hquote] at h ⊢
    obtain rfl := eq_of_beq hquote
    exact cut_quoted h
  rw [if_neg hquote] at h ⊢
  by_cases hdigit : c.isDigit
  · rw [if_pos hdigit] at h ⊢
    exact cut_number (isDigit_iff.mp hdigit) h
  rw [if_neg hdigit] at h ⊢
  by_cases hname : startsWord c
  · rw [if_pos hname] at h ⊢
    exact cut_word (startsWord_iff.mp hname) h
  · rw [if_neg hname] at h ⊢
    exact cut_symbol (mt isBlank_iff.mpr hblank) hslash (fun hc => hquote (beq_iff_eq.mpr hc))
      (mt isDigit_iff.mpr hdigit) (mt startsWord_iff.mpr hname) h

end Piece

theorem cutAll_pieces (cs : List Char) : CutAll (pieces cs) := by
  fun_induction pieces cs with
  | case1 => trivial
  | case2 c rest ih =>
    refine ⟨Piece.cut_first ?_, ih⟩
    have hall := flatMap_text_pieces (c :: rest)
    rw [pieces, List.flatMap_cons] at hall
    exact hall.symm

example : (pieces "12.>==//".toList).map Piece.text =
    [['1', '2'], ['.'], ['>', '='], ['='], ['/', '/']] := by decide +kernel

end Scriptlet
