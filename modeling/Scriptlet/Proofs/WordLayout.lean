import Scriptlet.Proofs.LosslessScan

/-!
# Scanning undoes writing words out

Words that are set apart by blanks and comments are scanned as they were written. A blank ends every
word but a string, which ends at its own quote, so no word goes on in what sets it apart from the
next one.
-/

namespace Scriptlet

/-- The value that a lexeme stands for: a number for the double that its digits denote, a string for
the text between its quotes, and no other lexeme for any. -/
def Denotes (kind : TokenKind) (text : List Char) (value : Option Value) : Prop :=
  match kind with
  | .number => ∃ whole fraction : List Char, (∀ x ∈ whole, IsDigit x) ∧
      (text = whole ∧ fraction = [] ∨ text = whole ++ '.' :: fraction) ∧
      value = some (.number (Number.ofDigits whole fraction))
  | .string => ∃ body : List Char, text = '"' :: (body ++ ['"']) ∧
      value = some (.string (String.ofList body))
  | _ => value = none

/-- A lexeme with its kind and the value that it stands for. -/
structure Word where
  kind : TokenKind
  text : List Char
  literal : Option Value
  isLexeme : Lexeme kind text
  denotes : Denotes kind text literal

/-- Blanks, and comments up to the ends of their lines, in any order. -/
inductive Gap : List Char → Prop where
  | none : Gap []
  | blank {c : Char} {cs : List Char} (isBlank : c ∈ [' ', '\t', '\r', '\n']) (more : Gap cs) :
      Gap (c :: cs)
  | comment {body cs : List Char} (sameLine : '\n' ∉ body) (more : Gap cs) :
      Gap ('/' :: '/' :: (body ++ '\n' :: cs))

/-- What sets words apart is a gap that begins with a blank. -/
def Separator (text : List Char) : Prop :=
  ∃ c cs, text = c :: cs ∧ c ∈ [' ', '\t', '\r', '\n'] ∧ Gap cs

/-- Words in a row, each set apart from the next one. A separator may stand behind the last one. -/
inductive Layout : List Word → List Char → Prop where
  | none : Layout [] []
  | last (w : Word) : Layout [w] w.text
  | word (w : Word) {ws : List Word} {sep text : List Char} (apart : Separator sep)
      (more : Layout ws text) : Layout (w :: ws) (w.text ++ (sep ++ text))

/-- A word ends before a text that is empty or begins with a blank. -/
def EndsWord (text : List Char) : Prop := ∀ c ∈ text.head?, c ∈ [' ', '\t', '\r', '\n']

lemma Separator.endsWord {sep : List Char} (h : Separator sep) (text : List Char) :
    EndsWord (sep ++ text) := by
  obtain ⟨c, cs, rfl, hc, -⟩ := h
  intro x hx
  cases hx
  exact hc

lemma Separator.gap {sep : List Char} (h : Separator sep) : Gap sep := by
  obtain ⟨c, cs, rfl, hc, hcs⟩ := h
  exact Gap.blank hc hcs

section blanks
variable {c : Char} {k : TokenKind} {w rest : List Char}

lemma blank_not_inName (hc : c ∈ [' ', '\t', '\r', '\n']) : ¬ InName c := by
  have hall : ∀ x ∈ [' ', '\t', '\r', '\n'], ¬ InName x :=
    List.forall_mem_iff_forall_getElem.mpr (by decide)
  exact hall c hc

lemma Symbol.blank_not_mem (s : Symbol) (hc : c ∈ [' ', '\t', '\r', '\n']) :
    c ∉ s.spelling.toList := by
  have hall : ∀ x ∈ [' ', '\t', '\r', '\n'], x ∉ s.spelling.toList := by
    cases s <;> exact List.forall_mem_iff_forall_getElem.mpr (by decide)
  exact hall c hc

lemma Lexeme.blank_not_mem (h : Lexeme k w) (hk : k ≠ .string)
    (hc : c ∈ [' ', '\t', '\r', '\n']) : c ∉ w := by
  have hname := blank_not_inName hc
  have hdigit : ¬ IsDigit c := fun hd => hname hd.inName
  cases h with
  | symbol s => exact s.blank_not_mem hc
  | keyword kw =>
    obtain ⟨x, xs, hkw, hx, hxs⟩ := kw.chars_spelling
    rw [hkw, List.mem_cons]
    rintro (rfl | hmem)
    · exact hname hx.inName
    · exact hname (hxs c hmem)
  | identifier begins inName =>
    rw [List.mem_cons]
    rintro (rfl | hmem)
    · exact hname begins.inName
    · exact hname (inName c hmem)
  | whole digits => exact fun hmem => hdigit (digits c hmem)
  | decimal digits fraction =>
    intro hmem
    rcases List.mem_append.mp hmem with hmem | hmem
    · exact hdigit (digits c hmem)
    rcases List.mem_cons.mp hmem with rfl | hmem
    · exact absurd hc (by decide)
    · exact hdigit (fraction c hmem)
  | string => exact absurd rfl hk

lemma Lexeme.eq_of_string_prefix {v : List Char} (h : Lexeme .string v) (hw : Lexeme k w)
    (hstart : w <+: v) : v = w := by
  obtain ⟨c, cs, rfl⟩ := List.exists_cons_of_ne_nil hw.ne_nil
  obtain ⟨t, rfl⟩ := hstart
  rw [List.cons_append] at h
  have hquote : c = '"' := by
    rcases h.sorts with ⟨-, hk, -⟩ | ⟨-, -, ⟨kw, hk, -⟩ | ⟨hk, -⟩⟩ | ⟨hc, -⟩ | ⟨-, s, hk, -⟩
    · cases hk
    · cases hk
    · cases hk
    · exact hc
    · cases hk
  subst hquote
  obtain ⟨-, inner, rfl, -⟩ := hw.of_quote
  obtain ⟨-, body, hbody, hclosed⟩ := h.of_quote
  rcases List.eq_nil_or_concat t with rfl | ⟨front, x, rfl⟩
  · rw [List.append_nil]
  · rw [List.concat_eq_append, ← List.append_assoc] at hbody
    have hmem : '"' ∈ body := by
      rw [← (List.append_inj' hbody rfl).1]
      simp
    exact absurd hmem hclosed

lemma Lexeme.cut (h : Lexeme k w) (hrest : EndsWord rest) : Cut ⟨.lexeme k, w⟩ rest := by
  have hlonger {v : List Char} (hv : v <+: w ++ rest) (hlen : w.length < v.length) :
      w <+: v ∧ ∃ c ∈ v, c ∈ [' ', '\t', '\r', '\n'] := by
    have hw : w <+: v := List.prefix_of_prefix_length_le (List.prefix_append w rest) hv hlen.le
    obtain ⟨t, rfl⟩ := hw
    obtain ⟨c, cs, rfl⟩ : ∃ c cs, t = c :: cs := by
      refine List.exists_cons_of_ne_nil ?_
      rintro rfl
      rw [List.append_nil] at hlen
      exact hlen.false
    obtain ⟨u, hu⟩ := (List.prefix_append_right_inj w).mp hv
    exact ⟨List.prefix_append w _, c, by simp, hrest c (by rw [← hu]; rfl)⟩
  refine Cut.lexeme h (fun l v hl hv => ?_) ?_
  · by_contra hlen
    obtain ⟨hw, c, hmem, hc⟩ := hlonger hv (Nat.lt_of_not_le hlen)
    by_cases hstring : l = .string
    · subst hstring
      rw [hl.eq_of_string_prefix h hw] at hlen
      exact hlen (Nat.le_refl _)
    · exact hl.blank_not_mem hstring hc hmem
  · intro hcomment
    obtain ⟨c, cs, rfl⟩ := List.exists_cons_of_ne_nil h.ne_nil
    rw [List.cons_append, List.cons_prefix_cons] at hcomment
    obtain ⟨rfl, t, ht⟩ := hcomment
    obtain ⟨s, -, hs⟩ := h.of_other (by decide) (by decide) (by decide)
    obtain ⟨s', -, ⟨rfl, -⟩ | ⟨rfl, -⟩⟩ := Symbol.spelling_shape hs
    · -- the second slash would have to be a blank
      rw [List.nil_append] at ht
      exact absurd (hrest '/' (by rw [← ht]; rfl)) (by decide)
    · cases ht

end blanks

namespace Piece

/-- The kind, text and literal of the token that a piece gives. -/
def reading? (p : Piece) : Option (TokenKind × String × Option Value) :=
  match p.kind with
  | .lexeme k => some (k, String.ofList p.text, literal? k p.text)
  | _ => none

lemma reading?_eq (p : Piece) (line : Nat) :
    (p.token? line).map (fun t => (t.kind, t.lexeme, t.literal)) = p.reading? := by
  obtain ⟨kind, text⟩ := p
  cases kind <;> rfl

end Piece

lemma Denotes.literal?_eq {k : TokenKind} {w : List Char} {v : Option Value}
    (h : Denotes k w v) : Piece.literal? k w = v := by
  cases k with
  | number =>
    obtain ⟨ds, fs, hdigits, hw, rfl⟩ := h
    have hds : ∀ x ∈ ds, x.isDigit = true := fun x hx => isDigit_iff.mpr (hdigits x hx)
    have hpoint : Char.isDigit '.' = false := rfl
    rw [Piece.literal?, Piece.numberValue]
    rcases hw with ⟨rfl, rfl⟩ | rfl
    · rw [List.takeWhile_eq_self_iff.mpr hds, List.dropWhile_eq_nil_iff.mpr hds, List.drop_nil]
    · rw [takeWhile_upTo hds hpoint, dropWhile_upTo hds hpoint, List.drop_one, List.tail_cons]
  | string =>
    obtain ⟨body, rfl, rfl⟩ := h
    rw [Piece.literal?, List.drop_one, List.tail_cons, List.dropLast_concat]
  | _ => exact h.symm

/-- Pieces that give neither tokens nor errors. -/
def Piece.Silent (p : Piece) : Prop := p.kind = .blank ∨ p.kind = .comment

section cuts
variable {ps : List Piece}

lemma filterMap_silent {qs : List Piece} (h : ∀ q ∈ qs, q.Silent) :
    qs.filterMap Piece.reading? = [] ∧ qs.filterMap Piece.complaint? = [] := by
  constructor <;>
  · rw [List.filterMap_eq_nil_iff]
    intro q hq
    obtain ⟨kind, text⟩ := q
    rcases h _ hq with hk | hk <;>
    · cases hk
      rfl

lemma Gap.exists_cut {text : List Char} (h : Gap text) (hps : CutAll ps) :
    ∃ qs, CutAll (qs ++ ps) ∧ qs.flatMap Piece.text = text ∧ ∀ q ∈ qs, q.Silent := by
  induction h with
  | none => exact ⟨[], hps, rfl, fun q hq => by cases hq⟩
  | @blank c cs isBlank _ ih =>
    obtain ⟨qs, hcut, htext, hsilent⟩ := ih
    refine ⟨⟨.blank, [c]⟩ :: qs, ⟨Cut.blank isBlank, hcut⟩, ?_, ?_⟩
    · rw [List.flatMap_cons, htext]
      rfl
    · exact List.forall_mem_cons.mpr ⟨Or.inl rfl, hsilent⟩
  | @comment body cs sameLine _ ih =>
    obtain ⟨qs, hcut, htext, hsilent⟩ := ih
    have hcomment : Cut ⟨.comment, '/' :: '/' :: body⟩
        ((⟨.blank, ['\n']⟩ :: (qs ++ ps) : List Piece).flatMap Piece.text) :=
      Cut.comment sameLine (fun x hx => by cases hx; rfl)
    refine ⟨⟨.comment, '/' :: '/' :: body⟩ :: ⟨.blank, ['\n']⟩ :: qs,
      ⟨hcomment, Cut.blank (by decide), hcut⟩, ?_, ?_⟩
    · rw [List.flatMap_cons, List.flatMap_cons, htext]
      rfl
    · exact List.forall_mem_cons.mpr
        ⟨Or.inr rfl, List.forall_mem_cons.mpr ⟨Or.inl rfl, hsilent⟩⟩

end cuts

/-- What a row of words reads as. -/
def Word.reading (w : Word) : TokenKind × String × Option Value :=
  (w.kind, String.ofList w.text, w.literal)

lemma Word.reading?_piece (w : Word) :
    Piece.reading? ⟨.lexeme w.kind, w.text⟩ = some w.reading := by
  change some (w.kind, String.ofList w.text, Piece.literal? w.kind w.text) = some w.reading
  rw [w.denotes.literal?_eq]
  rfl

lemma Layout.exists_cut {ws : List Word} {text : List Char} (h : Layout ws text) :
    ∃ ps, CutAll ps ∧ ps.flatMap Piece.text = text ∧
      ps.filterMap Piece.reading? = ws.map Word.reading ∧ ps.filterMap Piece.complaint? = [] := by
  induction h with
  | none => exact ⟨[], trivial, rfl, rfl, rfl⟩
  | last w =>
    have hcut : Cut ⟨.lexeme w.kind, w.text⟩ [] := w.isLexeme.cut (fun c hc => by cases hc)
    refine ⟨[⟨.lexeme w.kind, w.text⟩], ⟨hcut, trivial⟩, ?_, ?_, rfl⟩
    · rw [List.flatMap_singleton]
    · rw [List.filterMap_cons, w.reading?_piece]
      rfl
  | @word w ws sep text apart _ ih =>
    obtain ⟨ps, hps, htext, hreading, hcomplaint⟩ := ih
    obtain ⟨qs, hqs, hsep, hsilent⟩ := apart.gap.exists_cut hps
    have hrest : (qs ++ ps).flatMap Piece.text = sep ++ text := by
      rw [List.flatMap_append, hsep, htext]
    have hcut := w.isLexeme.cut (apart.endsWord text)
    rw [← hrest] at hcut
    refine ⟨⟨.lexeme w.kind, w.text⟩ :: (qs ++ ps), ⟨hcut, hqs⟩, ?_, ?_, ?_⟩
    · rw [List.flatMap_cons, hrest]
    · rw [List.filterMap_cons, w.reading?_piece, List.filterMap_append,
        (filterMap_silent hsilent).1, hreading]
      rfl
    · rw [List.filterMap_cons, List.filterMap_append, (filterMap_silent hsilent).2, hcomplaint]
      rfl

/-- Words that are written out, each set apart from the next one, are scanned without an error into
exactly these words, each with its kind and the value that it stands for, and the end of input. -/
theorem scan_layout {lead text : List Char} {ws : List Word} (hlead : Gap lead)
    (h : Layout ws text) :
    (scan (String.ofList (lead ++ text))).errors = [] ∧
      (scan (String.ofList (lead ++ text))).tokens.map (fun t => (t.kind, t.lexeme, t.literal)) =
        ws.map (fun w => (w.kind, String.ofList w.text, w.literal)) ++ [(.endOfInput, "", none)] := by
  obtain ⟨ps, hps, htext, hreading, hcomplaint⟩ := h.exists_cut
  obtain ⟨qs, hcut, hgap, hsilent⟩ := hlead.exists_cut hps
  have hpieces : pieces (String.ofList (lead ++ text)).toList = qs ++ ps := by
    rw [String.toList_ofList, ← htext, ← hgap, ← List.flatMap_append, ← hcut.eq_pieces]
  unfold scan
  rw [hpieces]
  constructor
  · rw [← List.map_eq_nil_iff, map_filterMap_withLines Piece.complaint?_eq,
      List.filterMap_append, (filterMap_silent hsilent).2, hcomplaint, List.append_nil]
  · rw [List.map_append, map_filterMap_withLines Piece.reading?_eq, List.filterMap_append,
      (filterMap_silent hsilent).1, hreading, List.nil_append]
    rfl

def slashWord : Word := ⟨.symbol .slash, ['/'], none, Lexeme.symbol .slash, rfl⟩

/-- A string that holds two slashes and goes over the end of its line. -/
def slashesWord : Word where
  kind := .string
  text := ['"', '/', '/', '\n', '"']
  literal := some (.string (String.ofList ['/', '/', '\n']))
  isLexeme := @Lexeme.string ['/', '/', '\n'] (by decide)
  denotes := ⟨['/', '/', '\n'], rfl, rfl⟩

theorem scan_layout_slashes :
    Gap ['/', '/', '"', '\n'] ∧
      Layout [slashWord, slashesWord, slashWord]
        ['/', '\t', '/', '/', '"', '\n', '"', '/', '/', '\n', '"', '\r', '/'] ∧
      (scan "//\"\n/\t//\"\n\"//\n\"\r/").errors = [] ∧
      (scan "//\"\n/\t//\"\n\"//\n\"\r/").tokens.map (fun t => (t.kind, t.lexeme, t.literal)) =
        [(.symbol .slash, "/", none), (.string, "\"//\n\"", some (.string "//\n")),
          (.symbol .slash, "/", none), (.endOfInput, "", none)] := by
  have hcomment : Gap ['/', '/', '"', '\n'] := @Gap.comment ['"'] [] (by decide) .none
  have htext : Layout [slashWord, slashesWord, slashWord]
      ['/', '\t', '/', '/', '"', '\n', '"', '/', '/', '\n', '"', '\r', '/'] :=
    Layout.word slashWord ⟨'\t', _, rfl, by decide, hcomment⟩
      (Layout.word slashesWord ⟨'\r', [], rfl, by decide, .none⟩ (Layout.last slashWord))
  have hsource : String.ofList (['/', '/', '"', '\n'] ++
      ['/', '\t', '/', '/', '"', '\n', '"', '/', '/', '\n', '"', '\r', '/']) =
        "//\"\n/\t//\"\n\"//\n\"\r/" := rfl
  obtain ⟨herrors, htokens⟩ := scan_layout hcomment htext
  rw [hsource] at herrors htokens
  exact ⟨hcomment, htext, herrors, htokens⟩

end Scriptlet
