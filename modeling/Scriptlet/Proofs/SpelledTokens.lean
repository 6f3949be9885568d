import Scriptlet.Proofs.DistinctNumbers
import Scriptlet.Proofs.NumberLiterals
import Scriptlet.Proofs.PrefixForm
import Scriptlet.Proofs.WordLayout

/-!
# Tokens by their texts

A scanned token is determined by its text, but for its line. A value that is no string is determined
by the text that shows it, and so is whether that text stands for a value or for a name.
-/

namespace Scriptlet

/-- The token of no line in particular. -/
def Token.withoutLine (t : Token) : Token := { t with line := 0 }

lemma Lexeme.eq_symbol {s : Symbol} {w : List Char} (h : Lexeme (.symbol s) w) :
    w = s.spelling.toList := by
  cases h
  rfl

lemma Lexeme.eq_keyword {k : Keyword} {w : List Char} (h : Lexeme (.keyword k) w) :
    w = k.spelling.toList := by
  cases h
  rfl

/-- The text of a scanned token is a lexeme of its kind, and its literal is what the text
denotes. -/
structure Token.Spelled (t : Token) : Prop where
  lexeme : Lexeme t.kind t.lexeme.toList
  literal : t.literal = Piece.literal? t.kind t.lexeme.toList

lemma spelled_of_mem_scan {source : String} {t : Token} (h : t ∈ beforeEnd (scan source).tokens) :
    t.Spelled := by
  rw [beforeEnd_scan] at h
  obtain ⟨⟨p, line⟩, hmem, htoken⟩ := List.mem_filterMap.mp h
  have hp : p ∈ pieces source.toList := by
    rw [← map_fst_withLines 1 (pieces source.toList)]
    exact List.mem_map_of_mem hmem
  obtain ⟨more, hcut⟩ := (cutAll_pieces source.toList).forall_cut p hp
  cases hcut with
  | lexeme isLexeme =>
    cases htoken
    exact ⟨by rwa [String.toList_ofList], by rw [String.toList_ofList]⟩
  | _ => cases htoken

namespace Token
variable {t t' : Token}

lemma Spelled.withoutLine_eq (h : t.Spelled) (h' : t'.Spelled) (heq : t.lexeme = t'.lexeme) :
    t.withoutLine = t'.withoutLine := by
  have hkind : t.kind = t'.kind := h.lexeme.kind_unique (heq ▸ h'.lexeme)
  have hliteral : t.literal = t'.literal := by rw [h.literal, h'.literal, hkind, heq]
  unfold withoutLine
  rw [hkind, heq, hliteral]

lemma Spelled.lexeme_symbol (h : t.Spelled) {s : Symbol} (hk : t.kind = .symbol s) :
    t.lexeme = s.spelling :=
  String.toList_injective ((hk ▸ h.lexeme).eq_symbol)

lemma Spelled.lexeme_keyword (h : t.Spelled) {k : Keyword} (hk : t.kind = .keyword k) :
    t.lexeme = k.spelling :=
  String.toList_injective ((hk ▸ h.lexeme).eq_keyword)

end Token

section words
variable {c : Char} {k : TokenKind} {w : List Char}

lemma paren_not_inName (hc : c ∈ ['(', ')']) : ¬ InName c := by
  have hall : ∀ x ∈ ['(', ')'], ¬ InName x := List.forall_mem_iff_forall_getElem.mpr (by decide)
  exact hall c hc

lemma Lexeme.paren_not_mem (h : Lexeme k w) (hk : k ≠ .string) (hleft : k ≠ .symbol .leftParen)
    (hright : k ≠ .symbol .rightParen) (hc : c ∈ ['(', ')']) : c ∉ w := by
  have hname := paren_not_inName hc
  cases h with
  | symbol s =>
    have hall : ∀ x ∈ ['(', ')'], x ∉ s.spelling.toList := by
      cases s
      case leftParen => exact absurd rfl hleft
      case rightParen => exact absurd rfl hright
      all_goals exact List.forall_mem_iff_forall_getElem.mpr (by decide)
    exact hall c hc
  | keyword kw =>
    obtain ⟨x, xs, hkw, hx, hxs⟩ := kw.chars_spelling
    rw [hkw]
    exact fun hmem => hname ((List.forall_mem_cons.mpr ⟨hx.inName, hxs⟩) c hmem)
  | identifier begins inName =>
    exact fun hmem => hname ((List.forall_mem_cons.mpr ⟨begins.inName, inName⟩) c hmem)
  | whole digits => exact fun hmem => hname (digits c hmem).inName
  | decimal digits fraction =>
    intro hmem
    rcases List.mem_append.mp hmem with hmem | hmem
    · exact hname (digits c hmem).inName
    rcases List.mem_cons.mp hmem with rfl | hmem
    · exact absurd hc (by decide)
    · exact hname (fraction c hmem).inName
  | string => exact absurd rfl hk

lemma Lexeme.isWord (h : Lexeme k w) (hk : k ≠ .string) (hleft : k ≠ .symbol .leftParen)
    (hright : k ≠ .symbol .rightParen) : ∀ c ∈ w, c ∉ [' ', '(', ')'] := by
  intro c hmem hc
  rcases List.mem_cons.mp hc with rfl | hc
  · exact h.blank_not_mem hk (by decide) hmem
  · exact h.paren_not_mem hk hleft hright hc hmem

lemma Token.Spelled.isWord {t : Token} (h : t.Spelled) (hk : t.kind ≠ .string)
    (hleft : t.kind ≠ .symbol .leftParen) (hright : t.kind ≠ .symbol .rightParen) :
    IsWord t.lexeme := h.lexeme.isWord hk hleft hright

end words

namespace Value
variable {v v' : Value}

/-- A value that is neither a string nor a number beyond all bounds. -/
def Plain : Value → Prop
  | nil | bool _ => True
  | number x => Number.IsFinite x
  | string _ => False

lemma not_beginsName_text {x : Float} (hx : Number.IsFinite x) {c : Char} {cs : List Char}
    (h : (Number.text x).toList = c :: cs) : ¬ BeginsName c := by
  obtain ⟨negative, digits, hdigits, htext⟩ := Number.exists_text hx
  rw [htext, String.toList_ofList] at h
  cases negative with
  | true =>
    obtain ⟨rfl, -⟩ := List.cons.inj h
    decide
  | false =>
    obtain rfl : digits = c :: cs := h
    intro hname
    rcases (hdigits.of_name hname).2 with ⟨kw, hkw, -⟩ | ⟨hkind, -⟩
    · cases hkw
    · cases hkind

/-- The value that a keyword stands for as an operand. -/
def ofKeyword : Keyword → Value
  | .kwTrue => bool true
  | .kwFalse => bool false
  | _ => nil

lemma keyword_text (h : v.Plain) :
    (∃ x, v = .number x ∧ Number.IsFinite x) ∨
      ∃ k : Keyword, v = ofKeyword k ∧ v.text = k.spelling := by
  cases v with
  | nil => exact Or.inr ⟨.kwNil, rfl, rfl⟩
  | bool b =>
    cases b
    · exact Or.inr ⟨.kwFalse, rfl, rfl⟩
    · exact Or.inr ⟨.kwTrue, rfl, rfl⟩
  | number x => exact Or.inl ⟨x, rfl, h⟩
  | string s => exact absurd h id

lemma text_number_ne {x : Float} (hx : Number.IsFinite x) (k : Keyword) :
    Number.text x ≠ k.spelling := by
  intro h
  obtain ⟨c, cs, hk, hname, -⟩ := k.chars_spelling
  exact not_beginsName_text hx (h ▸ hk) hname

lemma isWord_text (h : v.Plain) : IsWord v.text := by
  rcases keyword_text h with ⟨x, rfl, hx⟩ | ⟨k, -, hk⟩
  · obtain ⟨negative, digits, hdigits, htext⟩ := Number.exists_text hx
    have hsign : ∀ c ∈ Number.Form.chars.sign negative, c ∉ [' ', '(', ')'] := by
      cases negative <;> exact List.forall_mem_iff_forall_getElem.mpr (by decide)
    have hword := hdigits.isWord TokenKind.noConfusion TokenKind.noConfusion TokenKind.noConfusion
    change IsWord (Number.text x)
    rw [htext, IsWord, String.toList_ofList]
    exact List.forall_mem_append.mpr ⟨hsign, hword⟩
  · rw [hk]
    exact (Lexeme.keyword k).isWord TokenKind.noConfusion TokenKind.noConfusion
      TokenKind.noConfusion

lemma text_injective (h : v.Plain) (h' : v'.Plain) (heq : v.text = v'.text) : v = v' := by
  rcases keyword_text h with ⟨x, rfl, hx⟩ | ⟨k, hv, hk⟩ <;>
    rcases keyword_text h' with ⟨y, rfl, hy⟩ | ⟨l, hv', hl⟩
  · rw [Number.text_injective hx hy heq]
  · exact absurd (heq.trans hl) (text_number_ne hx l)
  · exact absurd (heq.symm.trans hk) (text_number_ne hy k)
  · have hkeyword : k = l := Keyword.spelling_injective (hk.symm.trans (heq.trans hl))
    rw [hv, hv', hkeyword]

lemma text_ne_name (h : v.Plain) {name : Token} (hspelled : name.Spelled)
    (hkind : name.kind = .identifier) : v.text ≠ name.lexeme := by
  intro heq
  have hname := hspelled.lexeme
  rw [hkind, ← heq] at hname
  rcases keyword_text h with ⟨x, rfl, hx⟩ | ⟨k, -, hk⟩
  · obtain ⟨c, cs, hchars⟩ := List.exists_cons_of_ne_nil hname.ne_nil
    have hbegins : BeginsName c := by
      rw [hchars] at hname
      cases hname
      assumption
    exact not_beginsName_text hx hchars hbegins
  · rw [hk] at hname
    cases hname.kind_unique (Lexeme.keyword k)

end Value
end Scriptlet
