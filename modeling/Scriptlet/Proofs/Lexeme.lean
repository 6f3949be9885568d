import Mathlib.Tactic.Lemma
import Mathlib.Tactic.Tauto
import Scriptlet.Token

/-!
# Lexemes

The words of the language, said without a scanner: symbols, keywords, identifiers, numbers and
strings. The first character of a lexeme tells which sort of word it is, and its text tells the
kind of its token.
-/

namespace Scriptlet

def IsDigit (c : Char) : Prop := '0' ≤ c ∧ c ≤ '9'

def IsLetter (c : Char) : Prop := ('a' ≤ c ∧ c ≤ 'z') ∨ ('A' ≤ c ∧ c ≤ 'Z')

def BeginsName (c : Char) : Prop := IsLetter c ∨ c = '_'

def InName (c : Char) : Prop := IsLetter c ∨ IsDigit c ∨ c = '_'

instance : DecidablePred IsDigit := fun _ => inferInstanceAs (Decidable (_ ∧ _))

instance : DecidablePred IsLetter := fun _ => inferInstanceAs (Decidable (_ ∨ _))

instance : DecidablePred BeginsName := fun _ => inferInstanceAs (Decidable (_ ∨ _))

instance : DecidablePred InName := fun _ => inferInstanceAs (Decidable (_ ∨ _ ∨ _))

/-- A text that is one word of the language, with the kind of the word. An identifier is a name
that is no keyword, a number has digits on both sides of its point, and a string has no quote
inside. -/
inductive Lexeme : TokenKind → List Char → Prop where
  | symbol (s : Symbol) : Lexeme (.symbol s) s.spelling.toList
  | keyword (k : Keyword) : Lexeme (.keyword k) k.spelling.toList
  | identifier {c : Char} {cs : List Char} (begins : BeginsName c) (inName : ∀ x ∈ cs, InName x)
      (free : ∀ k : Keyword, k.spelling.toList ≠ c :: cs) : Lexeme .identifier (c :: cs)
  | whole {d : Char} {ds : List Char} (digits : ∀ x ∈ d :: ds, IsDigit x) :
      Lexeme .number (d :: ds)
  | decimal {d f : Char} {ds fs : List Char} (digits : ∀ x ∈ d :: ds, IsDigit x)
      (fraction : ∀ x ∈ f :: fs, IsDigit x) : Lexeme .number (d :: ds ++ '.' :: f :: fs)
  | string {body : List Char} (closed : '"' ∉ body) : Lexeme .string ('"' :: (body ++ ['"']))

section heads
variable {c : Char}

lemma IsDigit.not_beginsName (h : IsDigit c) : ¬ BeginsName c := by
  simp only [IsDigit, BeginsName, IsLetter, Char.le_def, Char.ext_iff, UInt32.le_iff_toNat_le,
    ← UInt32.toNat_inj] at h ⊢
  simp only [show '0'.val.toNat = 48 from rfl, show '9'.val.toNat = 57 from rfl,
    show 'a'.val.toNat = 97 from rfl, show 'z'.val.toNat = 122 from rfl,
    show 'A'.val.toNat = 65 from rfl, show 'Z'.val.toNat = 90 from rfl,
    show '_'.val.toNat = 95 from rfl] at h ⊢
  omega

lemma BeginsName.inName (h : BeginsName c) : InName c := by
  unfold BeginsName at h
  unfold InName
  tauto

lemma IsDigit.inName (h : IsDigit c) : InName c := Or.inr (Or.inl h)

lemma Symbol.head_spelling (s : Symbol) :
    ∃ x xs, s.spelling.toList = x :: xs ∧ ¬ BeginsName x ∧ ¬ IsDigit x ∧ x ≠ '"' := by
  cases s <;> exact ⟨_, _, rfl, by decide, by decide, by decide⟩

lemma Keyword.chars_spelling (k : Keyword) :
    ∃ x xs, k.spelling.toList = x :: xs ∧ BeginsName x ∧ ∀ y ∈ xs, InName y := by
  cases k <;> exact ⟨_, _, rfl, by decide, List.forall_mem_iff_forall_getElem.mpr (by decide)⟩

end heads

namespace Lexeme
variable {k : TokenKind} {c : Char} {cs : List Char}

/-- The rest of a number behind its first digit `c`. -/
def NumberRest (c : Char) (cs : List Char) : Prop :=
  (∀ x ∈ c :: cs, IsDigit x) ∨ ∃ ds f fs, cs = ds ++ '.' :: f :: fs ∧
    (∀ x ∈ c :: ds, IsDigit x) ∧ ∀ x ∈ f :: fs, IsDigit x

lemma sorts (h : Lexeme k (c :: cs)) :
    (IsDigit c ∧ k = .number ∧ NumberRest c cs) ∨
      (BeginsName c ∧ (∀ x ∈ cs, InName x) ∧
        ((∃ kw : Keyword, k = .keyword kw ∧ kw.spelling.toList = c :: cs) ∨
          k = .identifier ∧ ∀ kw : Keyword, kw.spelling.toList ≠ c :: cs)) ∨
      (c = '"' ∧ k = .string ∧ ∃ body, cs = body ++ ['"'] ∧ '"' ∉ body) ∨
      ((¬ IsDigit c ∧ ¬ BeginsName c ∧ c ≠ '"') ∧
        ∃ s : Symbol, k = .symbol s ∧ s.spelling.toList = c :: cs) := by
  generalize hw : c :: cs = w at h
  cases h with
  | symbol s =>
    obtain ⟨x, xs, hs, hname, hdigit, hquote⟩ := s.head_spelling
    obtain ⟨rfl, -⟩ := List.cons.inj (hw.trans hs)
    exact Or.inr (Or.inr (Or.inr ⟨⟨hdigit, hname, hquote⟩, s, rfl, rfl⟩))
  | keyword kw =>
    obtain ⟨x, xs, hk, hname, hin⟩ := kw.chars_spelling
    obtain ⟨rfl, rfl⟩ := List.cons.inj (hw.trans hk)
    exact Or.inr (Or.inl ⟨hname, hin, Or.inl ⟨kw, rfl, rfl⟩⟩)
  | identifier begins hin free =>
    obtain ⟨rfl, rfl⟩ := List.cons.inj hw
    exact Or.inr (Or.inl ⟨begins, hin, Or.inr ⟨rfl, free⟩⟩)
  | whole digits =>
    obtain ⟨rfl, rfl⟩ := List.cons.inj hw
    exact Or.inl ⟨digits _ List.mem_cons_self, rfl, Or.inl digits⟩
  | decimal digits fraction =>
    obtain ⟨rfl, rfl⟩ := List.cons.inj hw
    exact Or.inl ⟨digits _ List.mem_cons_self, rfl, Or.inr ⟨_, _, _, rfl, digits, fraction⟩⟩
  | string closed =>
    obtain ⟨rfl, rfl⟩ := List.cons.inj hw
    exact Or.inr (Or.inr (Or.inl ⟨rfl, rfl, _, rfl, closed⟩))

lemma of_digit (h : Lexeme k (c :: cs)) (hc : IsDigit c) : k = .number ∧ NumberRest c cs := by
  rcases h.sorts with ⟨-, hnumber⟩ | ⟨hname, -⟩ | ⟨rfl, -⟩ | ⟨hother, -⟩
  · exact hnumber
  · exact absurd hname hc.not_beginsName
  · exact absurd hc (by decide)
  · exact absurd hc hother.1

lemma of_name (h : Lexeme k (c :: cs)) (hc : BeginsName c) : (∀ x ∈ cs, InName x) ∧
    ((∃ kw : Keyword, k = .keyword kw ∧ kw.spelling.toList = c :: cs) ∨
      k = .identifier ∧ ∀ kw : Keyword, kw.spelling.toList ≠ c :: cs) := by
  rcases h.sorts with ⟨hdigit, -⟩ | ⟨-, hword⟩ | ⟨rfl, -⟩ | ⟨hother, -⟩
  · exact absurd hc hdigit.not_beginsName
  · exact hword
  · exact absurd hc (by decide)
  · exact absurd hc hother.2.1

lemma of_quote (h : Lexeme k ('"' :: cs)) :
    k = .string ∧ ∃ body, cs = body ++ ['"'] ∧ '"' ∉ body := by
  rcases h.sorts with ⟨hdigit, -⟩ | ⟨hname, -⟩ | ⟨-, hstring⟩ | ⟨hother, -⟩
  · exact absurd hdigit (by decide)
  · exact absurd hname (by decide)
  · exact hstring
  · exact absurd rfl hother.2.2

lemma of_other (h : Lexeme k (c :: cs)) (hdigit : ¬ IsDigit c) (hname : ¬ BeginsName c)
    (hquote : c ≠ '"') : ∃ s : Symbol, k = .symbol s ∧ s.spelling.toList = c :: cs := by
  rcases h.sorts with ⟨h, -⟩ | ⟨h, -⟩ | ⟨h, -⟩ | ⟨-, hsymbol⟩
  · exact absurd h hdigit
  · exact absurd h hname
  · exact absurd h hquote
  · exact hsymbol

lemma ne_nil {w : List Char} (h : Lexeme k w) : w ≠ [] := by
  cases h with
  | symbol s =>
    obtain ⟨x, xs, hs, -⟩ := s.head_spelling
    simp [hs]
  | keyword kw =>
    obtain ⟨x, xs, hk, -⟩ := kw.chars_spelling
    simp [hk]
  | _ => simp

end Lexeme

lemma Symbol.spelling_injective {s t : Symbol} (h : s.spelling = t.spelling) : s = t := by
  have hfind (s : Symbol) : all.find? (fun t => t.spelling == s.spelling) = some s := by
    cases s <;> decide
  exact Option.some.inj ((hfind s).symm.trans (h ▸ hfind t))

lemma Keyword.ofSpelling?_spelling (k : Keyword) : ofSpelling? k.spelling = some k := by
  cases k <;> decide

lemma Keyword.spelling_of_ofSpelling? {word : String} {k : Keyword}
    (h : ofSpelling? word = some k) : k.spelling = word := by
  have hfound := List.find?_some h
  exact beq_iff_eq.mp hfound

lemma Keyword.spelling_injective {k l : Keyword} (h : k.spelling = l.spelling) : k = l :=
  Option.some.inj ((ofSpelling?_spelling k).symm.trans (h ▸ ofSpelling?_spelling l))

theorem Lexeme.kind_unique {k l : TokenKind} {w : List Char} (h : Lexeme k w) (h' : Lexeme l w) :
    k = l := by
  obtain ⟨c, cs, rfl⟩ := List.exists_cons_of_ne_nil h.ne_nil
  by_cases hdigit : IsDigit c
  · rw [(h.of_digit hdigit).1, (h'.of_digit hdigit).1]
  by_cases hname : BeginsName c
  · obtain ⟨-, ⟨kw, rfl, hkw⟩ | ⟨rfl, hfree⟩⟩ := h.of_name hname <;>
      obtain ⟨-, ⟨kw', rfl, hkw'⟩ | ⟨rfl, hfree'⟩⟩ := h'.of_name hname
    · rw [Keyword.spelling_injective (String.toList_injective (hkw.trans hkw'.symm))]
    · exact absurd hkw (hfree' kw)
    · exact absurd hkw' (hfree kw')
    · rfl
  by_cases hquote : c = '"'
  · subst hquote
    rw [h.of_quote.1, h'.of_quote.1]
  · obtain ⟨s, rfl, hs⟩ := h.of_other hdigit hname hquote
    obtain ⟨t, rfl, ht⟩ := h'.of_other hdigit hname hquote
    rw [Symbol.spelling_injective (String.toList_injective (hs.trans ht.symm))]

end Scriptlet
