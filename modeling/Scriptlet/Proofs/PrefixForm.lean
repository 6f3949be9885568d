import Scriptlet.Proofs.LosslessScan

/-!
# Prefix forms

A prefix form is a word, or forms in parentheses behind a word at their head. Its text tells the
form, whatever the text goes on with: a word ends before a blank or a parenthesis, and the arguments
of a head end with its own parenthesis.
-/

namespace Scriptlet

inductive PrefixForm where
  | word (w : String)
  | apply (head : String) (args : List PrefixForm)

/-- A text that a blank or a parenthesis ends. -/
def IsWord (w : String) : Prop := ∀ c ∈ w.toList, c ∉ [' ', '(', ')']

instance : DecidablePred IsWord := fun _ =>
  decidable_of_iff _ List.forall_mem_iff_forall_getElem.symm

namespace PrefixForm

mutual

def chars : PrefixForm → List Char
  | word w => w.toList
  | apply head args => '(' :: (head.toList ++ argsChars args)

/-- Each argument stands behind a blank, and the parenthesis behind the last one. -/
def argsChars : List PrefixForm → List Char
  | [] => [')']
  | a :: rest => ' ' :: (a.chars ++ argsChars rest)

end

mutual

/-- Heads and words are words. -/
def Plain : PrefixForm → Prop
  | word w => IsWord w
  | apply head args => IsWord head ∧ PlainAll args

def PlainAll : List PrefixForm → Prop
  | [] => True
  | a :: rest => a.Plain ∧ PlainAll rest

end

/-- What a form ends before: nothing, a blank or a closing parenthesis. -/
def Delimits (more : List Char) : Prop := ∀ c ∈ more.head?, c ∈ [' ', ')']

lemma delimits_argsChars (args : List PrefixForm) (more : List Char) :
    Delimits (argsChars args ++ more) := by
  intro c hc
  cases args with
  | nil =>
    cases hc
    decide
  | cons a rest =>
    cases hc
    decide

section words
variable {w w' : String} {more more' : List Char}

lemma word_append_injective (hw : IsWord w) (hw' : IsWord w') (hmore : Delimits more)
    (hmore' : Delimits more') (h : w.toList ++ more = w'.toList ++ more') :
    w = w' ∧ more = more' := by
  have htake {w : String} {more : List Char} (hw : IsWord w) (hmore : Delimits more) :
      (w.toList ++ more).takeWhile (fun c => decide (c ∉ [' ', '(', ')'])) = w.toList := by
    refine takeWhile_of_not_head (fun x hx => decide_eq_true (hw x hx)) (fun x hx => ?_)
    have hall : ∀ c ∈ [' ', ')'], c ∈ [' ', '(', ')'] :=
      List.forall_mem_iff_forall_getElem.mpr (by decide)
    exact decide_eq_false (not_not.mpr (hall x (hmore x hx)))
  have hlist : w.toList = w'.toList := by rw [← htake hw hmore, h, htake hw' hmore']
  obtain rfl := String.toList_injective hlist
  exact ⟨rfl, List.append_cancel_left h⟩

lemma word_append_ne_apply {rest : List Char} (hw : IsWord w) (hmore : Delimits more) :
    w.toList ++ more ≠ '(' :: rest := by
  intro h
  cases hchars : w.toList with
  | nil =>
    rw [hchars, List.nil_append] at h
    exact absurd (hmore '(' (by rw [h]; rfl)) (by decide)
  | cons c cs =>
    rw [hchars] at h
    obtain ⟨rfl, -⟩ := List.cons.inj h
    exact absurd (hw '(' (by rw [hchars]; exact List.mem_cons_self)) (by decide)

end words

mutual

/-- The form at the front of a text is determined, and so is what follows it. -/
theorem chars_append_injective (f g : PrefixForm) {more more' : List Char} (hf : f.Plain)
    (hg : g.Plain) (hmore : Delimits more) (hmore' : Delimits more')
    (h : f.chars ++ more = g.chars ++ more') : f = g ∧ more = more' := by
  cases f with
  | word w =>
    cases g with
    | word w' =>
      obtain ⟨rfl, rfl⟩ := word_append_injective hf hg hmore hmore' h
      exact ⟨rfl, rfl⟩
    | apply head args => exact absurd h (word_append_ne_apply hf hmore)
  | apply head args =>
    cases g with
    | word w' => exact absurd h.symm (word_append_ne_apply hg hmore')
    | apply head' args' =>
      simp only [chars, List.cons_append, List.append_assoc, List.cons.injEq, true_and] at h
      obtain ⟨rfl, hargs⟩ := word_append_injective hf.1 hg.1 (delimits_argsChars args more)
        (delimits_argsChars args' more') h
      obtain ⟨rfl, rfl⟩ := argsChars_append_injective args args' hf.2 hg.2 hargs
      exact ⟨rfl, rfl⟩

theorem argsChars_append_injective (as bs : List PrefixForm) {more more' : List Char}
    (has : PlainAll as) (hbs : PlainAll bs) (h : argsChars as ++ more = argsChars bs ++ more') :
    as = bs ∧ more = more' := by
  cases as with
  | nil =>
    cases bs with
    | nil => exact ⟨rfl, List.append_cancel_left h⟩
    | cons b bs => cases (List.cons.inj h).1
  | cons a as =>
    cases bs with
    | nil => cases (List.cons.inj h).1
    | cons b bs =>
      simp only [argsChars, List.cons_append, List.append_assoc, List.cons.injEq, true_and] at h
      obtain ⟨rfl, hrest⟩ := chars_append_injective a b has.1 hbs.1 (delimits_argsChars as more)
        (delimits_argsChars bs more') h
      obtain ⟨rfl, rfl⟩ := argsChars_append_injective as bs has.2 hbs.2 hrest
      exact ⟨rfl, rfl⟩

end

theorem chars_injective {f g : PrefixForm} (hf : f.Plain) (hg : g.Plain) (h : f.chars = g.chars) :
    f = g := by
  have hnil : Delimits [] := fun c hc => by cases hc
  exact (chars_append_injective f g hf hg hnil hnil (congrArg (· ++ []) h)).1

end PrefixForm
end Scriptlet
