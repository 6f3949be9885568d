import Scriptlet.Proofs.SentenceReading

/-!
# The first error

The first error that is not about an assignment target is blamed on the first token that cannot be
right: some sentence begins with the tokens before it, but none with these and the token. No
later token has a part in it.
-/

namespace Scriptlet

/-- The first error, of those that are not about an assignment target. -/
def Parsed.firstError? (p : Parsed) : Option SyntaxError :=
  p.errors.find? (·.fault.message ≠ "invalid assignment target.")

lemma SyntaxFault.message_eq_target_iff {fault : SyntaxFault} :
    fault.message = "invalid assignment target." ↔ fault = .invalidTarget := by
  cases fault <;> decide

section program
open Scriptlet.Parser Scriptlet.Grammar
variable {tokens front : List Token} {c : Complaint} {e : SyntaxError}

lemma firstError?_parse :
    (parse tokens).firstError? =
      ((always program).firstBlock? (beforeEnd tokens)).map (Complaint.resolve (endToken tokens)) := by
  have hblocks : (fun e : SyntaxError => decide (e.fault.message ≠ "invalid assignment target.")) ∘
      Complaint.resolve (endToken tokens) = Complaint.blocks := by
    funext c
    rw [Function.comp_apply, Complaint.blocks, Bool.eq_iff_iff, decide_eq_true_eq, bne_iff_ne]
    exact not_congr SyntaxFault.message_eq_target_iff
  unfold Parsed.firstError?
  rw [firstBlock?_always, ← hblocks, ← List.find?_map]
  rfl

lemma firstError?_append_cons {t : Token} {rest : List Token}
    (hfront : ∀ u ∈ front, u.kind ≠ .endOfInput) (ht : t.kind ≠ .endOfInput)
    (hblamed : c.blamed = some t)
    (hfirst : ∀ rest', rest'.head? = (t :: rest).head? →
      (always program).firstBlock? (front ++ rest') = some c) (post : List Token) :
    (parse (front ++ t :: post)).firstError? = some ⟨c.fault, t⟩ := by
  have hbefore : beforeEnd (front ++ t :: post) = front ++ t :: beforeEnd post := by
    rw [beforeEnd_append hfront]
    exact congrArg _ (List.takeWhile_cons_of_pos (bne_iff_ne.mpr ht))
  rw [firstError?_parse, hbefore, hfirst (t :: beforeEnd post) rfl, Option.map_some,
    Complaint.resolve, hblamed]
  rfl

lemma firstError?_append_end {t : Token} (hfront : ∀ u ∈ front, u.kind ≠ .endOfInput)
    (ht : t.kind = .endOfInput) (hblamed : c.blamed = none)
    (hfirst : (always program).firstBlock? front = some c) (post : List Token) :
    (parse (front ++ t :: post)).firstError? = some ⟨c.fault, t⟩ := by
  rw [firstError?_parse, beforeEnd_append_end hfront ht, hfirst, endToken_append_end hfront ht,
    Option.map_some, Complaint.resolve, hblamed]
  rfl

lemma firstError?_sentence {w : List Token} {eof : Token} (hw : Derives .program w)
    (heof : eof.kind = .endOfInput) (h : (parse (w ++ [eof])).firstError? = some e) :
    e.fault = .tooMuchNesting := by
  rw [firstError?_parse, beforeEnd_append_end hw.kind_ne_endOfInput heof] at h
  obtain ⟨c, hc, rfl⟩ := Option.map_eq_some_iff.mp h
  have htakes := takes_program hw
  unfold Takes at htakes
  rw [List.append_nil] at htakes
  rcases htakes with ⟨body, reported, htargets, hread⟩ | hdeep
  · unfold firstBlock? at hc
    rw [hread] at hc
    exact absurd (hc.symm.trans (find?_onTargets htargets)) (Option.some_ne_none c)
  · rw [hc] at hdeep
    exact Option.some.inj hdeep

/-- Up to the token that is blamed the tokens begin some sentence, and the error is there whatever
follows. -/
lemma firstError?_viable (h : (parse tokens).firstError? = some e)
    (hfault : e.fault ≠ .tooMuchNesting) :
    ∃ pre post, beforeEnd tokens ++ [endToken tokens] = pre ++ e.token :: post ∧
      (∃ more, Derives .program (pre ++ more)) ∧
      ∀ post', (parse (pre ++ e.token :: post')).firstError? = some e := by
  rw [firstError?_parse] at h
  obtain ⟨c, hc, rfl⟩ := Option.map_eq_some_iff.mp h
  obtain ⟨front, rest, hsplit, hblamed, hviable, hfirst⟩ :=
    (tracks_program (beforeEnd tokens)).exists_stop hc hfault
  have hkinds : ∀ u ∈ front ++ rest, u.kind ≠ .endOfInput :=
    fun u hu => kind_ne_endOfInput_of_mem_beforeEnd (hsplit ▸ hu)
  have hfront : ∀ u ∈ front, u.kind ≠ .endOfInput :=
    fun u hu => hkinds u (List.mem_append_left rest hu)
  rw [hsplit]
  cases rest with
  | nil =>
    have htoken : c.resolve (endToken tokens) = ⟨c.fault, endToken tokens⟩ := by
      rw [Complaint.resolve, hblamed]
      rfl
    rw [hsplit, List.append_nil] at hc
    rw [htoken]
    exact ⟨front, [], by rw [List.append_nil], hviable,
      firstError?_append_end hfront endToken_kind hblamed hc⟩
  | cons t rest =>
    have htoken : c.resolve (endToken tokens) = ⟨c.fault, t⟩ := by
      rw [Complaint.resolve, hblamed]
      rfl
    have ht := hkinds t (List.mem_append_right front List.mem_cons_self)
    rw [htoken]
    exact ⟨front, rest ++ [endToken tokens], by rw [List.append_assoc, List.cons_append], hviable,
      firstError?_append_cons hfront ht hblamed hfirst⟩

/-- The first error is blamed on the token with which no sentence can go on, and depends on nothing
behind it. -/
theorem parse_firstError (h : (parse tokens).firstError? = some e)
    (hnest : e.fault.message ≠ "too much nesting.") :
    ∃ pre post, beforeEnd tokens ++ [endToken tokens] = pre ++ e.token :: post ∧
      (∃ more, Derives .program (pre ++ more)) ∧
      (∀ w eof more, Derives .program w → eof.kind = .endOfInput →
        w ++ [eof] ≠ pre ++ e.token :: more) ∧
      ∀ post', (parse (pre ++ e.token :: post')).firstError? = some e := by
  have hfault : e.fault ≠ .tooMuchNesting := fun hf => hnest (by rw [hf]; rfl)
  obtain ⟨pre, post, hsplit, hviable, hstable⟩ := firstError?_viable h hfault
  refine ⟨pre, post, hsplit, hviable, fun w eof more hw heof heq => ?_, hstable⟩
  -- a sentence that goes on in this way would have the same first error
  have herror := hstable more
  rw [← heq] at herror
  exact hfault (firstError?_sentence hw heof herror)

/-- The brace of `print (nil + } = nil`. -/
def brace : Token := ⟨.symbol .rightBrace, "\x7d", none, 1⟩

theorem parse_firstError_strayBrace :
    (parse strayBrace).firstError? = some ⟨.expectedExpression, brace⟩ ∧
      SyntaxFault.expectedExpression.message ≠ "too much nesting." ∧
      ∃ pre post, beforeEnd strayBrace ++ [endToken strayBrace] = pre ++ brace :: post ∧
        (∃ more, Derives .program (pre ++ more)) ∧
        (∀ w eof more, Derives .program w → eof.kind = .endOfInput →
          w ++ [eof] ≠ pre ++ brace :: more) ∧
        ∀ post', (parse (pre ++ brace :: post')).firstError? = some ⟨.expectedExpression, brace⟩ := by
  have herror : (parse strayBrace).firstError? = some ⟨.expectedExpression, brace⟩ := by
    decide +kernel
  have hnest : SyntaxFault.expectedExpression.message ≠ "too much nesting." := by decide
  exact ⟨herror, hnest, parse_firstError herror hnest⟩

end program
end Scriptlet
