import Scriptlet.Proofs.LosslessScan
import Scriptlet.Proofs.ScanJoin

/-!
# Line numbers

A token is on the line on which its text ends, and an error on the line of the character that it is
about, or on the last line when it is about an open string. Lines are counted from one by the
newlines of the source, whatever pieces these stand in. So lines do not go down along a source, and
a text below another one is scanned as it is alone, on lines further down.
-/

namespace Scriptlet

section lines
variable {line : Nat} {ps : List Piece}

lemma exists_of_withLines {front back : List (Piece × Nat)} {p : Piece} {l : Nat}
    (h : withLines line ps = front ++ (p, l) :: back) :
    ∃ before after, ps = before ++ p :: after ∧ front = withLines line before ∧
      l = line + (before.flatMap Piece.text ++ p.text).count '\n' := by
  have hps : ps = front.map Prod.fst ++ p :: back.map Prod.fst := by
    rw [← map_fst_withLines line ps, h, List.map_append, List.map_cons]
  have hlength : (withLines line (front.map Prod.fst)).length = front.length := by
    rw [← List.length_map Prod.fst, map_fst_withLines, List.length_map]
  rw [hps, withLines_append, withLines] at h
  obtain ⟨hfront, hpiece⟩ := List.append_inj h hlength
  have hl := congrArg Prod.snd (List.cons.inj hpiece).1
  refine ⟨front.map Prod.fst, back.map Prod.fst, hps, hfront.symm, ?_⟩
  rw [List.count_append, ← Nat.add_assoc]
  exact hl.symm

lemma exists_of_filterMap_withLines {β : Type} {f : Piece × Nat → Option β} {pre post : List β}
    {x : β} (h : (withLines line ps).filterMap f = pre ++ x :: post) :
    ∃ before p after, ps = before ++ p :: after ∧ (withLines line before).filterMap f = pre ∧
      f (p, line + (before.flatMap Piece.text ++ p.text).count '\n') = some x := by
  obtain ⟨left, right, hsplit, hpre, hright⟩ := List.filterMap_eq_append_iff.mp h
  obtain ⟨silent, ⟨p, l⟩, back, rfl, hsilent, hx, -⟩ := List.filterMap_eq_cons_iff.mp hright
  rw [← List.append_assoc] at hsplit
  obtain ⟨before, after, hps, hfront, rfl⟩ := exists_of_withLines hsplit
  refine ⟨before, p, after, hps, ?_, hx⟩
  rw [← hfront, List.filterMap_append, hpre, List.filterMap_eq_nil_iff.mpr hsilent,
    List.append_nil]

lemma le_of_mem_withLines : ∀ x ∈ withLines line ps, line ≤ x.2 := by
  induction ps generalizing line with
  | nil => intro x hx; cases hx
  | cons p ps ih =>
    rw [withLines, List.forall_mem_cons]
    exact ⟨Nat.le_add_right _ _, fun x hx => Nat.le_trans (Nat.le_add_right _ _) (ih x hx)⟩

lemma pairwise_withLines : (withLines line ps).Pairwise (fun x y => x.2 ≤ y.2) := by
  induction ps generalizing line with
  | nil => exact List.Pairwise.nil
  | cons p ps ih => exact List.Pairwise.cons (fun x hx => le_of_mem_withLines x hx) ih

end lines

namespace Piece
variable {p : Piece} {line : Nat}

lemma line_of_token? {t : Token} (h : p.token? line = some t) :
    p.word? = some (t.kind, t.lexeme) ∧ t.line = line := by
  refine ⟨?_, ?_⟩
  · rw [← word?_eq p line, h, Option.map_some]
  · unfold token? at h
    split at h <;> cases h
    rfl

lemma line_of_error? {e : ScanError} (h : p.error? line = some e) :
    p.complaint? = some e.fault.message ∧ e.line = line ∧
      (p.kind = .unexpected ∨ p.kind = .unterminated) := by
  refine ⟨?_, ?_⟩
  · rw [← complaint?_eq p line, h, Option.map_some]
  · unfold error? at h
    split at h
    · rename_i hk _
      cases h
      exact ⟨rfl, Or.inl hk⟩
    · rename_i hk
      cases h
      exact ⟨rfl, Or.inr hk⟩
    · cases h

end Piece

lemma Cut.newlines_of_unexpected {p : Piece} {more : List Char} (h : Cut p more)
    (hk : p.kind = .unexpected) : p.text.count '\n' = 0 := by
  cases h with
  | unexpected noBlank =>
    rw [List.count_eq_zero]
    intro hmem
    obtain rfl := List.mem_singleton.mp hmem
    exact noBlank (by simp)
  | _ => cases hk

lemma Cut.nil_of_unterminated {p : Piece} {more : List Char} (h : Cut p more)
    (hk : p.kind = .unterminated) : more = [] := by
  cases h with
  | unterminated => rfl
  | _ => cases hk

lemma CutAll.cut {before after : List Piece} {p : Piece} (h : CutAll (before ++ p :: after)) :
    Cut p (after.flatMap Piece.text) := by
  induction before with
  | nil => exact h.1
  | cons q before ih => exact ih h.2

section scan
variable {source : String}

lemma tokens_scan (source : String) :
    (scan source).tokens =
      beforeEnd (scan source).tokens ++ [.endOfInput (1 + source.toList.count '\n')] := by
  rw [beforeEnd_scan]
  rfl

lemma le_lastLine {ps : List Piece} (h : ps.flatMap Piece.text = source.toList)
    {x : Piece × Nat} (hx : x ∈ withLines 1 ps) : x.2 ≤ 1 + source.toList.count '\n' := by
  obtain ⟨p, l⟩ := x
  obtain ⟨front, back, hsplit⟩ := List.append_of_mem hx
  obtain ⟨before, after, rfl, -, rfl⟩ := exists_of_withLines hsplit
  have hfront : before.flatMap Piece.text ++ p.text <+: source.toList := by
    rw [← h, List.flatMap_append, List.flatMap_cons, ← List.append_assoc]
    exact List.prefix_append _ _
  exact Nat.add_le_add_left (hfront.sublist.count_le '\n') 1

lemma pairwise_line_tokens (source : String) :
    (scan source).tokens.Pairwise (fun t u => t.line ≤ u.line) := by
  rw [tokens_scan, beforeEnd_scan, List.pairwise_append]
  refine ⟨?_, List.pairwise_singleton _ _, fun t ht u hu => ?_⟩
  · refine pairwise_withLines.filterMap _ (fun x y hxy t ht u hu => ?_)
    rw [(Piece.line_of_token? ht).2, (Piece.line_of_token? hu).2]
    exact hxy
  · obtain ⟨x, hx, htoken⟩ := List.mem_filterMap.mp ht
    rw [List.mem_singleton.mp hu, (Piece.line_of_token? htoken).2]
    exact le_lastLine (flatMap_text_pieces source.toList) hx

lemma pairwise_line_errors (source : String) :
    (scan source).errors.Pairwise (fun d e => d.line ≤ e.line) := by
  refine pairwise_withLines.filterMap _ (fun x y hxy d hd e he => ?_)
  rw [(Piece.line_of_error? hd).2.1, (Piece.line_of_error? he).2.1]
  exact hxy

lemma token_line {pre post : List Token} {t : Token}
    (h : (scan source).tokens = pre ++ t :: post) :
    (t.kind = .endOfInput ∧ t.line = 1 + source.toList.count '\n') ∨
      ∃ before p after, pieces source.toList = before ++ p :: after ∧
        before.filterMap Piece.word? = pre.map (fun u => (u.kind, u.lexeme)) ∧
        p.word? = some (t.kind, t.lexeme) ∧
        t.line = 1 + (before.flatMap Piece.text ++ p.text).count '\n' := by
  rw [tokens_scan, beforeEnd_scan] at h
  rcases List.eq_nil_or_concat' post with rfl | ⟨init, last, rfl⟩
  · obtain ⟨-, hlast⟩ := List.append_inj' h rfl
    obtain rfl := List.singleton_inj.mp hlast
    exact Or.inl ⟨rfl, rfl⟩
  · rw [← List.cons_append, ← List.append_assoc] at h
    obtain ⟨before, p, after, hps, hpre, htoken⟩ :=
      exists_of_filterMap_withLines (List.append_inj_left' h rfl)
    obtain ⟨hword, hline⟩ := Piece.line_of_token? htoken
    refine Or.inr ⟨before, p, after, hps, ?_, hword, hline⟩
    rw [← hpre]
    exact (map_filterMap_withLines Piece.word?_eq 1 before).symm

lemma error_line {pre post : List ScanError} {e : ScanError}
    (h : (scan source).errors = pre ++ e :: post) :
    ∃ before p after, pieces source.toList = before ++ p :: after ∧
      before.filterMap Piece.complaint? = pre.map (fun d => d.fault.message) ∧
      p.complaint? = some e.fault.message ∧
      ((p.kind = .unexpected ∧ e.line = 1 + (before.flatMap Piece.text).count '\n') ∨
        p.kind = .unterminated ∧ e.line = 1 + source.toList.count '\n') := by
  obtain ⟨before, p, after, hps, hpre, herror⟩ := exists_of_filterMap_withLines h
  obtain ⟨hcomplaint, hline, hkind⟩ := Piece.line_of_error? herror
  have hcut : Cut p (after.flatMap Piece.text) := CutAll.cut (hps ▸ cutAll_pieces source.toList)
  refine ⟨before, p, after, hps, ?_, hcomplaint, ?_⟩
  · rw [← hpre]
    exact (map_filterMap_withLines Piece.complaint?_eq 1 before).symm
  · rcases hkind with hk | hk
    · rw [List.count_append, hcut.newlines_of_unexpected hk] at hline
      exact Or.inl ⟨hk, hline⟩
    · -- an open string is the last piece
      have htext := flatMap_text_pieces source.toList
      rw [hps, List.flatMap_append, List.flatMap_cons, hcut.nil_of_unterminated hk,
        List.append_nil] at htext
      rw [htext] at hline
      exact Or.inr ⟨hk, hline⟩

/-- The source is cut by the rules into pieces, and the lines of tokens and errors are counted in
them. A token is as far down as there are newlines up to the end of its piece, an unexpected
character as there are newlines before it, and an open string and the end of input as there are
newlines at all. So neither the lines of the tokens nor those of the errors go down. -/
theorem scan_lines (source : String) : ∃ ps : List Piece,
    (CutAll ps ∧ ps.flatMap Piece.text = source.toList) ∧
    (∀ pre t post, (scan source).tokens = pre ++ t :: post →
      (t.kind = .endOfInput ∧ t.line = 1 + source.toList.count '\n') ∨
        ∃ before p after, ps = before ++ p :: after ∧
          before.filterMap Piece.word? = pre.map (fun u => (u.kind, u.lexeme)) ∧
          p.word? = some (t.kind, t.lexeme) ∧
          t.line = 1 + (before.flatMap Piece.text ++ p.text).count '\n') ∧
    (∀ pre e post, (scan source).errors = pre ++ e :: post →
      ∃ before p after, ps = before ++ p :: after ∧
        before.filterMap Piece.complaint? = pre.map (fun d => d.fault.message) ∧
        p.complaint? = some e.fault.message ∧
        ((p.kind = .unexpected ∧ e.line = 1 + (before.flatMap Piece.text).count '\n') ∨
          p.kind = .unterminated ∧ e.line = 1 + source.toList.count '\n')) ∧
    (scan source).tokens.Pairwise (fun t u => t.line ≤ u.line) ∧
    (scan source).errors.Pairwise (fun d e => d.line ≤ e.line) :=
  ⟨pieces source.toList, ⟨cutAll_pieces _, flatMap_text_pieces _⟩, fun _ _ _ => token_line,
    fun _ _ _ => error_line, pairwise_line_tokens source, pairwise_line_errors source⟩

section below

lemma filter_tokens_scan (source : String) :
    (scan source).tokens.filter (fun t => t.kind ≠ .endOfInput) =
      beforeEnd (scan source).tokens := by
  have hkinds : ∀ t ∈ beforeEnd (scan source).tokens, decide (t.kind ≠ .endOfInput) = true := by
    intro t ht
    have hkind := List.all_eq_true.mp List.all_takeWhile t ht
    exact decide_eq_true (bne_iff_ne.mp hkind)
  calc (scan source).tokens.filter (fun t => t.kind ≠ .endOfInput)
      = (beforeEnd (scan source).tokens ++
          [Token.endOfInput (1 + source.toList.count '\n')]).filter
            (fun t => t.kind ≠ .endOfInput) := congrArg _ (tokens_scan source)
    _ = beforeEnd (scan source).tokens ++ [] := by
        rw [List.filter_append, List.filter_eq_self.mpr hkinds]
        rfl
    _ = beforeEnd (scan source).tokens := List.append_nil _

/-- A text that leaves no string open is scanned as if nothing followed it. What is below it is
scanned as if it stood alone, on lines further down. -/
theorem scan_append_newline {a : String}
    (h : ∀ e ∈ (scan a).errors, e.fault.message ≠ "unterminated string.") (b : String) :
    (scan (a ++ "\n" ++ b)).tokens =
        (scan a).tokens.filter (fun t => t.kind ≠ .endOfInput) ++
          (scan b).tokens.map (Token.down (1 + a.toList.count '\n')) ∧
      (scan (a ++ "\n" ++ b)).errors =
        (scan a).errors ++ (scan b).errors.map (ScanError.down (1 + a.toList.count '\n')) := by
  obtain ⟨htokens, herrors⟩ :=
    scan_join (fun e he hf => h e he (congrArg ScanFault.message hf)) b
  refine ⟨?_, herrors⟩
  have hend : Token.endOfInput (1 + (a ++ "\n" ++ b).toList.count '\n') =
      (Token.endOfInput (1 + b.toList.count '\n')).down (1 + a.toList.count '\n') := by
    have hlast : 1 + (a ++ "\n" ++ b).toList.count '\n' =
        1 + b.toList.count '\n' + (1 + a.toList.count '\n') := by
      have hnewline : "\n".toList.count '\n' = 1 := rfl
      rw [String.toList_append, String.toList_append, List.count_append, List.count_append,
        hnewline]
      omega
    rw [hlast]
    rfl
  calc (scan (a ++ "\n" ++ b)).tokens
      = beforeEnd (scan a).tokens ++
          ((beforeEnd (scan b).tokens).map (Token.down (1 + a.toList.count '\n')) ++
            [(Token.endOfInput (1 + b.toList.count '\n')).down (1 + a.toList.count '\n')]) := by
        rw [tokens_scan, htokens, hend, List.append_assoc]
    _ = (scan a).tokens.filter (fun t => t.kind ≠ .endOfInput) ++
          (scan b).tokens.map (Token.down (1 + a.toList.count '\n')) := by
        rw [filter_tokens_scan, ← List.map_singleton, ← List.map_append, ← tokens_scan]

theorem scan_append_newline_openString :
    (∀ e ∈ (scan "x.\n@ // \"").errors, e.fault.message ≠ "unterminated string.") ∧
      (scan "!\"\n").errors = [⟨2, .unterminated⟩] ∧
      (scan ("x.\n@ // \"" ++ "\n" ++ "!\"\n")).tokens =
        [⟨.identifier, "x", none, 1⟩, ⟨.symbol .dot, ".", none, 1⟩, ⟨.symbol .bang, "!", none, 3⟩,
          .endOfInput 4] ∧
      (scan ("x.\n@ // \"" ++ "\n" ++ "!\"\n")).errors =
        [⟨2, .unexpected '@'⟩, ⟨4, .unterminated⟩] := by
  have hclosed : ∀ e ∈ (scan "x.\n@ // \"").errors, e.fault.message ≠ "unterminated string." := by
    have herrors : (scan "x.\n@ // \"").errors = [⟨2, .unexpected '@'⟩] := by decide +kernel
    rw [herrors]
    decide
  have hopen : (scan "!\"\n").errors = [⟨2, .unterminated⟩] := by decide +kernel
  obtain ⟨htokens, herrors⟩ := scan_append_newline hclosed "!\"\n"
  refine ⟨hclosed, hopen, htokens.trans ?_, herrors.trans ?_⟩
  · decide +kernel
  · decide +kernel

end below
end scan
end Scriptlet
