import Mathlib.Data.List.Nodup
import Scriptlet.Proofs.BlamedTokens
import Scriptlet.Proofs.TokenKinds

/-!
# No token is blamed twice

Equal tokens may stand at different places, so an error does not tell by its token which of them is
blamed. Since the parser looks at no line, each token can be given its place for its line instead:
the same errors are reported, and each one then tells its place.
-/

namespace Scriptlet

/-- The tokens up to the end of input, and the one that marks it. -/
def upToEnd (tokens : List Token) : List Token := beforeEnd tokens ++ [endToken tokens]

/-- The token with its place for its line. -/
def Token.placed (place : Nat) (t : Token) : Token := { t with line := place }

/-- The tokens up to the end of input, each with its place for its line. -/
def numbered (tokens : List Token) : List Token := (upToEnd tokens).mapIdx Token.placed

/-- The faults of the errors, each with the place of the token that is blamed. -/
def located (tokens : List Token) : List (SyntaxFault × Nat) :=
  (parse (numbered tokens)).errors.map (fun e => (e.fault, e.token.line))

/-- The faults that are blamed on the token at a place, in the order of their reports. -/
def faultsAt (tokens : List Token) (place : Nat) : List SyntaxFault :=
  ((located tokens).filter (·.2 == place)).map Prod.fst

section numbered
variable {tokens : List Token}

/-- A token, and one of its kind that has its place for its line. -/
def StandsAt (tokens : List Token) (t t' : Token) : Prop :=
  t.kind = t'.kind ∧ (upToEnd tokens)[t'.line]? = some t

lemma standsAt_mapIdx : List.Forall₂ (StandsAt tokens) (beforeEnd tokens)
    ((beforeEnd tokens).mapIdx Token.placed) := by
  rw [List.forall₂_iff_get]
  refine ⟨(List.length_mapIdx).symm, fun place h h' => ?_⟩
  simp only [List.get_eq_getElem, List.getElem_mapIdx]
  refine ⟨rfl, ?_⟩
  rw [upToEnd, Token.placed, List.getElem?_append_left h, List.getElem?_eq_getElem h]

lemma kind_ne_endOfInput_of_mem_mapIdx :
    ∀ t ∈ (beforeEnd tokens).mapIdx Token.placed, t.kind ≠ .endOfInput := by
  intro t ht
  obtain ⟨place, h, rfl⟩ := List.mem_mapIdx.mp ht
  exact kind_ne_endOfInput_of_mem_beforeEnd (t := (beforeEnd tokens)[place]) (List.getElem_mem h)

lemma map_line_mapIdx (ts : List Token) :
    (ts.mapIdx Token.placed).map Token.line = List.range ts.length := by
  refine List.ext_getElem (by simp) (fun place h h' => ?_)
  simp [Token.placed]

lemma numbered_eq : numbered tokens = (beforeEnd tokens).mapIdx Token.placed ++
    [(endToken tokens).placed (beforeEnd tokens).length] := by
  unfold numbered upToEnd
  rw [List.mapIdx_concat]

lemma kind_placed_endToken :
    ((endToken tokens).placed (beforeEnd tokens).length).kind = .endOfInput := endToken_kind

lemma beforeEnd_numbered :
    beforeEnd (numbered tokens) = (beforeEnd tokens).mapIdx Token.placed := by
  rw [numbered_eq]
  exact beforeEnd_append_end kind_ne_endOfInput_of_mem_mapIdx kind_placed_endToken []

lemma endToken_numbered :
    endToken (numbered tokens) = (endToken tokens).placed (beforeEnd tokens).length := by
  rw [numbered_eq]
  exact endToken_append_end kind_ne_endOfInput_of_mem_mapIdx kind_placed_endToken []

/-- The place of a complaint that was made of the numbered tokens. -/
def Complaint.place (tokens : List Token) (c : Complaint) : Nat :=
  (c.resolve (endToken (numbered tokens))).token.line

/-- What is reported of the numbered tokens. -/
def numberedComplaints (tokens : List Token) : List Complaint :=
  (Grammar.program ((beforeEnd tokens).mapIdx Token.placed)).reported

lemma located_eq :
    located tokens = (numberedComplaints tokens).map (fun c => (c.fault, c.place tokens)) := by
  have herrors : (parse (numbered tokens)).errors =
      (Grammar.program (beforeEnd (numbered tokens))).reported.map
        (Complaint.resolve (endToken (numbered tokens))) := rfl
  rw [located, herrors, beforeEnd_numbered, List.map_map]
  rfl

lemma errors_eq_located (tokens : List Token) :
    (parse tokens).errors.map (fun e => (e.fault, some e.token)) =
    (located tokens).map (fun (fault, place) => (fault, (upToEnd tokens)[place]?)) := by
  have hreported := (Grammar.alike_program (R := StandsAt tokens) (fun _ _ h => h.1) _ _
    standsAt_mapIdx).reported
  have herrors : (parse tokens).errors =
    (Grammar.program (beforeEnd tokens)).reported.map (Complaint.resolve (endToken tokens)) := rfl
  rw [herrors, located_eq, List.map_map, List.map_map, ← List.forall₂_eq_eq_eq,
    List.forall₂_map_left_iff, List.forall₂_map_right_iff]
  refine hreported.imp (fun c c' h => ?_)
  obtain ⟨hfault, hblamed⟩ := h
  refine Prod.ext hfault ?_
  simp only [Function.comp_apply, Complaint.place, Complaint.resolve]
  generalize c.blamed = blamed, c'.blamed = blamed' at hblamed
  cases hblamed with
  | none =>
    rw [Option.getD_none, Option.getD_none, endToken_numbered]
    exact List.getElem?_concat_length.symm
  | some ht => exact ht.2.symm

lemma place_of_some {c : Complaint} {t : Token} (h : c.blamed = some t) :
    c.place tokens = t.line := by
  rw [Complaint.place, Complaint.resolve, h, Option.getD_some]

lemma place_of_none {c : Complaint} (h : c.blamed = none) :
    c.place tokens = (beforeEnd tokens).length := by
  rw [Complaint.place, Complaint.resolve, h, Option.getD_none, endToken_numbered]
  rfl

lemma subperm_placed (tokens : List Token) :
    (blamedTokens (numberedComplaints tokens)).Subperm ((beforeEnd tokens).mapIdx Token.placed) :=
  (Grammar.blamesOnce_program _).tokens.trans (List.take_sublist _ _).subperm

lemma faultsAtEnd_eq_nil_or_unclosed (tokens : List Token) :
    faultsAtEnd (numberedComplaints tokens) = [] ∨
    Unclosed (maxNesting + 1) (faultsAtEnd (numberedComplaints tokens)) :=
  (Grammar.blamesOnce_program _).atEnd.imp_right (fun hcut => hcut.2.2)

lemma place_lt_of_some {c : Complaint} {t : Token} (hc : c ∈ numberedComplaints tokens)
    (h : c.blamed = some t) : c.place tokens < (beforeEnd tokens).length := by
  have ht := (subperm_placed tokens).subset (List.mem_filterMap.mpr ⟨c, hc, h⟩)
  rw [place_of_some h, ← List.mem_range, ← map_line_mapIdx]
  exact List.mem_map_of_mem ht

lemma length_faultsAt (place : Nat) : (faultsAt tokens place).length =
    (numberedComplaints tokens).countP (fun c => c.place tokens == place) := by
  rw [faultsAt, List.length_map, ← List.countP_eq_length_filter, located_eq, List.countP_map]
  rfl

lemma length_faultsAt_le_one {place : Nat} (h : place < (beforeEnd tokens).length) :
    (faultsAt tokens place).length ≤ 1 := by
  have hblamed : (faultsAt tokens place).length =
      (blamedTokens (numberedComplaints tokens)).countP (·.line == place) := by
    rw [length_faultsAt, blamedTokens, List.countP_filterMap]
    refine List.countP_congr (fun c _ => ?_)
    cases hc : c.blamed with
    | none => simp [place_of_none hc, Nat.ne_of_gt h]
    | some t => simp [place_of_some hc]
  have hrange : ((beforeEnd tokens).mapIdx Token.placed).countP (·.line == place) =
      (List.range (beforeEnd tokens).length).count place := by
    rw [← map_line_mapIdx, List.count, List.countP_map]
    rfl
  calc (faultsAt tokens place).length
      ≤ ((beforeEnd tokens).mapIdx Token.placed).countP (·.line == place) := by
        rw [hblamed]
        exact (subperm_placed tokens).countP_le _
    _ ≤ 1 := by
        rw [hrange]
        exact List.nodup_iff_count_le_one.mp List.nodup_range place

lemma faultsAt_end :
    faultsAt tokens (beforeEnd tokens).length = faultsAtEnd (numberedComplaints tokens) := by
  rw [faultsAt, located_eq, List.filter_map, List.map_map, faultsAtEnd]
  refine congrArg (List.map Complaint.fault) (List.filter_congr (fun c hc => ?_))
  rw [Function.comp_apply]
  cases h : c.blamed with
  | none => simp [place_of_none h]
  | some t => simp [Nat.ne_of_lt (place_lt_of_some hc h)]

lemma length_faultsAt_end_le (tokens : List Token) :
    (faultsAt tokens (beforeEnd tokens).length).length ≤ maxNesting + 1 := by
  rw [faultsAt_end]
  rcases faultsAtEnd_eq_nil_or_unclosed tokens with h | h
  · rw [h]
    exact Nat.zero_le _
  · exact h.length_le

lemma length_located_le (tokens : List Token) :
    (located tokens).length ≤ (beforeEnd tokens).length + (maxNesting + 1) := by
  have htokens : (blamedTokens (numberedComplaints tokens)).length ≤ (beforeEnd tokens).length := by
    have hle := (subperm_placed tokens).length_le
    rwa [List.length_mapIdx] at hle
  have hend := length_faultsAt_end_le tokens
  rw [faultsAt_end, faultsAtEnd, List.length_map, ← List.countP_eq_length_filter] at hend
  rw [blamedTokens, List.length_filterMap_eq_countP] at htokens
  rw [located_eq, List.length_map, List.length_eq_countP_add_countP (·.blamed.isNone),
    Nat.add_comm]
  refine Nat.add_le_add (le_of_eq_of_le (List.countP_congr (fun c _ => ?_)) htokens) hend
  cases c.blamed <;> simp

end numbered

/-- Every error blames a token at a place, and no place before the end of input is blamed twice. The
end of input is blamed for one fault and then for each block that is open. -/
theorem parse_blames_once (tokens : List Token) :
    (parse tokens).errors.map (fun e => (e.fault, some e.token)) =
        (located tokens).map (fun (fault, place) => (fault, (upToEnd tokens)[place]?)) ∧
      (∀ place < (beforeEnd tokens).length, (faultsAt tokens place).length ≤ 1) ∧
      (faultsAt tokens (beforeEnd tokens).length = [] ∨
        ∃ fault k, k ≤ maxNesting ∧ faultsAt tokens (beforeEnd tokens).length =
          fault :: List.replicate k .expectedClosingBrace) ∧
      (faultsAt tokens (beforeEnd tokens).length).length ≤ maxNesting + 1 ∧
      (parse tokens).errors.length ≤ (beforeEnd tokens).length + (maxNesting + 1) := by
  refine ⟨errors_eq_located tokens, fun place h => length_faultsAt_le_one h, ?_,
    length_faultsAt_end_le tokens, ?_⟩
  · rw [faultsAt_end]
    refine (faultsAtEnd_eq_nil_or_unclosed tokens).imp_right (fun ⟨fault, k, hk, heq⟩ => ?_)
    exact ⟨fault, k, Nat.le_of_lt_succ hk, heq⟩
  · have hlength := congrArg List.length (errors_eq_located tokens)
    rw [List.length_map, List.length_map] at hlength
    rw [hlength]
    exact length_located_le tokens

/-- The tokens of `{ 1 = 2`. -/
def openBlock : List Token :=
  [⟨.symbol .leftBrace, "\x7b", none, 1⟩, ⟨.number, "1", some (.number 1), 1⟩,
    ⟨.symbol .equal, "=", none, 1⟩, ⟨.number, "2", some (.number 2), 1⟩]

theorem parse_blames_once_openBlock :
    faultsAt openBlock 2 = [.invalidTarget] ∧
      faultsAt openBlock 4 = [.expectedSemicolonAfterExpression, .expectedClosingBrace] ∧
      2 < (beforeEnd openBlock).length ∧ (faultsAt openBlock 2).length ≤ 1 ∧
      (parse openBlock).errors.length ≤ (beforeEnd openBlock).length + (maxNesting + 1) := by
  have hplace : 2 < (beforeEnd openBlock).length := by decide
  obtain ⟨-, honce, -, -, hle⟩ := parse_blames_once openBlock
  exact ⟨by decide +kernel, by decide +kernel, hplace, honce 2 hplace, hle⟩

end Scriptlet
