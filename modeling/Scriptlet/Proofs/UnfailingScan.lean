import Scriptlet.Proofs.LineNumbers
import Scriptlet.Proofs.ScannerPieces

/-!
# Scanning never fails

With nothing promised about its slices, its cursor and its loops, the scanner goes over a source
piece by piece. So every round takes at least one character over, start and cursor stay in the
source, and all that is sliced out lies in it. A string that is left open reaches to the end of the
source, and its round is the last one.
-/

namespace Scriptlet

/-- The round that goes over a piece. -/
def Piece.round (read : String → Option Float) (p : Piece) (place line : Nat) : Round :=
  ⟨place, place + p.text.length, p.tokens read line, p.errors read line⟩

/-- The rounds over pieces that are numbered already, from `place` on. -/
def roundsOver (read : String → Option Float) (place : Nat) : List (Piece × Nat) → List Round
  | [] => []
  | (p, line) :: ps => p.round read place line :: roundsOver read (place + p.text.length) ps

namespace Scanner

def restarted (s : Scanner) : Scanner :=
  { s with start := s.current, places := s.places ++ [(s.current, s.current)] }

/-- The scanner when it has gone over a piece. -/
def passed (read : String → Option Float) (s : Scanner) (p : Piece) : Scanner :=
  (s.restarted.moved p.text.length p.newlines).put (p.tokens read (s.line + p.newlines))
    (p.errors read (s.line + p.newlines))

/-- The same scanner, with the round written down. -/
def behind (read : String → Option Float) (s : Scanner) (p : Piece) : Scanner :=
  { s.passed read p with rounds := s.rounds ++ [p.round read s.current (s.line + p.newlines)] }

/-- The scanner behind all pieces of a source. -/
def walked (read : String → Option Float) (source : String) : Scanner :=
  (pieces source.toList).foldl (behind read) (.before source.toList)

end Scanner

section walk
variable {read : String → Option Float} {s : Scanner} {c : Char} {rest : List Char}
  {limit rounds : Nat}

namespace Scanning

lemma atEnd_of_left (h : s.source.drop s.current = rest) : atEnd s = some (rest.isEmpty, s) := by
  have hend : decide (s.source.length ≤ s.current) = rest.isEmpty := by
    rw [← h, Bool.eq_iff_iff, List.isEmpty_iff, List.drop_eq_nil_iff, decide_eq_true_iff]
  unfold atEnd
  rw [hend]

lemma round_of_left (h : s.source.drop s.current = c :: rest) (hlimit : rest.length < limit) :
    round read limit s = some ((), s.passed read (Piece.first c rest)) := by
  have hover : s.restarted.Over [] (c :: rest) := ⟨h, rfl⟩
  have hlength : 1 + ((Piece.first c rest).text.length - 1) = (Piece.first c rest).text.length :=
    Nat.add_sub_cancel' (List.length_pos_iff.mpr (Piece.first_text_ne_nil c rest))
  have hrestart : restart s = some ((), s.restarted) := rfl
  unfold round
  rw [bind_of_eq hrestart, bind_of_eq (advance_of_over hover)]
  refine (completes_token (hover.next 0) hlimit).trans ?_
  rw [Scanner.moved_moved, hlength, Nat.zero_add]
  rfl

lemma recorded_of_left (h : s.source.drop s.current = c :: rest) (hlimit : rest.length < limit) :
    recorded (round read limit) s = some ((), s.behind read (Piece.first c rest)) := by
  -- what the round has added is what stands behind the tokens and errors of before
  have hadded : Round.mk s.current (s.passed read (Piece.first c rest)).current
      ((s.passed read (Piece.first c rest)).tokens.drop s.tokens.length)
      ((s.passed read (Piece.first c rest)).errors.drop s.errors.length) =
        (Piece.first c rest).round read s.current (s.line + (Piece.first c rest).newlines) :=
    congrArg₂ (Round.mk _ _) List.drop_left List.drop_left
  unfold recorded
  rw [bind_of_eq (get_eq s), bind_of_eq (round_of_left h hlimit)]
  exact congrArg (fun r => some ((), { s.passed read (Piece.first c rest) with
    rounds := s.rounds ++ [r] })) hadded

lemma repeated_of_left (h : s.source.drop s.current = rest) (hlimit : rest.length ≤ limit)
    (hrounds : rest.length < rounds) :
    repeated (round read limit) rounds s =
      some ((), (pieces rest).foldl (Scanner.behind read) s) := by
  induction rounds generalizing s rest with
  | zero => exact absurd hrounds (Nat.not_lt_zero _)
  | succ rounds ih =>
    rw [repeated, bind_of_eq (atEnd_of_left h)]
    cases rest with
    | nil =>
      rw [pieces]
      rfl
    | cons c rest =>
      obtain ⟨d, text, htext⟩ := List.exists_cons_of_ne_nil (Piece.first_text_ne_nil c rest)
      have hleft : (s.behind read (Piece.first c rest)).source.drop
          (s.behind read (Piece.first c rest)).current =
            rest.drop ((Piece.first c rest).text.length - 1) := by
        change s.source.drop (s.current + (Piece.first c rest).text.length) = _
        rw [← List.drop_drop, h, htext, List.length_cons, List.drop_succ_cons, Nat.add_sub_cancel]
      have hless : (rest.drop ((Piece.first c rest).text.length - 1)).length ≤ rest.length := by
        rw [List.length_drop]
        exact Nat.sub_le _ _
      rw [List.isEmpty_cons, if_neg Bool.false_ne_true,
        bind_of_eq (recorded_of_left h hlimit), pieces, List.foldl_cons]
      exact ih hleft (hless.trans (Nat.le_of_succ_le hlimit))
        (hless.trans_lt (Nat.lt_of_succ_lt_succ hrounds))

end Scanning

lemma scanWalking_eq {source : String} (hrounds : source.length < rounds) :
    scanWalking read rounds source = some
      ((Scanner.walked read source).put [.endOfInput (Scanner.walked read source).line] []) := by
  have hleft : (Scanner.before source.toList).source.drop 0 = source.toList := rfl
  have hlength : source.toList.length < rounds := by
    rw [String.length_toList]
    exact hrounds
  unfold scanWalking
  rw [Scanning.bind_of_eq (Scanning.repeated_of_left hleft hlength.le hlength), Scanner.put,
    List.append_nil]
  rfl

end walk

section facts
variable {read : String → Option Float} {s : Scanner} {ps : List Piece} {place line : Nat}

namespace Scanner

lemma source_foldl (ps : List Piece) (s : Scanner) :
    (ps.foldl (behind read) s).source = s.source := by
  induction ps generalizing s with
  | nil => rfl
  | cons p ps ih => exact ih _

lemma line_foldl (ps : List Piece) (s : Scanner) :
    (ps.foldl (behind read) s).line = s.line + (ps.flatMap Piece.text).count '\n' := by
  induction ps generalizing s with
  | nil => rfl
  | cons p ps ih =>
    rw [List.foldl_cons, ih, List.flatMap_cons, List.count_append, ← Nat.add_assoc]
    rfl

lemma rounds_foldl (ps : List Piece) (s : Scanner) :
    (ps.foldl (behind read) s).rounds =
      s.rounds ++ roundsOver read s.current (withLines s.line ps) := by
  induction ps generalizing s with
  | nil => exact (List.append_nil _).symm
  | cons p ps ih =>
    rw [List.foldl_cons, ih, withLines, roundsOver, List.append_cons]
    rfl

lemma tally_foldl (htokens : s.tokens = s.rounds.flatMap Round.tokens)
    (herrors : s.errors = s.rounds.flatMap Round.errors) :
    (ps.foldl (behind read) s).tokens = (ps.foldl (behind read) s).rounds.flatMap Round.tokens ∧
      (ps.foldl (behind read) s).errors =
        (ps.foldl (behind read) s).rounds.flatMap Round.errors := by
  induction ps generalizing s with
  | nil => exact ⟨htokens, herrors⟩
  | cons p ps ih =>
    refine ih ?_ ?_
    · change s.tokens ++ _ = (s.rounds ++ [_]).flatMap Round.tokens
      rw [List.flatMap_append, List.flatMap_singleton, htokens]
      rfl
    · change s.errors ++ _ = (s.rounds ++ [_]).flatMap Round.errors
      rw [List.flatMap_append, List.flatMap_singleton, herrors]
      rfl

/-- Start and cursor have been in order and in the source. -/
def Inside (s : Scanner) : Prop :=
  ∀ place ∈ s.places, place.1 ≤ place.2 ∧ place.2 ≤ s.source.length

lemma Inside.behind {p : Piece} (h : s.Inside)
    (hroom : s.current + p.text.length ≤ s.source.length) : (s.behind read p).Inside := by
  intro place hplace
  change place ∈ s.places ++ [(s.current, s.current)] ++
    (List.range p.text.length).map (fun i => (s.current, s.current + i + 1)) at hplace
  change place.1 ≤ place.2 ∧ place.2 ≤ s.source.length
  rw [List.mem_append, List.mem_append, List.mem_singleton, List.mem_map] at hplace
  rcases hplace with (hplace | rfl) | ⟨i, hi, rfl⟩
  · exact h place hplace
  · dsimp only
    omega
  · have hlt := List.mem_range.mp hi
    dsimp only
    omega

lemma Inside.foldl (h : s.Inside)
    (hroom : s.current + (ps.flatMap Piece.text).length ≤ s.source.length) :
    (ps.foldl (Scanner.behind read) s).Inside := by
  induction ps generalizing s with
  | nil => exact h
  | cons p ps ih =>
    rw [List.flatMap_cons, List.length_append, ← Nat.add_assoc] at hroom
    exact ih (h.behind (Nat.le_of_add_right_le hroom)) hroom

end Scanner

lemma flatMap_roundsOver {β : Type} {f : Round → List β} {g : Piece → Nat → List β}
    (hf : ∀ p place line, f (p.round read place line) = g p line) (place : Nat)
    (ps : List (Piece × Nat)) :
    (roundsOver read place ps).flatMap f = ps.flatMap (fun x => g x.1 x.2) := by
  induction ps generalizing place with
  | nil => rfl
  | cons x ps ih => rw [roundsOver, List.flatMap_cons, List.flatMap_cons, hf, ih]

lemma exists_of_mem_roundsOver {ps : List (Piece × Nat)} {r : Round}
    (hr : r ∈ roundsOver read place ps) :
    ∃ x ∈ ps, ∃ place, r = x.1.round read place x.2 := by
  induction ps generalizing place with
  | nil => cases hr
  | cons x ps ih =>
    rw [roundsOver, List.mem_cons] at hr
    rcases hr with rfl | hr
    · exact ⟨x, List.mem_cons_self, place, rfl⟩
    · obtain ⟨y, hy, hplace⟩ := ih hr
      exact ⟨y, List.mem_cons_of_mem x hy, hplace⟩

lemma mem_of_mem_withLines {x : Piece × Nat} (h : x ∈ withLines line ps) : x.1 ∈ ps := by
  rw [← map_fst_withLines line ps]
  exact List.mem_map_of_mem h

end facts

namespace Piece
variable {read : String → Option Float} {p : Piece} {line : Nat}

lemma fault_of_mem_errors {e : ScannerError} (h : e ∈ p.errors read line) :
    (p.Unread read ∧ e.fault = .invalidNumber (String.ofList p.text)) ∨
      (∃ c, e.fault = .known (.unexpected c)) ∨
        (p.kind = .unterminated ∧ e.fault = .known .unterminated) := by
  by_cases hunread : p.Unread read
  · rw [errors, if_pos hunread, List.mem_singleton] at h
    exact Or.inl ⟨hunread, h ▸ rfl⟩
  · rw [errors_of_read hunread, Option.mem_toList, Option.map_eq_some_iff] at h
    obtain ⟨d, hd, rfl⟩ := h
    unfold error? at hd
    split at hd
    · rename_i c _ _ _
      cases hd
      exact Or.inr (Or.inl ⟨c, rfl⟩)
    · rename_i hkind
      cases hd
      exact Or.inr (Or.inr ⟨hkind, rfl⟩)
    · cases hd

lemma kind_of_unterminated {e : ScannerError} (h : e ∈ p.errors read line)
    (hfault : e.fault = .known .unterminated) : p.kind = .unterminated := by
  rcases fault_of_mem_errors h with ⟨-, hinvalid⟩ | ⟨c, hc⟩ | ⟨hkind, -⟩
  · cases hfault.symm.trans hinvalid
  · cases hfault.symm.trans hc
  · exact hkind

lemma tokens_of_unterminated (h : p.kind = .unterminated) : p.tokens read line = [] := by
  rw [tokens_of_read (not_unread (h ▸ nofun)), token?, h]
  rfl

lemma pairwise_errors (R : ScannerError → ScannerError → Prop) :
    (p.errors read line).Pairwise R := by
  unfold errors
  split
  · exact List.pairwise_singleton _ _
  · cases (p.error? line).map ScanError.known with
    | none => exact List.Pairwise.nil
    | some e => exact List.pairwise_singleton _ _

end Piece

/-- A round that reports an open string. -/
def Round.ReportsOpen (r : Round) : Prop := ∃ e ∈ r.errors, e.fault = .known .unterminated

section last
variable {read : String → Option Float} {s : Scanner} {ps : List Piece} {place line : Nat}

lemma pairwise_roundsOver (h : CutAll ps) :
    (roundsOver read place (withLines line ps)).Pairwise (fun r _ => ¬ r.ReportsOpen) := by
  induction ps generalizing place line with
  | nil => exact List.Pairwise.nil
  | cons p ps ih =>
    obtain ⟨hcut, hall⟩ := h
    refine List.Pairwise.cons (fun r hr => ?_) (ih hall)
    -- an open string leaves nothing behind it, and no piece is empty
    rintro ⟨e, he, hfault⟩
    obtain ⟨⟨q, l⟩, hq, -⟩ := exists_of_mem_roundsOver hr
    obtain ⟨more, hmore⟩ := hall.forall_cut q (mem_of_mem_withLines hq)
    have hnil := hcut.nil_of_unterminated (Piece.kind_of_unterminated he hfault)
    exact hmore.text_ne_nil (List.flatMap_eq_nil_iff.mp hnil q (mem_of_mem_withLines hq))

lemma eq_nil_of_pairwise {α : Type} {P : α → Prop} {l before after : List α} {a : α}
    (h : l.Pairwise (fun x _ => ¬ P x)) (hl : l = before ++ a :: after) (ha : P a) :
    after = [] := by
  rw [hl, List.pairwise_append, List.pairwise_cons] at h
  exact List.eq_nil_iff_forall_not_mem.mpr fun x hx => h.2.1.1 x hx ha

end last

lemma flatMap_lined {α β : Type} {f : Piece → Nat → Option α} {g : α → β}
    {h : Piece → Nat → List β} {ps : List (Piece × Nat)}
    (hsame : ∀ x ∈ ps, h x.1 x.2 = ((f x.1 x.2).map g).toList) :
    ps.flatMap (fun x => h x.1 x.2) = (ps.filterMap (fun x => f x.1 x.2)).map g := by
  rw [List.map_filterMap, List.filterMap_eq_flatMap_toList]
  exact List.flatMap_congr hsame

namespace Scanner
variable {read : String → Option Float} {source : String}

lemma rounds_walked (read : String → Option Float) (source : String) :
    (walked read source).rounds = roundsOver read 0 (withLines 1 (pieces source.toList)) :=
  rounds_foldl _ _

lemma inside_walked (read : String → Option Float) (source : String) :
    (walked read source).Inside := by
  refine Inside.foldl ?_ ?_
  · intro place hplace
    obtain rfl := List.mem_singleton.mp hplace
    exact ⟨Nat.le_refl 0, Nat.zero_le _⟩
  · rw [flatMap_text_pieces]
    exact (Nat.zero_add _).le

lemma tally_walked (read : String → Option Float) (source : String) :
    (walked read source).tokens = (walked read source).rounds.flatMap Round.tokens ∧
      (walked read source).errors = (walked read source).rounds.flatMap Round.errors :=
  tally_foldl rfl rfl

lemma piece_of_round {r : Round} (hr : r ∈ (walked read source).rounds) :
    ∃ (p : Piece) (place line : Nat), p.text ≠ [] ∧ r = p.round read place line := by
  rw [rounds_walked] at hr
  obtain ⟨⟨p, line⟩, hx, place, rfl⟩ := exists_of_mem_roundsOver hr
  obtain ⟨more, hcut⟩ := (cutAll_pieces source.toList).forall_cut p (mem_of_mem_withLines hx)
  exact ⟨p, place, line, hcut.text_ne_nil, rfl⟩

lemma pairwise_rounds_walked (read : String → Option Float) (source : String) :
    (walked read source).rounds.Pairwise (fun r _ => ¬ r.ReportsOpen) := by
  rw [rounds_walked]
  exact pairwise_roundsOver (cutAll_pieces source.toList)

lemma pairwise_errors_walked (read : String → Option Float) (source : String) :
    (walked read source).errors.Pairwise (fun e _ => ¬ e.fault = .known .unterminated) := by
  rw [(tally_walked read source).2, List.pairwise_flatMap]
  refine ⟨fun r hr => ?_, (pairwise_rounds_walked read source).imp ?_⟩
  · obtain ⟨p, place, line, -, rfl⟩ := piece_of_round hr
    exact Piece.pairwise_errors _
  · exact fun hclosed e he _ _ hfault => hclosed ⟨e, he, hfault⟩

section reads
variable (hread : ∀ text, Lexeme .number text → (read (String.ofList text)).isSome)
include hread

lemma not_unread_of_reads {line : Nat} {x : Piece × Nat}
    (hx : x ∈ withLines line (pieces source.toList)) : ¬ x.1.Unread read := by
  obtain ⟨p, l⟩ := x
  rintro ⟨hkind, hnone⟩
  obtain ⟨more, hcut⟩ := (cutAll_pieces source.toList).forall_cut p (mem_of_mem_withLines hx)
  have hlexeme : Lexeme .number p.text := by
    cases hcut with
    | lexeme isLexeme => exact PieceKind.lexeme.inj hkind ▸ isLexeme
    | _ => cases hkind
  have hsome := hread _ hlexeme
  rw [hnone] at hsome
  cases hsome

lemma tokens_walked (source : String) : (walked read source).tokens ++
    [.endOfInput (walked read source).line] = (scan source).tokens.map (Token.readBy read) := by
  have hline : (walked read source).line = 1 + source.toList.count '\n' := by
    unfold walked
    rw [line_foldl, flatMap_text_pieces]
    rfl
  have htokens : (walked read source).tokens =
      (beforeEnd (scan source).tokens).map (Token.readBy read) := by
    rw [(tally_walked read source).1, rounds_walked, beforeEnd_scan,
      flatMap_roundsOver (g := fun p line => p.tokens read line) (fun _ _ _ => rfl)]
    exact flatMap_lined (f := Piece.token?) (h := fun p line => p.tokens read line)
      fun x hx => Piece.tokens_of_read (not_unread_of_reads hread hx) x.2
  rw [tokens_scan, List.map_append, htokens, hline]
  rfl

lemma errors_walked (source : String) :
    (walked read source).errors = (scan source).errors.map ScanError.known := by
  rw [(tally_walked read source).2, rounds_walked,
    flatMap_roundsOver (g := fun p line => p.errors read line) (fun _ _ _ => rfl)]
  exact flatMap_lined (f := Piece.error?) (h := fun p line => p.errors read line)
    fun x hx => Piece.errors_of_read (not_unread_of_reads hread hx) x.2

end reads
end Scanner

lemma Piece.readBy_token? {p : Piece} {line : Nat} {t : Token} (h : p.token? line = some t) :
    t.readBy (fun text => some (Piece.numberValue text.toList)) = t := by
  unfold token? at h
  split at h
  · rename_i kind _
    cases h
    unfold Token.readBy
    split
    · rename_i hkind
      obtain rfl : kind = .number := hkind
      rw [Option.map_some, String.toList_ofList, literal?]
    · rfl
  · cases h

/-- Where the value of a number is the one a scan gives, the scanner ends with the tokens and the
errors of the scan. -/
theorem scanWalking_eq_scan {rounds : Nat} {source : String} (hrounds : source.length < rounds) :
    ∃ s, scanWalking (fun text => some (Piece.numberValue text.toList)) rounds source = some s ∧
      s.tokens = (scan source).tokens ∧ s.errors = (scan source).errors.map ScanError.known := by
  have hkept : ∀ t ∈ (scan source).tokens,
      t.readBy (fun text => some (Piece.numberValue text.toList)) = t := by
    rw [tokens_scan, beforeEnd_scan]
    refine List.forall_mem_append.mpr ⟨fun t ht => ?_, List.forall_mem_singleton.mpr rfl⟩
    obtain ⟨x, -, hx⟩ := List.mem_filterMap.mp ht
    exact Piece.readBy_token? hx
  refine ⟨_, scanWalking_eq hrounds, ?_, ?_⟩
  · refine (Scanner.tokens_walked (fun _ _ => rfl) source).trans ?_
    rw [List.map_congr_left hkept, List.map_id']
  · exact (List.append_nil _).trans (Scanner.errors_walked (fun _ _ => rfl) source)

/-- A source of any sort is scanned to its end, whatever numbers can be read, and all that is sliced
out lies in it. Start and cursor are always in order and in the source, every round takes at least
one character over, and the rounds add all there is but the end of input. An open string is
reported last, by the last round, which adds no token. When the texts of all numbers can be read,
the scanner finds what a scan finds, and reports nothing but unexpected characters and an open
string. -/
theorem scanWalking_unfailing (read : String → Option Float) {rounds : Nat} {source : String}
    (hrounds : source.length < rounds) :
    ∃ s, scanWalking read rounds source = some s ∧
      ((∀ place ∈ s.places, place.1 ≤ place.2 ∧ place.2 ≤ source.length) ∧
        ∀ r ∈ s.rounds, r.began < r.ended) ∧
      (s.tokens = s.rounds.flatMap Round.tokens ++ [.endOfInput s.line] ∧
        s.errors = s.rounds.flatMap Round.errors) ∧
      ((∀ before e after, s.errors = before ++ e :: after →
          e.fault = .known .unterminated → after = []) ∧
        ∀ before r after, s.rounds = before ++ r :: after →
          (∃ e ∈ r.errors, e.fault = .known .unterminated) → r.tokens = [] ∧ after = []) ∧
      ((∀ text, Lexeme .number text → (read (String.ofList text)).isSome) →
        (s.tokens = (scan source).tokens.map (Token.readBy read) ∧
          s.errors = (scan source).errors.map ScanError.known) ∧
        ∀ e ∈ s.errors,
          (∃ c : Char, e.fault = .known (.unexpected c) ∧
            e.fault.message = "unexpected character '" ++ c.toString ++ "'.") ∨
          (e.fault = .known .unterminated ∧ e.fault.message = "unterminated string.")) := by
  have hsource : (Scanner.walked read source).source.length = source.length := by
    rw [Scanner.walked, Scanner.source_foldl]
    exact String.length_toList
  have htally := Scanner.tally_walked read source
  have herrors : ((Scanner.walked read source).put
      [.endOfInput (Scanner.walked read source).line] []).errors =
        (Scanner.walked read source).errors := List.append_nil _
  refine ⟨_, scanWalking_eq hrounds, ⟨?_, ?_⟩, ⟨?_, ?_⟩, ⟨?_, ?_⟩, fun hread => ⟨⟨?_, ?_⟩, ?_⟩⟩
  · rw [← hsource]
    exact Scanner.inside_walked read source
  · intro r hr
    obtain ⟨p, place, line, htext, rfl⟩ := Scanner.piece_of_round hr
    exact Nat.lt_add_of_pos_right (List.length_pos_iff.mpr htext)
  · exact congrArg (· ++ _) htally.1
  · exact herrors.trans htally.2
  · intro before e after hsplit
    exact eq_nil_of_pairwise (Scanner.pairwise_errors_walked read source)
      (herrors.symm.trans hsplit)
  · intro before r after hsplit hopen
    have hr : r ∈ (Scanner.walked read source).rounds := hsplit ▸ List.mem_append_cons_self
    obtain ⟨p, place, line, -, rfl⟩ := Scanner.piece_of_round hr
    obtain ⟨e, he, hfault⟩ := hopen
    exact ⟨Piece.tokens_of_unterminated (Piece.kind_of_unterminated he hfault),
      eq_nil_of_pairwise (Scanner.pairwise_rounds_walked read source) hsplit ⟨e, he, hfault⟩⟩
  · exact Scanner.tokens_walked hread source
  · exact herrors.trans (Scanner.errors_walked hread source)
  · intro e he
    rw [herrors, Scanner.errors_walked hread] at he
    obtain ⟨d, -, rfl⟩ := List.mem_map.mp he
    obtain ⟨line, fault⟩ := d
    cases fault with
    | unexpected c => exact Or.inl ⟨c, rfl, rfl⟩
    | unterminated => exact Or.inr ⟨rfl, rfl⟩

/-- Reads what consists of digits and points. -/
def readDecimal (text : String) : Option Float :=
  if text.toList.all (fun c => c.isDigit || c == '.') then some (Piece.numberValue text.toList)
  else none

lemma isSome_readDecimal {text : List Char} (h : Lexeme .number text) :
    (readDecimal (String.ofList text)).isSome := by
  have hdigits {ds : List Char} (hds : ∀ x ∈ ds, IsDigit x) :
      ∀ x ∈ ds, (x.isDigit || x == '.') = true := fun x hx => by
    rw [isDigit_iff.mpr (hds x hx), Bool.true_or]
  have hall : text.all (fun c => c.isDigit || c == '.') = true := by
    rw [List.all_eq_true]
    cases h with
    | whole digits => exact hdigits digits
    | decimal digits fraction =>
      exact List.forall_mem_append.mpr
        ⟨hdigits digits, List.forall_mem_cons.mpr ⟨rfl, hdigits fraction⟩⟩
  rw [readDecimal, String.toList_ofList, if_pos hall]
  rfl

theorem scanWalking_unfailing_openString :
    "7.\n@\"a\nb".length < 9 ∧
      (∀ text, Lexeme .number text → (readDecimal (String.ofList text)).isSome) ∧
      ∃ s, scanWalking readDecimal 9 "7.\n@\"a\nb" = some s ∧
        s.tokens.map Token.kind = [.number, .symbol .dot, .endOfInput] ∧
        s.errors = [⟨2, .known (.unexpected '@')⟩, ⟨3, .known .unterminated⟩] ∧
        ∀ place ∈ s.places, place.2 ≤ 8 := by
  have hread : ∀ text, Lexeme .number text → (readDecimal (String.ofList text)).isSome :=
    fun _ h => isSome_readDecimal h
  have hrounds : "7.\n@\"a\nb".length < 9 := by decide
  have hkinds : (scan "7.\n@\"a\nb").tokens.map Token.kind =
      [.number, .symbol .dot, .endOfInput] := by decide +kernel
  have hfaults : (scan "7.\n@\"a\nb").errors = [⟨2, .unexpected '@'⟩, ⟨3, .unterminated⟩] := by
    decide +kernel
  have hkind (t : Token) : (Token.readBy readDecimal t).kind = t.kind := by
    unfold Token.readBy
    split <;> rfl
  obtain ⟨s, hs, ⟨hplaces, -⟩, -, -, hreads⟩ := scanWalking_unfailing readDecimal hrounds
  obtain ⟨⟨htokens, herrors⟩, -⟩ := hreads hread
  refine ⟨hrounds, hread, s, hs, ?_, ?_, fun place hplace => (hplaces place hplace).2⟩
  · rw [htokens, List.map_map, ← hkinds]
    exact List.map_congr_left fun t _ => hkind t
  · rw [herrors, hfaults]
    rfl

end Scriptlet
