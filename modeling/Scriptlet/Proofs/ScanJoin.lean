import Scriptlet.Proofs.LineShift
import Scriptlet.Source.Scan

/-!
# Scanning texts joined by a newline

A text that leaves no string open is cut in the same way whatever follows it from the next line
on, since of all lexemes only strings go over the end of a line. What follows is cut in the same
way too, on lines further down.
-/

namespace Scriptlet

section stop
variable {p : Char → Bool} {c : Char}

lemma takeWhile_append_stop (hc : p c = false) (l r : List Char) :
    (l ++ c :: r).takeWhile p = l.takeWhile p := by
  induction l with
  | nil => rw [List.nil_append, List.takeWhile_cons, hc, List.takeWhile_nil]; rfl
  | cons x l ih => rw [List.cons_append, List.takeWhile_cons, List.takeWhile_cons, ih]

lemma dropWhile_append_stop (hc : p c = false) (l r : List Char) :
    (l ++ c :: r).dropWhile p = l.dropWhile p ++ c :: r := by
  induction l with
  | nil => rw [List.nil_append, List.dropWhile_cons, hc]; rfl
  | cons x l ih =>
    rw [List.cons_append, List.dropWhile_cons, List.dropWhile_cons, ih]
    split <;> rfl

end stop

namespace Piece
variable {c : Char} {rest : List Char} (more : List Char)

lemma number_append : number c (rest ++ '\n' :: more) = number c rest := by
  have hstop : Char.isDigit '\n' = false := rfl
  unfold number
  rw [takeWhile_append_stop hstop, dropWhile_append_stop hstop]
  rcases rest.dropWhile Char.isDigit with _ | ⟨x, _ | ⟨d, tail⟩⟩
  · rfl
  · by_cases hx : x = '.'
    · subst hx
      rfl
    · simp [hx]
  · by_cases hx : x = '.'
    · subst hx
      simp only [List.cons_append, takeWhile_append_stop hstop]
    · simp [hx]

lemma word_append : word c (rest ++ '\n' :: more) = word c rest := by
  unfold word
  rw [takeWhile_append_stop rfl]

lemma quoted_append (h : (quoted rest).kind ≠ .unterminated) :
    quoted (rest ++ more) = quoted rest := by
  have hrest : ∃ front back, rest = front ++ '"' :: back := by
    cases hd : rest.dropWhile (· != '"') with
    | nil =>
      unfold quoted at h
      rw [hd] at h
      exact absurd rfl h
    | cons q back =>
      have hq := List.head?_dropWhile_not (· != '"') rest
      rw [hd] at hq
      have hquote : q = '"' := by simpa using hq
      rw [hquote] at hd
      refine ⟨rest.takeWhile (· != '"'), back, ?_⟩
      rw [← hd, List.takeWhile_append_dropWhile]
  obtain ⟨front, back, rfl⟩ := hrest
  have htake (l : List Char) : (front ++ '"' :: l).takeWhile (· != '"') =
      front.takeWhile (· != '"') := takeWhile_append_stop rfl front l
  have hdrop (l : List Char) : (front ++ '"' :: l).dropWhile (· != '"') =
      front.dropWhile (· != '"') ++ '"' :: l := dropWhile_append_stop rfl front l
  unfold quoted
  rw [List.append_assoc, List.cons_append, htake, htake, hdrop, hdrop]
  cases front.dropWhile (· != '"') <;> rfl

lemma symbol_append : symbol c (rest ++ '\n' :: more) = symbol c rest := by
  unfold symbol
  cases Symbol.single? c with
  | none => rfl
  | some s =>
    dsimp only
    cases s.withEqual? with
    | none => rfl
    | some t =>
      cases rest with
      | nil => rfl
      | cons x rest =>
        by_cases hx : x = '='
        · subst hx
          rfl
        · simp [hx]

lemma first_append (h : (first c rest).kind ≠ .unterminated) :
    first c (rest ++ '\n' :: more) = first c rest := by
  have hhead : ((rest ++ '\n' :: more).head? == some '/') = (rest.head? == some '/') := by
    cases rest <;> rfl
  unfold first at h ⊢
  rw [hhead, takeWhile_append_stop rfl, number_append, word_append, symbol_append]
  by_cases hb : isBlank c
  · rw [if_pos hb, if_pos hb]
  · rw [if_neg hb] at h ⊢
    rw [if_neg hb]
    by_cases hs : (c == '/' && rest.head? == some '/')
    · rw [if_pos hs, if_pos hs]
    · rw [if_neg hs] at h ⊢
      rw [if_neg hs]
      by_cases hq : c == '"'
      · -- only here could the piece go on behind the newline
        rw [if_pos hq] at h ⊢
        rw [if_pos hq, quoted_append _ h]
      · rw [if_neg hq, if_neg hq]

lemma length_text_first (c : Char) (rest : List Char) :
    (first c rest).text.length - 1 ≤ rest.length := by
  obtain ⟨more, h⟩ := first_text c rest
  have hlen := congrArg List.length h
  rw [List.length_cons, List.length_append] at hlen
  omega

lemma kind_first_ne (c : Char) (rest : List Char) :
    (first c rest).kind ≠ .lexeme .endOfInput := by
  unfold first symbol word number quoted
  repeat' split
  all_goals simp [TokenKind.ofWord]
  split <;> simp

lemma token?_add (p : Piece) (line k : Nat) :
    p.token? (line + k) = (p.token? line).map (Token.down k) := by
  unfold token?
  split <;> rfl

end Piece

def ScanError.down (k : Nat) (e : ScanError) : ScanError := { e with line := e.line + k }

lemma Piece.error?_add (p : Piece) (line k : Nat) :
    p.error? (line + k) = (p.error? line).map (ScanError.down k) := by
  unfold error?
  split <;> rfl

lemma pieces_append {cs : List Char} (h : ∀ p ∈ pieces cs, p.kind ≠ .unterminated)
    (ds : List Char) :
    pieces (cs ++ '\n' :: ds) = pieces cs ++ ⟨.blank, ['\n']⟩ :: pieces ds := by
  fun_induction pieces cs with
  | case1 =>
    rw [List.nil_append, pieces]
    rfl
  | case2 c rest ih =>
    rw [List.forall_mem_cons] at h
    rw [List.cons_append, pieces, Piece.first_append ds h.1,
      List.drop_append_of_le_length (Piece.length_text_first c rest), ih h.2, List.cons_append]

lemma pieces_kind_ne {cs : List Char} : ∀ p ∈ pieces cs, p.kind ≠ .lexeme .endOfInput := by
  fun_induction pieces cs with
  | case1 => intro p hp; cases hp
  | case2 c rest ih => exact List.forall_mem_cons.mpr ⟨Piece.kind_first_ne c rest, ih⟩

section lines
variable (line k : Nat) (ps qs : List Piece)

lemma map_fst_withLines : (withLines line ps).map Prod.fst = ps := by
  induction ps generalizing line with
  | nil => rfl
  | cons p ps ih => rw [withLines, List.map_cons, ih]

lemma withLines_append :
    withLines line (ps ++ qs) =
      withLines line ps ++ withLines (line + (ps.flatMap Piece.text).count '\n') qs := by
  induction ps generalizing line with
  | nil => rfl
  | cons p ps ih =>
    rw [List.cons_append, withLines, ih, withLines, List.flatMap_cons, List.count_append,
      ← Nat.add_assoc]
    rfl

lemma withLines_add :
    withLines (line + k) ps = (withLines line ps).map (fun (p, l) => (p, l + k)) := by
  induction ps generalizing line with
  | nil => rfl
  | cons p ps ih =>
    rw [withLines, withLines, List.map_cons, Nat.add_right_comm, ih]

end lines

lemma filterMap_join {β : Type} {f : Piece × Nat → Option β} {down : Nat → β → β}
    (hblank : ∀ l, f (⟨.blank, ['\n']⟩, l) = none)
    (hdown : ∀ p l k, f (p, l + k) = (f (p, l)).map (down k)) {cs : List Char}
    (h : ∀ p ∈ pieces cs, p.kind ≠ .unterminated) (ds : List Char) :
    (withLines 1 (pieces (cs ++ '\n' :: ds))).filterMap f =
      (withLines 1 (pieces cs)).filterMap f ++
        ((withLines 1 (pieces ds)).filterMap f).map (down (1 + cs.count '\n')) := by
  have hline : 1 + cs.count '\n' + (Piece.mk .blank ['\n']).newlines =
      1 + (1 + cs.count '\n') := Nat.add_comm _ _
  have hf : f ∘ (fun (p, l) => (p, l + (1 + cs.count '\n'))) =
      fun x => (f x).map (down (1 + cs.count '\n')) := by
    funext ⟨p, l⟩
    exact hdown p l _
  rw [pieces_append h, withLines_append, flatMap_text_pieces, withLines, List.filterMap_append,
    List.filterMap_cons, hblank, hline, withLines_add, List.filterMap_map, hf, List.map_filterMap]

lemma beforeEnd_scan (source : String) :
    beforeEnd (scan source).tokens =
      (withLines 1 (pieces source.toList)).filterMap (fun (p, line) => p.token? line) := by
  have hkind : ∀ t ∈ (withLines 1 (pieces source.toList)).filterMap
      (fun (p, line) => p.token? line), (t.kind != .endOfInput) = true := by
    intro t ht
    obtain ⟨⟨p, line⟩, hmem, htoken⟩ := List.mem_filterMap.mp ht
    have hp : p ∈ pieces source.toList := by
      rw [← map_fst_withLines 1 (pieces source.toList)]
      exact List.mem_map_of_mem hmem
    have hne := pieces_kind_ne p hp
    unfold Piece.token? at htoken
    dsimp only at htoken
    split at htoken
    · rename_i kind hk
      cases htoken
      rw [hk] at hne
      exact bne_iff_ne.mpr (fun h => hne (congrArg PieceKind.lexeme h))
    · cases htoken
  unfold beforeEnd scan
  dsimp only
  rw [List.takeWhile_append_of_pos hkind]
  exact List.append_nil _

lemma not_unterminated {source : String}
    (h : ∀ e ∈ (scan source).errors, e.fault ≠ .unterminated) :
    ∀ p ∈ pieces source.toList, p.kind ≠ .unterminated := by
  intro p hp hkind
  rw [← map_fst_withLines 1 (pieces source.toList)] at hp
  obtain ⟨⟨p, line⟩, hmem, rfl⟩ := List.mem_map.mp hp
  have herror : p.error? line = some ⟨line, .unterminated⟩ := by
    unfold Piece.error?
    rw [hkind]
  exact h _ (List.mem_filterMap.mpr ⟨_, hmem, herror⟩) rfl

/-- A text that leaves no string open is scanned as if nothing followed it, and the text below it
as if it stood alone, but for the numbers of its lines. -/
theorem scan_join {a : String} (h : ∀ e ∈ (scan a).errors, e.fault ≠ .unterminated)
    (b : String) :
    beforeEnd (scan (a ++ "\n" ++ b)).tokens =
        beforeEnd (scan a).tokens ++
          (beforeEnd (scan b).tokens).map (Token.down (1 + a.toList.count '\n')) ∧
      (scan (a ++ "\n" ++ b)).errors =
        (scan a).errors ++ (scan b).errors.map (ScanError.down (1 + a.toList.count '\n')) := by
  have hlist : (a ++ "\n" ++ b).toList = a.toList ++ '\n' :: b.toList := by
    rw [String.toList_append, String.toList_append, List.append_assoc]
    rfl
  have hclosed := not_unterminated h
  constructor
  · rw [beforeEnd_scan, beforeEnd_scan, beforeEnd_scan, hlist]
    exact filterMap_join (fun _ => rfl) (fun p l k => p.token?_add l k) hclosed b.toList
  · unfold scan
    rw [hlist]
    exact filterMap_join (fun _ => rfl) (fun p l k => p.error?_add l k) hclosed b.toList

end Scriptlet
