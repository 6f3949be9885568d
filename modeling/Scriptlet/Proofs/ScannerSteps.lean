import Mathlib.Tactic.Lemma
import Scriptlet.Proofs.CursorScanner

/-!
# Steps of the scanner

A round has gone over some text of the source, and the rest of the source is left. Every step takes
characters over from the rest to the text. So the character that a step looks at is the first of
the rest or the one behind it, and what lies between start and cursor is there to be sliced out.
-/

namespace Scriptlet

namespace Scanner

/-- The scanner `n` characters and `lines` line breaks further on. -/
def moved (s : Scanner) (n lines : Nat) : Scanner :=
  { s with
    current := s.current + n
    line := s.line + lines
    places := s.places ++ (List.range n).map fun i => (s.start, s.current + i + 1) }

def put (s : Scanner) (tokens : List Token) (errors : List ScannerError) : Scanner :=
  { s with tokens := s.tokens ++ tokens, errors := s.errors ++ errors }

/-- The round has gone over `text`, and `rest` is left of the source. -/
structure Over (s : Scanner) (text rest : List Char) : Prop where
  source : s.source.drop s.start = text ++ rest
  current : s.current = s.start + text.length

section gone
variable {s : Scanner} {text rest w : List Char} {c : Char}

lemma moved_zero (s : Scanner) : s.moved 0 0 = s := by
  unfold moved
  rw [List.range_zero, List.map_nil, List.append_nil, Nat.add_zero, Nat.add_zero]

lemma moved_moved (s : Scanner) (m n k l : Nat) :
    (s.moved m k).moved n l = s.moved (m + n) (k + l) := by
  unfold moved
  rw [List.range_add, List.map_append, List.map_map, List.append_assoc]
  simp only [Nat.add_assoc, Function.comp_def]

lemma put_nil (s : Scanner) : s.put [] [] = s := by
  unfold put
  rw [List.append_nil, List.append_nil]

lemma Over.moved (h : s.Over text (w ++ rest)) (lines : Nat) :
    (s.moved w.length lines).Over (text ++ w) rest where
  source := by rw [List.append_assoc]; exact h.source
  current := by
    change s.current + w.length = s.start + (text ++ w).length
    rw [List.length_append, h.current, Nat.add_assoc]

lemma Over.next (h : s.Over text (c :: rest)) (lines : Nat) :
    (s.moved 1 lines).Over (text ++ [c]) rest :=
  Over.moved (w := [c]) h lines

lemma Over.broken (h : s.Over text rest) (lines : Nat) : (s.moved 0 lines).Over text rest :=
  ⟨h.source, h.current⟩

lemma Over.getElem? (h : s.Over text rest) (i : Nat) : s.source[s.current + i]? = rest[i]? := by
  rw [h.current, Nat.add_assoc, ← List.getElem?_drop, h.source,
    List.getElem?_append_right (Nat.le_add_right _ _), Nat.add_sub_cancel_left]

lemma Over.length (h : s.Over (c :: text) rest) : s.source.length = s.current + rest.length := by
  have hlength := congrArg List.length h.source
  rw [List.length_drop, List.length_append, List.length_cons] at hlength
  rw [h.current, List.length_cons]
  omega

end gone
end Scanner

namespace Scanning
variable {α β : Type} {read : String → Option Float} {s s' : Scanner} {text rest : List Char}
  {c : Char} {rounds : Nat}

lemma bind_of_eq {scan : Scanning α} {f : α → Scanning β} {a : α} (h : scan s = some (a, s')) :
    (scan >>= f) s = f a s' := by
  change (scan s >>= fun x => f x.1 x.2) = _
  rw [h]
  rfl

lemma get_eq (s : Scanner) : (get : Scanning Scanner) s = some (s, s) := rfl

lemma peek_of_over (h : s.Over text rest) : peek s = some (rest.head?, s) := by
  unfold peek
  rw [List.head?_eq_getElem?, ← h.getElem? 0, Nat.add_zero]

lemma peekNext_of_over (h : s.Over text rest) : peekNext s = some (rest[1]?, s) := by
  unfold peekNext
  rw [h.getElem? 1]

lemma moveOn_eq (s : Scanner) : moveOn s = some ((), s.moved 1 0) := rfl

lemma advance_of_over (h : s.Over text rest) : advance s = some (rest.head?, s.moved 1 0) := by
  unfold advance
  rw [bind_of_eq (peek_of_over h), bind_of_eq (moveOn_eq s)]
  rfl

lemma atEnd_of_over (h : s.Over (c :: text) rest) : atEnd s = some (rest.isEmpty, s) := by
  unfold atEnd
  rw [h.length]
  cases rest with
  | nil => simp
  | cons d rest => simp

lemma newLine_eq (s : Scanner) : newLine s = some ((), s.moved 0 1) := by
  unfold Scanner.moved
  rw [List.range_zero, List.map_nil, List.append_nil]
  rfl

lemma countLine_eq (c : Char) (s : Scanner) :
    countLine c s = some ((), s.moved 0 (if c == '\n' then 1 else 0)) := by
  unfold countLine
  by_cases hc : c = '\n'
  · rw [if_pos hc, if_pos (beq_iff_eq.mpr hc), newLine_eq]
  · rw [if_neg hc, if_neg (fun h => hc (beq_iff_eq.mp h)), Scanner.moved_zero]
    rfl

lemma accept_of_ne {expected : Char} (h : s.Over text rest) (hne : rest.head? ≠ some expected) :
    accept expected s = some (false, s) := by
  unfold accept
  rw [bind_of_eq (peek_of_over h), if_neg hne]
  rfl

lemma accept_of_eq {expected : Char} (h : s.Over text (expected :: rest)) :
    accept expected s = some (true, s.moved 1 0) := by
  unfold accept
  rw [bind_of_eq (peek_of_over h), List.head?_cons, if_pos rfl, bind_of_eq (moveOn_eq s)]
  rfl

lemma lexeme_of_over (h : s.Over (c :: text) rest) : lexeme s = some (c :: text, s) := by
  have hlast : s.start ≤ s.current ∧ s.current ≤ s.source.length := by
    rw [h.length]
    exact ⟨h.current ▸ Nat.le_add_right _ _, Nat.le_add_right _ _⟩
  unfold lexeme
  rw [bind_of_eq (get_eq s), slice, if_pos hlast, h.source, h.current, Nat.add_sub_cancel_left,
    List.take_left]

lemma inner_of_over {d : Char} (h : s.Over (c :: text ++ [d]) rest) :
    inner s = some (text, s) := by
  have hcurrent := h.current
  rw [List.length_append, List.length_cons, List.length_singleton] at hcurrent
  have hlength : s.source.length = s.current + rest.length := h.length
  have hrange : s.start + 1 ≤ s.current - 1 ∧ s.current - 1 ≤ s.source.length := by omega
  have hsize : s.current - 1 - (s.start + 1) = text.length := by omega
  unfold inner
  rw [bind_of_eq (get_eq s), if_neg (by omega), slice, if_pos hrange, hsize, ← List.drop_drop,
    h.source, List.cons_append, List.cons_append, List.drop_succ_cons, List.drop_zero,
    List.append_assoc, List.take_left]

lemma add_of_over (h : s.Over (c :: text) rest) (kind : TokenKind) (literal : Option Value) :
    add kind literal s =
      some ((), s.put [⟨kind, String.ofList (c :: text), literal, s.line⟩] []) := by
  unfold add
  rw [bind_of_eq (lexeme_of_over h), Scanner.put, List.append_nil]
  rfl

lemma report_eq (fault : ScannerFault) (s : Scanner) :
    report fault s = some ((), s.put [] [⟨s.line, fault⟩]) := by
  rw [Scanner.put, List.append_nil]
  rfl

lemma addNumber_of_some {number : Float} (h : read (String.ofList text) = some number) :
    addNumber read text = add .number (some (.number number)) := by
  unfold addNumber
  rw [h]

lemma addNumber_of_none (h : read (String.ofList text) = none) :
    addNumber read text = report (.invalidNumber (String.ofList text)) := by
  unfold addNumber
  rw [h]

lemma skipWhile_of_over {p : Char → Bool} (h : s.Over text rest) (hrounds : rest.length < rounds) :
    skipWhile p rounds s = some ((), s.moved (rest.takeWhile p).length 0) := by
  induction rounds generalizing s text rest with
  | zero => exact absurd hrounds (Nat.not_lt_zero _)
  | succ rounds ih =>
    rw [skipWhile, bind_of_eq (peek_of_over h)]
    cases rest with
    | nil => rw [List.takeWhile_nil, List.length_nil, Scanner.moved_zero]; rfl
    | cons d rest =>
      rw [List.head?_cons, Option.any_some, List.takeWhile_cons]
      cases hd : p d with
      | false => rw [if_neg Bool.false_ne_true, if_neg Bool.false_ne_true, List.length_nil,
          Scanner.moved_zero]; rfl
      | true =>
        rw [if_pos rfl, if_pos rfl, bind_of_eq (advance_of_over h),
          ih (h.next 0) (Nat.lt_of_succ_lt_succ hrounds), Scanner.moved_moved, List.length_cons,
          Nat.add_comm 1]

lemma skipString_of_over (h : s.Over text rest) (hrounds : rest.length < rounds) :
    skipString rounds s = some ((), s.moved (rest.takeWhile (· != '"')).length
      ((rest.takeWhile (· != '"')).count '\n')) := by
  induction rounds generalizing s text rest with
  | zero => exact absurd hrounds (Nat.not_lt_zero _)
  | succ rounds ih =>
    rw [skipString, bind_of_eq (peek_of_over h)]
    cases rest with
    | nil => rw [List.takeWhile_nil, List.length_nil, List.count_nil, Scanner.moved_zero]; rfl
    | cons d rest =>
      rw [List.head?_cons, List.takeWhile_cons]
      by_cases hd : d = '"'
      · rw [bne_eq_false_iff_eq.mpr hd, if_neg Bool.false_ne_true, List.length_nil, List.count_nil,
          Scanner.moved_zero]
        exact congrFun (if_pos hd) s
      · rw [bne_iff_ne.mpr hd, if_pos rfl, List.length_cons, List.count_cons]
        have hbroken := h.broken (if d == '\n' then 1 else 0)
        refine (congrFun (if_neg hd) s).trans ?_
        rw [bind_of_eq (countLine_eq d s), bind_of_eq (advance_of_over hbroken),
          ih (hbroken.next 0) (Nat.lt_of_succ_lt_succ hrounds), Scanner.moved_moved,
          Scanner.moved_moved]
        congr 3 <;> omega

lemma fraction_of_digit {d : Char} (h : s.Over text ('.' :: d :: rest)) (hd : d.isDigit)
    (hrounds : rest.length + 1 < rounds) : fraction rounds s =
      some ((), s.moved ('.' :: d :: rest.takeWhile Char.isDigit).length 0) := by
  unfold fraction
  rw [bind_of_eq (peek_of_over h), bind_of_eq (peekNext_of_over h), if_pos ⟨rfl, hd⟩,
    bind_of_eq (advance_of_over h), skipWhile_of_over (h.next 0) hrounds, Scanner.moved_moved,
    List.takeWhile_cons, if_pos hd, List.length_cons, Nat.add_comm 1]
  rfl

lemma fraction_of_not (h : s.Over text rest)
    (hno : ∀ d more, rest = '.' :: d :: more → ¬ d.isDigit) :
    fraction rounds s = some ((), s) := by
  have hnot : ¬ (rest.head? = some '.' ∧ rest[1]?.any Char.isDigit) := by
    rintro ⟨hpoint, hdigit⟩
    obtain ⟨tail, rfl⟩ := List.head?_eq_some_iff.mp hpoint
    cases tail with
    | nil => cases hdigit
    | cons d more => exact hno d more rfl hdigit
  unfold fraction
  rw [bind_of_eq (peek_of_over h), bind_of_eq (peekNext_of_over h), if_neg hnot]
  rfl

end Scanning

end Scriptlet
