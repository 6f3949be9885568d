import Scriptlet.Proofs.LosslessScan
import Scriptlet.Proofs.ScannerSteps

/-!
# The scanner goes from piece to piece

Behind the first character of a piece, whatever sort of piece it is, the scanner goes on to the end
of just this piece and adds what the piece gives: a token, an error, or nothing. A number whose text
cannot be read gives an error in place of its token. All other pieces give what they give in a scan.
-/

namespace Scriptlet

/-- The token with its number read by `read`. -/
def Token.readBy (read : String → Option Float) (t : Token) : Token :=
  if t.kind = .number then { t with literal := (read t.lexeme).map .number } else t

def ScanError.known (e : ScanError) : ScannerError := ⟨e.line, .known e.fault⟩

namespace Piece

/-- A number that cannot be read. -/
def Unread (read : String → Option Float) (p : Piece) : Prop :=
  p.kind = .lexeme .number ∧ read (String.ofList p.text) = none

instance (read : String → Option Float) (p : Piece) : Decidable (p.Unread read) :=
  inferInstanceAs (Decidable (_ ∧ _))

def tokens (p : Piece) (read : String → Option Float) (line : Nat) : List Token :=
  if p.Unread read then [] else ((p.token? line).map (Token.readBy read)).toList

def errors (p : Piece) (read : String → Option Float) (line : Nat) : List ScannerError :=
  if p.Unread read then [⟨line, .invalidNumber (String.ofList p.text)⟩]
  else ((p.error? line).map ScanError.known).toList

section
variable {p : Piece} {read : String → Option Float}

lemma not_unread (h : p.kind ≠ .lexeme .number) : ¬ p.Unread read := fun hunread => h hunread.1

lemma tokens_of_read (h : ¬ p.Unread read) (line : Nat) :
    p.tokens read line = ((p.token? line).map (Token.readBy read)).toList := if_neg h

lemma errors_of_read (h : ¬ p.Unread read) (line : Nat) :
    p.errors read line = ((p.error? line).map ScanError.known).toList := if_neg h

end
end Piece

/-- Behind the first character of a piece the scan goes on to the end of the piece, and adds what
the piece gives. -/
def Scanning.Completes (read : String → Option Float) (scan : Scanning Unit) (s : Scanner)
    (p : Piece) : Prop :=
  scan s = some ((), (s.moved (p.text.length - 1) p.newlines).put
    (p.tokens read (s.line + p.newlines)) (p.errors read (s.line + p.newlines)))

namespace Scanning
variable {read : String → Option Float} {s : Scanner} {w rest : List Char} {c : Char} {rounds : Nat}

lemma newlines_of_not_mem {kind : PieceKind} (h : '\n' ∉ c :: w) :
    (Piece.mk kind (c :: w)).newlines = 0 :=
  List.count_eq_zero.mpr h

lemma completes_of_silent {scan : Scanning Unit} {p : Piece} (n lines : Nat)
    (hscan : scan s = some ((), s.moved n lines)) (hn : p.text.length = n + 1)
    (hlines : p.newlines = lines) (hkind : p.kind = .blank ∨ p.kind = .comment) :
    Completes read scan s p := by
  have hread : ¬ p.Unread read := by
    obtain hkind | hkind := hkind <;> exact Piece.not_unread (hkind ▸ nofun)
  unfold Completes
  rw [hn, hlines, hscan, Nat.add_sub_cancel, Piece.tokens_of_read hread, Piece.errors_of_read hread]
  obtain ⟨kind, text⟩ := p
  obtain hkind | hkind := hkind <;> cases hkind <;> cases text <;>
    exact congrArg (fun t => some ((), t)) (Scanner.put_nil _).symm

lemma completes_unexpected (hc : c ≠ '\n') :
    Completes read (report (.known (.unexpected c))) s ⟨.unexpected, [c]⟩ := by
  have hlines : (Piece.mk .unexpected [c]).newlines = 0 :=
    newlines_of_not_mem (fun hmem => hc (List.mem_singleton.mp hmem).symm)
  have hread : ¬ (Piece.mk .unexpected [c]).Unread read := Piece.not_unread nofun
  unfold Completes
  rw [hlines, report_eq, List.length_singleton, Nat.sub_self, Scanner.moved_zero,
    Piece.tokens_of_read hread, Piece.errors_of_read hread]
  rfl

lemma add_lexeme {kind : TokenKind} {scan : Scanning Unit} (literal : Option Value)
    (h : s.Over [c] (w ++ rest))
    (hscan : scan s = add kind literal (s.moved w.length ((c :: w).count '\n')))
    (hread : ¬ (Piece.mk (.lexeme kind) (c :: w)).Unread read)
    (hliteral : ∀ line, Token.readBy read
        ⟨kind, String.ofList (c :: w), Piece.literal? kind (c :: w), line⟩ =
      ⟨kind, String.ofList (c :: w), literal, line⟩) :
    Completes read scan s ⟨.lexeme kind, c :: w⟩ := by
  have htokens (line : Nat) : (Piece.mk (.lexeme kind) (c :: w)).tokens read line =
      [⟨kind, String.ofList (c :: w), literal, line⟩] := by
    rw [Piece.tokens_of_read hread, ← hliteral]
    rfl
  unfold Completes
  rw [hscan, add_of_over (h.moved _), htokens, Piece.errors_of_read hread]
  rfl

lemma add_plain {kind : TokenKind} {scan : Scanning Unit} (h : s.Over [c] (w ++ rest))
    (hscan : scan s = add kind none (s.moved w.length ((c :: w).count '\n')))
    (hnumber : kind ≠ .number) (hstring : kind ≠ .string) :
    Completes read scan s ⟨.lexeme kind, c :: w⟩ := by
  have hliteral : Piece.literal? kind (c :: w) = none := by
    unfold Piece.literal?
    split
    · exact absurd rfl hnumber
    · exact absurd rfl hstring
    · rfl
  refine add_lexeme none h hscan (Piece.not_unread (mt PieceKind.lexeme.inj hnumber))
    (fun line => ?_)
  rw [hliteral]
  exact if_neg hnumber

lemma not_mem_takeWhile {p : Char → Bool} (hp : p '\n' = false) (l : List Char) :
    '\n' ∉ l.takeWhile p := by
  intro hmem
  rw [List.mem_takeWhile_imp hmem] at hp
  cases hp

lemma count_cons_takeWhile {p : Char → Bool} (hp : p '\n' = false) (hc : c ≠ '\n')
    (l : List Char) : (c :: l.takeWhile p).count '\n' = 0 :=
  List.count_eq_zero.mpr (List.not_mem_cons_of_ne_of_not_mem hc.symm (not_mem_takeWhile hp l))

lemma completes_word (h : s.Over [c] rest) (hc : c ≠ '\n') (hrounds : rest.length < rounds) :
    Completes read (wordRest rounds) s (Piece.word c rest) := by
  have hsplit := List.takeWhile_append_dropWhile (p := continuesWord) (l := rest)
  have hskip := skipWhile_of_over (p := continuesWord) h hrounds
  rw [← hsplit] at h
  refine add_plain h ?_ ?_ ?_
  · unfold wordRest
    rw [count_cons_takeWhile rfl hc, bind_of_eq hskip, bind_of_eq (lexeme_of_over (h.moved 0))]
    rfl
  all_goals
    unfold TokenKind.ofWord
    split <;> exact nofun

lemma completes_symbol {t : Symbol} (ht : Symbol.single? c = some t) (h : s.Over [c] rest) :
    Completes read (symbolRest t) s (Piece.symbol c rest) := by
  have hc : c ≠ '\n' := by
    rintro rfl
    cases ht
  have halone (hscan : symbolRest t s = add (.symbol t) none s) :
      Completes read (symbolRest t) s ⟨.lexeme (.symbol t), [c]⟩ := by
    have hbreak : [c].count '\n' = 0 :=
      List.count_eq_zero.mpr (fun hmem => hc (List.mem_singleton.mp hmem).symm)
    refine add_plain (w := []) h ?_ nofun nofun
    rw [List.length_nil, hbreak, Scanner.moved_zero, hscan]
  unfold Piece.symbol
  rw [ht]
  dsimp only
  split
  · rename_i u more hu
    refine add_plain (w := ['=']) h ?_ nofun nofun
    unfold symbolRest
    rw [List.count_eq_zero.mpr (by simpa using hc.symm), hu]
    dsimp only
    rw [bind_of_eq (accept_of_eq h), if_pos rfl]
    rfl
  · rename_i left _ _ hno
    refine halone ?_
    unfold symbolRest
    cases hu : t.withEqual? with
    | none => rfl
    | some u =>
      have hne : left.head? ≠ some '=' := fun hhead =>
        let ⟨more, hmore⟩ := List.head?_eq_some_iff.mp hhead
        hno u more hu hmore
      dsimp only
      rw [bind_of_eq (accept_of_ne h hne), if_neg Bool.false_ne_true]

lemma completes_openString {body : List Char} (h : s.Over ['"'] body)
    (hskip : skipString rounds s = some ((), s.moved body.length (body.count '\n'))) :
    Completes read (stringRest rounds) s ⟨.unterminated, '"' :: body⟩ := by
  have hlines : (Piece.mk .unterminated ('"' :: body)).newlines = body.count '\n' :=
    List.count_cons_of_ne (by decide)
  have hover : (s.moved body.length (body.count '\n')).Over ('"' :: body) [] :=
    Scanner.Over.moved (w := body) ((List.append_nil body).symm ▸ h) _
  have hread : ¬ (Piece.mk .unterminated ('"' :: body)).Unread read := Piece.not_unread nofun
  unfold Completes stringRest
  rw [bind_of_eq hskip, bind_of_eq (atEnd_of_over hover), List.isEmpty_nil, if_pos rfl, report_eq,
    hlines, Piece.tokens_of_read hread, Piece.errors_of_read hread]
  rfl

lemma completes_closedString {body more : List Char} (h : s.Over ['"'] (body ++ '"' :: more))
    (hskip : skipString rounds s = some ((), s.moved body.length (body.count '\n'))) :
    Completes read (stringRest rounds) s ⟨.lexeme .string, '"' :: (body ++ ['"'])⟩ := by
  have hlines : ('"' :: (body ++ ['"'])).count '\n' = body.count '\n' := by
    rw [List.count_cons_of_ne (by decide), List.count_append,
      List.count_eq_zero.mpr (show '\n' ∉ ['"'] by decide), Nat.add_zero]
  have hover := h.moved (body.count '\n')
  have hclosed : s.Over ['"'] (body ++ ['"'] ++ more) := by
    rw [List.append_assoc]
    exact h
  refine add_lexeme (some (.string (String.ofList body))) hclosed ?_
    (Piece.not_unread nofun) (fun line => ?_)
  · unfold stringRest
    rw [bind_of_eq hskip, bind_of_eq (atEnd_of_over hover), List.isEmpty_cons,
      if_neg Bool.false_ne_true, bind_of_eq (advance_of_over hover),
      bind_of_eq (inner_of_over (hover.next 0)), Scanner.moved_moved, hlines, List.length_append]
    rfl
  · rw [Piece.literal?, List.drop_succ_cons, List.drop_zero, List.dropLast_concat]
    rfl

lemma completes_quoted (h : s.Over ['"'] rest) (hrounds : rest.length < rounds) :
    Completes read (stringRest rounds) s (Piece.quoted rest) := by
  have hsplit := List.takeWhile_append_dropWhile (p := (· != '"')) (l := rest)
  have hskip := skipString_of_over h hrounds
  unfold Piece.quoted
  cases hdrop : rest.dropWhile (· != '"') with
  | nil =>
    rw [hdrop, List.append_nil] at hsplit
    rw [hsplit] at hskip
    exact completes_openString h hskip
  | cons q more =>
    have hq := List.head?_dropWhile_not (· != '"') rest
    rw [hdrop] at hq
    obtain rfl : q = '"' := by simpa using hq
    rw [hdrop] at hsplit
    rw [← hsplit] at h
    exact completes_closedString h hskip

lemma completes_slash (h : s.Over ['/'] rest) (hrounds : rest.length < rounds) :
    Completes read (slashRest rounds) s (if rest.head? = some '/'
      then ⟨.comment, '/' :: rest.takeWhile (· != '\n')⟩ else Piece.symbol '/' rest) := by
  by_cases hhead : rest.head? = some '/'
  · obtain ⟨tail, rfl⟩ := List.head?_eq_some_iff.mp hhead
    have htail : tail.length < rounds := Nat.lt_of_succ_lt hrounds
    rw [if_pos hhead]
    refine completes_of_silent ((tail.takeWhile (· != '\n')).length + 1) 0 ?_ rfl
      (count_cons_takeWhile rfl (by decide) _) (Or.inr rfl)
    unfold slashRest
    rw [bind_of_eq (accept_of_eq h), if_pos rfl, skipWhile_of_over (h.next 0) htail,
      Scanner.moved_moved, Nat.add_comm 1]
  · have hscan : slashRest rounds s = symbolRest .slash s := by
      unfold slashRest
      rw [bind_of_eq (accept_of_ne h hhead), if_neg Bool.false_ne_true]
      rfl
    rw [if_neg hhead]
    exact hscan.trans (completes_symbol rfl h)

lemma newline_not_mem_number {v : List Char} (h : Lexeme .number v) : '\n' ∉ v := by
  have hdigits {ds : List Char} (hds : ∀ x ∈ ds, IsDigit x) : '\n' ∉ ds :=
    fun hmem => absurd (hds _ hmem) (by decide)
  cases h with
  | whole digits => exact hdigits digits
  | decimal digits fraction =>
    rw [List.mem_append, not_or]
    exact ⟨hdigits digits,
      List.not_mem_cons_of_ne_of_not_mem (by decide) (hdigits fraction)⟩

lemma completes_digits {s' : Scanner} (more : List Char) (h : s.Over [c] (w ++ more))
    (hskip : skipWhile Char.isDigit rounds s = some ((), s'))
    (hfraction : fraction rounds s' = some ((), s.moved w.length 0))
    (hlexeme : Lexeme .number (c :: w)) :
    Completes read (numberRest read rounds) s ⟨.lexeme .number, c :: w⟩ := by
  have hover : (s.moved w.length 0).Over (c :: w) more := h.moved 0
  have hlines : (c :: w).count '\n' = 0 := List.count_eq_zero.mpr (newline_not_mem_number hlexeme)
  have hscan : numberRest read rounds s = addNumber read (c :: w) (s.moved w.length 0) := by
    unfold numberRest
    rw [bind_of_eq hskip, bind_of_eq hfraction, bind_of_eq (lexeme_of_over hover)]
  cases hnumber : read (String.ofList (c :: w)) with
  | some number =>
    refine add_lexeme (some (.number number)) h ?_ ?_ (fun line => ?_)
    · rw [hscan, addNumber_of_some hnumber, hlines]
    · exact fun hunread => Option.some_ne_none number (hnumber.symm.trans hunread.2)
    · rw [Token.readBy, if_pos rfl, hnumber]
      rfl
  | none =>
    have hunread : (Piece.mk (.lexeme .number) (c :: w)).Unread read := ⟨rfl, hnumber⟩
    unfold Completes
    rw [hscan, addNumber_of_none hnumber, report_eq, Piece.newlines, hlines, Piece.tokens,
      if_pos hunread, Piece.errors, if_pos hunread]
    rfl

lemma lexeme_of_number {v : List Char} (hc : c.isDigit)
    (hv : Piece.number c rest = ⟨.lexeme .number, v⟩) : Lexeme .number v := by
  obtain ⟨more, hmore⟩ := Piece.number_text c rest
  have hcut := Piece.cut_number (isDigit_iff.mp hc) hmore
  rw [hv] at hcut
  cases hcut with
  | lexeme isLexeme => exact isLexeme

lemma completes_number (h : s.Over [c] rest) (hc : c.isDigit) (hrounds : rest.length < rounds) :
    Completes read (numberRest read rounds) s (Piece.number c rest) := by
  have hsplit := List.takeWhile_append_dropWhile (p := Char.isDigit) (l := rest)
  have hskip := skipWhile_of_over (p := Char.isDigit) h hrounds
  have hover : (s.moved (rest.takeWhile Char.isDigit).length 0).Over
      (c :: rest.takeWhile Char.isDigit) (rest.dropWhile Char.isDigit) := by
    rw [← hsplit] at h
    exact h.moved 0
  have hlength := congrArg List.length hsplit
  rw [List.length_append] at hlength
  by_cases hpoint : ∃ d more, rest.dropWhile Char.isDigit = '.' :: d :: more ∧ d.isDigit
  · obtain ⟨d, more, hdrop, hd⟩ := hpoint
    have hpiece : Piece.number c rest = ⟨.lexeme .number,
        c :: (rest.takeWhile Char.isDigit ++ '.' :: d :: more.takeWhile Char.isDigit)⟩ := by
      unfold Piece.number
      rw [hdrop]
      exact if_pos hd
    have hlexeme := lexeme_of_number hc hpiece
    rw [hdrop] at hover hlength
    rw [List.length_cons, List.length_cons] at hlength
    rw [hpiece]
    refine completes_digits (more.dropWhile Char.isDigit) ?_ hskip ?_ hlexeme
    · rw [List.append_assoc, List.cons_append, List.cons_append, List.takeWhile_append_dropWhile,
        ← hdrop, hsplit]
      exact h
    · rw [fraction_of_digit hover hd (by omega), Scanner.moved_moved, List.length_append]
  · have hpiece : Piece.number c rest =
        ⟨.lexeme .number, c :: rest.takeWhile Char.isDigit⟩ := by
      unfold Piece.number
      dsimp only
      split
      · rename_i d more hdrop
        exact if_neg (fun hd => hpoint ⟨d, more, hdrop, hd⟩)
      · rfl
    have hlexeme := lexeme_of_number hc hpiece
    rw [hpiece]
    refine completes_digits (rest.dropWhile Char.isDigit) ?_ hskip ?_ hlexeme
    · rw [hsplit]
      exact h
    · exact fraction_of_not hover (fun d more hdrop hd => hpoint ⟨d, more, hdrop, hd⟩)

lemma first_of_symbol {t : Symbol} (ht : Symbol.single? c = some t) :
    Piece.first c rest = if c = '/' ∧ rest.head? = some '/'
      then ⟨.comment, c :: rest.takeWhile (· != '\n')⟩ else Piece.symbol c rest := by
  have hspelling := Symbol.spelling_of_single? ht
  have hblank : ¬ isBlank c := by
    have hlexeme := Lexeme.symbol t
    rw [hspelling] at hlexeme
    exact mt isBlank_iff.mp hlexeme.head_not_blank
  obtain ⟨x, xs, hx, hname, hdigit, hquote⟩ := t.head_spelling
  obtain ⟨rfl, -⟩ := List.cons.inj (hspelling.symm.trans hx)
  unfold Piece.first
  rw [if_neg hblank, if_neg (mt beq_iff_eq.mp hquote), if_neg (mt isDigit_iff.mp hdigit),
    if_neg (mt startsWord_iff.mp hname)]
  simp only [Bool.and_eq_true, beq_iff_eq]

lemma completes_token (h : s.Over [c] rest) (hrounds : rest.length < rounds) :
    Completes read (token read rounds c) s (Piece.first c rest) := by
  unfold token
  split
  · rename_i ht
    obtain rfl : c = '/' := by
      have hspelling := Symbol.spelling_of_single? ht
      exact (List.cons.inj hspelling).1.symm
    rw [first_of_symbol ht]
    simpa using completes_slash h hrounds
  · rename_i t hslash ht
    have hc : c ≠ '/' := by
      rintro rfl
      exact hslash (Option.some.inj ht.symm)
    rw [first_of_symbol ht, if_neg (fun hcomment => hc hcomment.1)]
    exact completes_symbol ht h
  · rename_i hnone
    have hslash : ¬ (c == '/' && rest.head? == some '/') := by
      rw [Bool.and_eq_true, beq_iff_eq]
      rintro ⟨rfl, -⟩
      cases hnone
    unfold Piece.first
    by_cases hbreak : c = '\n'
    · subst hbreak
      exact completes_of_silent 0 1 (newLine_eq s) rfl rfl (Or.inl rfl)
    by_cases hblank : isBlank c
    · rw [if_neg hbreak, if_pos hblank, if_pos hblank]
      refine completes_of_silent 0 0 ?_ rfl ?_ (Or.inl rfl)
      · rw [Scanner.moved_zero]
        rfl
      · exact newlines_of_not_mem (fun hmem => hbreak (List.mem_singleton.mp hmem).symm)
    rw [if_neg hbreak, if_neg hblank, if_neg hblank, if_neg hslash]
    by_cases hquote : c = '"'
    · rw [if_pos hquote, if_pos (beq_iff_eq.mpr hquote)]
      subst hquote
      exact completes_quoted h hrounds
    rw [if_neg hquote, if_neg (mt beq_iff_eq.mp hquote)]
    by_cases hdigit : c.isDigit
    · rw [if_pos hdigit, if_pos hdigit]
      exact completes_number h hdigit hrounds
    rw [if_neg hdigit, if_neg hdigit]
    by_cases hname : startsWord c
    · rw [if_pos hname, if_pos hname]
      exact completes_word h hbreak hrounds
    rw [if_neg hname, if_neg hname, Piece.symbol, hnone]
    exact completes_unexpected hbreak

end Scanning
end Scriptlet
