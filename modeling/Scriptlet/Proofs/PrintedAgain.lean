import Scriptlet.Proofs.NumberText
import Scriptlet.Proofs.SessionRuns
import Scriptlet.Proofs.WordLayout

/-!
# Printing what was printed

The text that shows a finite number, and any text without a quote that is put in quotes, is read
back as the value that it shows. A negative number comes back through its minus, which is an
operator, and a text between quotes is not looked into.
-/

namespace Scriptlet

/-- The double that a text stands for which is a number lexeme or one behind a minus. -/
def Number.ofText (text : String) : Float :=
  match text.toList with
  | '-' :: digits => -(Piece.numberValue digits)
  | digits => Piece.numberValue digits

section pieces
variable {c : Char} {w rest more : List Char} {p : Piece}

lemma pieces_of_first (hfirst : Piece.first c rest = p) (htext : c :: rest = p.text ++ more) :
    pieces (c :: rest) = p :: pieces more := by
  obtain ⟨x, xs, hx⟩ := List.exists_cons_of_ne_nil (Piece.first_text_ne_nil c rest)
  rw [hfirst] at hx
  rw [hx, List.cons_append] at htext
  obtain ⟨rfl, rfl⟩ := List.cons.inj htext
  rw [pieces, hfirst, hx, List.length_cons, Nat.add_sub_cancel, List.drop_left]

def printPiece : Piece := ⟨.lexeme (.keyword .kwPrint), ['p', 'r', 'i', 'n', 't']⟩

def minusPiece : Piece := ⟨.lexeme (.symbol .minus), ['-']⟩

def semicolonPiece : Piece := ⟨.lexeme (.symbol .semicolon), [';']⟩

lemma pieces_print : pieces ('p' :: 'r' :: 'i' :: 'n' :: 't' :: ' ' :: rest) =
    printPiece :: ⟨.blank, [' ']⟩ :: pieces rest := by
  have hprint : Piece.first 'p' ('r' :: 'i' :: 'n' :: 't' :: ' ' :: rest) = printPiece := by
    rfl
  have hblank : Piece.first ' ' rest = ⟨.blank, [' ']⟩ := rfl
  rw [pieces_of_first hprint rfl, pieces_of_first hblank rfl]

lemma pieces_minus : pieces ('-' :: rest) = minusPiece :: pieces rest :=
  pieces_of_first (rfl : Piece.first '-' rest = minusPiece) rfl

lemma pieces_semicolon : pieces [';'] = [semicolonPiece] := by
  have hsemicolon : Piece.first ';' [] = semicolonPiece := rfl
  rw [pieces_of_first hsemicolon rfl, pieces]

lemma first_of_digit (hc : IsDigit c) : Piece.first c rest = Piece.number c rest := by
  have hblank : ¬ isBlank c = true := fun h => blank_not_inName (isBlank_iff.mp h) hc.inName
  have hslash : (c == '/') = false := by
    rw [beq_eq_false_iff_ne]
    rintro rfl
    exact absurd hc (by decide)
  have hquote : (c == '"') = false := by
    rw [beq_eq_false_iff_ne]
    rintro rfl
    exact absurd hc (by decide)
  unfold Piece.first
  rw [if_neg hblank, hslash, Bool.false_and, if_neg Bool.false_ne_true, hquote,
    if_neg Bool.false_ne_true, if_pos (isDigit_iff.mpr hc)]

lemma pieces_number (h : Lexeme .number w) :
    pieces (w ++ [';']) = [⟨.lexeme .number, w⟩, semicolonPiece] := by
  have hsemicolon : Char.isDigit ';' = false := rfl
  have hpoint : Char.isDigit '.' = false := rfl
  rw [← pieces_semicolon]
  cases h with
  | @whole d ds digits =>
    obtain ⟨hd, hds⟩ := List.forall_mem_cons.mp digits
    have hds' : ∀ x ∈ ds, x.isDigit = true := fun x hx => isDigit_iff.mpr (hds x hx)
    have hnumber : Piece.number d (ds ++ [';']) = ⟨.lexeme .number, d :: ds⟩ := by
      rw [Piece.number, takeWhile_upTo hds' hsemicolon, dropWhile_upTo hds' hsemicolon]
      rfl
    exact pieces_of_first ((first_of_digit hd).trans hnumber) rfl
  | @decimal d f ds fs digits fraction =>
    obtain ⟨hd, hds⟩ := List.forall_mem_cons.mp digits
    obtain ⟨hf, hfs⟩ := List.forall_mem_cons.mp fraction
    have hds' : ∀ x ∈ ds, x.isDigit = true := fun x hx => isDigit_iff.mpr (hds x hx)
    have hfs' : ∀ x ∈ fs, x.isDigit = true := fun x hx => isDigit_iff.mpr (hfs x hx)
    have hnumber : Piece.number d (ds ++ '.' :: f :: (fs ++ [';'])) =
        ⟨.lexeme .number, d :: ds ++ '.' :: f :: fs⟩ := by
      rw [Piece.number, takeWhile_upTo hds' hpoint, dropWhile_upTo hds' hpoint]
      change ite _ _ _ = _
      rw [if_pos (isDigit_iff.mpr hf), takeWhile_upTo hfs' hsemicolon]
    rw [List.append_assoc, List.cons_append]
    exact pieces_of_first ((first_of_digit hd).trans hnumber) (by simp)

lemma pieces_string (h : '"' ∉ w) :
    pieces ('"' :: (w ++ ['"', ';'])) =
      [⟨.lexeme .string, '"' :: (w ++ ['"'])⟩, semicolonPiece] := by
  have hw : ∀ x ∈ w, (x != '"') = true := fun x hx => bne_iff_ne.mpr (fun hq => h (hq ▸ hx))
  rw [← pieces_semicolon]
  apply pieces_of_first
  · change Piece.quoted _ = _
    rw [Piece.quoted, takeWhile_upTo hw rfl, dropWhile_upTo hw rfl]
    rfl
  · simp

end pieces

section running
variable {m : Machine} {source : String} {w : List Char} {ps : List Piece} {e : Expr}
  {value : Value}

/-- The keyword on the first line of a source. -/
def printToken : Token := ⟨.keyword .kwPrint, "print", none, 1⟩

lemma scan_print (hsource : source.toList = "print ".toList ++ w)
    (hpieces : pieces w = ps ++ [semicolonPiece]) (hclean : ps.filterMap Piece.complaint? = [])
    (hw : Written e.marks ((withLines 1 ps).filterMap (fun (p, line) => p.token? line))) :
    (scan source).errors = [] ∧
      Written (Stmt.print printToken e).marks (beforeEnd (scan source).tokens) := by
  have hall : pieces source.toList =
      printPiece :: ⟨.blank, [' ']⟩ :: (ps ++ [semicolonPiece]) := by
    rw [hsource, ← hpieces]
    exact pieces_print
  constructor
  · unfold scan
    rw [← List.map_eq_nil_iff, map_filterMap_withLines Piece.complaint?_eq, hall,
      List.filterMap_cons_none rfl, List.filterMap_cons_none rfl, List.filterMap_append, hclean]
    rfl
  · have hline : 1 + printPiece.newlines + (Piece.mk .blank [' ']).newlines = 1 := rfl
    rw [beforeEnd_scan, hall, withLines, withLines, withLines_append, hline]
    have htokens : Written (e.marks ++ [.kind (.symbol .semicolon)])
        ((withLines 1 ps ++ withLines (1 + (ps.flatMap Piece.text).count '\n')
          [semicolonPiece]).filterMap (fun (p, line) => p.token? line)) := by
      rw [List.filterMap_append]
      exact hw.append (.cons rfl .nil)
    exact .cons rfl htokens

lemma Machine.run_print (hsource : source.toList = "print ".toList ++ w)
    (hpieces : pieces w = ps ++ [semicolonPiece]) (hclean : ps.filterMap Piece.complaint? = [])
    (hw : Written e.marks ((withLines 1 ps).filterMap (fun (p, line) => p.token? line)))
    (hcan : e.Canonical) (hnest : e.nest ≤ maxNesting)
    (heval : ∀ env, e.eval env = .ok value env) (hroom : m.sink.room = none) (rounds : Nat) :
    m.run rounds source = some (.empty, m.showing (m.sink.written ++ value.line)) := by
  obtain ⟨hscan, hwritten⟩ := scan_print hsource hpieces hclean hw
  have hparse : parse (scan source).tokens = ⟨[.print printToken e], []⟩ := by
    refine parse_of_written ⟨⟨rfl, hcan⟩, trivial⟩ ?_ ?_
    · rwa [Stmt.marksAll, Stmt.marksAll, List.append_nil]
    · rw [Stmt.nestAll, Stmt.nestAll, Stmt.nest, Nat.max_zero]
      exact hnest
  have hevaluate : Exec.evaluate e m = .ok value m := by rw [Exec.evaluate, heval]
  have hexec : Stmt.execAll rounds [.print printToken e] m =
      .ok () (m.showing (m.sink.written ++ value.line)) := by
    rw [Stmt.execAll_singleton, Stmt.exec]
    simp only [bind, EStateM.bind, hevaluate, Exec.write_unlimited hroom]
    rfl
  rw [run_of_clean hscan (by rw [hparse]), hparse]
  simp only [interpret, hexec]
  rfl

lemma Number.ofText_digits {digits : List Char} (h : Lexeme .number digits) :
    ofText (String.ofList digits) = Piece.numberValue digits := by
  obtain ⟨d, ds, rfl⟩ := List.exists_cons_of_ne_nil h.ne_nil
  rw [ofText, String.toList_ofList]
  split
  · rename_i hd
    exact absurd (List.cons.inj hd).1 (head_ne_minus h)
  · rfl

lemma Machine.run_print_number {x : Float} (hfinite : Number.IsFinite x)
    (hread : Number.ofText (Number.text x) = x) (hroom : m.sink.room = none) (rounds : Nat) :
    m.run rounds ("print " ++ Number.text x ++ ";") =
      some (.empty, m.showing (m.sink.written ++ (Value.number x).line)) := by
  obtain ⟨negative, digits, hdigits, htext⟩ := Number.exists_text hfinite
  have hchars : (Number.text x).toList = Number.Form.chars.sign negative ++ digits := by
    rw [htext, String.toList_ofList]
  have hsource : ("print " ++ Number.text x ++ ";").toList =
      "print ".toList ++ (Number.Form.chars.sign negative ++ (digits ++ [';'])) := by
    rw [String.toList_append, String.toList_append, hchars, List.append_assoc, List.append_assoc]
    rfl
  rw [htext] at hread
  cases negative with
  | false =>
    have hvalue : Piece.numberValue digits = x := (Number.ofText_digits hdigits).symm.trans hread
    subst hvalue
    have hpieces : pieces (digits ++ [';']) = [⟨.lexeme .number, digits⟩] ++ [semicolonPiece] :=
      pieces_number hdigits
    exact run_print (e := .literal (.number (Piece.numberValue digits))) hsource hpieces rfl
      (.cons rfl .nil) trivial (Nat.zero_le _) (fun _ => rfl) hroom rounds
  | true =>
    have hvalue : -Piece.numberValue digits = x := by
      rw [← hread, Number.ofText, String.toList_ofList]
      rfl
    have hpieces : pieces ('-' :: (digits ++ [';'])) =
        [minusPiece, ⟨.lexeme .number, digits⟩] ++ [semicolonPiece] := by
      rw [pieces_minus, pieces_number hdigits]
      rfl
    refine run_print (e := .unary ⟨.symbol .minus, "-", none, 1⟩
      (.literal (.number (Piece.numberValue digits)))) hsource hpieces rfl
      (.cons rfl (.cons rfl .nil)) ⟨Or.inr rfl, rfl, trivial⟩
      (Nat.one_le_iff_ne_zero.mpr (by decide)) (fun _ => ?_) hroom rounds
    rw [← hvalue]
    rfl

lemma Machine.run_print_string {s : String} (hs : '"' ∉ s.toList) (hroom : m.sink.room = none)
    (rounds : Nat) :
    m.run rounds ("print \"" ++ s ++ "\";") =
      some (.empty, m.showing (m.sink.written ++ (Value.string s).line)) := by
  have hsource : ("print \"" ++ s ++ "\";").toList =
      "print ".toList ++ ('"' :: (s.toList ++ ['"', ';'])) := by
    rw [String.toList_append, String.toList_append, List.append_assoc]
    rfl
  have hliteral : Piece.literal? .string ('"' :: (s.toList ++ ['"'])) = some (.string s) := by
    refine Denotes.literal?_eq ⟨s.toList, rfl, ?_⟩
    rw [String.ofList_toList]
  have hpieces : pieces ('"' :: (s.toList ++ ['"', ';'])) =
      [⟨.lexeme .string, '"' :: (s.toList ++ ['"'])⟩] ++ [semicolonPiece] := pieces_string hs
  refine run_print (e := .literal (.string s)) hsource hpieces rfl (.cons ?_ .nil) trivial
    (Nat.zero_le _) (fun _ => rfl) hroom rounds
  exact congrArg (fun v : Option Value => some (v.getD .nil)) hliteral

end running

namespace Machine

/-- What shows a finite number is printed again if it is read back as that number, a minus negating
what is read behind it, and so is every text without a quote when it is put in quotes. -/
theorem run_print_again {m : Machine} (hroom : m.sink.room = none) (rounds : Nat) :
    (∀ x : Float, Number.IsFinite x → Number.ofText (Number.text x) = x →
      m.run rounds ("print " ++ Number.text x ++ ";") =
        some (.empty, m.showing (m.sink.written ++ (Number.text x ++ "\n").toUTF8))) ∧
      ∀ s : String, '"' ∉ s.toList →
        m.run rounds ("print \"" ++ s ++ "\";") =
          some (.empty, m.showing (m.sink.written ++ (s ++ "\n").toUTF8)) :=
  ⟨fun _ hfinite hread => run_print_number hfinite hread hroom rounds,
    fun _ hs => run_print_string hs hroom rounds⟩

theorem run_print_again_places :
    let x : Float := Float.ofBits 13725520251343122248
    Number.form x = .finite true 7555786372591432 (-76) ∧ Number.text x = "-0.0000001" ∧
      Number.ofText (Number.text x) = x ∧
      (initial .unlimited).run 0 ("print " ++ Number.text x ++ ";") =
        some (.empty,
          (initial .unlimited).showing (ByteArray.empty ++ (Number.text x ++ "\n").toUTF8)) ∧
      (initial .unlimited).run 0 ("print \"" ++ "// λ\n" ++ "\";") =
        some (.empty,
          (initial .unlimited).showing (ByteArray.empty ++ ("// λ\n" ++ "\n").toUTF8)) := by
  intro x
  have hform : Number.form x = .finite true 7555786372591432 (-76) := by decide +kernel
  have htext : Number.text x = "-0.0000001" := by decide +kernel
  have hread : Number.ofText (Number.text x) = x := by decide +kernel
  obtain ⟨hnumber, hstring⟩ := run_print_again (m := initial .unlimited) rfl 0
  exact ⟨hform, htext, hread, hnumber x ⟨true, _, _, hform⟩ hread, hstring "// λ\n" (by decide)⟩

end Machine
end Scriptlet
