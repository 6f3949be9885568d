import Scriptlet.Token

/-!
# Cutting a source into pieces

A source is cut from the left into pieces: lexemes, each as long as it can be, single blanks,
comments, and text that belongs to no lexeme. Nothing is dropped, so the pieces in a row are
the source.
-/

namespace Scriptlet

inductive PieceKind where
  | lexeme (kind : TokenKind)
  | blank
  | comment
  | unexpected
  | unterminated
  deriving DecidableEq, Repr

structure Piece where
  kind : PieceKind
  text : List Char
  deriving DecidableEq, Repr

def isBlank (c : Char) : Bool := c == ' ' || c == '\t' || c == '\r' || c == '\n'

/-- ASCII letters and the underscore. -/
def startsWord (c : Char) : Bool := c.isAlpha || c == '_'

/-- What may follow in a word: ASCII letters, digits and the underscore. -/
def continuesWord (c : Char) : Bool := c.isAlphanum || c == '_'

/-- The symbol that is spelled with `c` alone. -/
def Symbol.single? : Char → Option Symbol
  | '(' => some .leftParen
  | ')' => some .rightParen
  | '{' => some .leftBrace
  | '}' => some .rightBrace
  | ',' => some .comma
  | '.' => some .dot
  | '-' => some .minus
  | '+' => some .plus
  | ';' => some .semicolon
  | '/' => some .slash
  | '*' => some .star
  | '!' => some .bang
  | '=' => some .equal
  | '<' => some .less
  | '>' => some .greater
  | _ => none

/-- The symbol that is spelled with one more `=`. -/
def Symbol.withEqual? : Symbol → Option Symbol
  | .bang => some .bangEqual
  | .equal => some .equalEqual
  | .less => some .lessEqual
  | .greater => some .greaterEqual
  | _ => none

namespace Piece

/-- A number that begins with the digit `c`. A point belongs to it only when a digit follows. -/
def number (c : Char) (rest : List Char) : Piece :=
  let whole := c :: rest.takeWhile Char.isDigit
  match rest.dropWhile Char.isDigit with
  | '.' :: d :: more =>
    if d.isDigit then ⟨.lexeme .number, whole ++ '.' :: d :: more.takeWhile Char.isDigit⟩
    else ⟨.lexeme .number, whole⟩
  | _ => ⟨.lexeme .number, whole⟩

def word (c : Char) (rest : List Char) : Piece :=
  let text := c :: rest.takeWhile continuesWord
  ⟨.lexeme (.ofWord (String.ofList text)), text⟩

/-- What an opening quote begins: a string up to the next quote, or all that is left. -/
def quoted (rest : List Char) : Piece :=
  match rest.dropWhile (· != '"') with
  | [] => ⟨.unterminated, '"' :: rest⟩
  | _ :: _ => ⟨.lexeme .string, '"' :: rest.takeWhile (· != '"') ++ ['"']⟩

def symbol (c : Char) (rest : List Char) : Piece :=
  match Symbol.single? c with
  | none => ⟨.unexpected, [c]⟩
  | some s =>
    match s.withEqual?, rest with
    | some t, '=' :: _ => ⟨.lexeme (.symbol t), [c, '=']⟩
    | _, _ => ⟨.lexeme (.symbol s), [c]⟩

/-- The piece at the front of `c :: rest`. A comment ends before the end of its line. -/
def first (c : Char) (rest : List Char) : Piece :=
  if isBlank c then ⟨.blank, [c]⟩
  else if c == '/' && rest.head? == some '/' then ⟨.comment, c :: rest.takeWhile (· != '\n')⟩
  else if c == '"' then quoted rest
  else if c.isDigit then number c rest
  else if startsWord c then word c rest
  else symbol c rest

theorem number_text (c : Char) (rest : List Char) :
    ∃ more, c :: rest = (number c rest).text ++ more := by
  have h := List.takeWhile_append_dropWhile (p := Char.isDigit) (l := rest)
  unfold number
  split
  · rename_i d more hd
    have hm := List.takeWhile_append_dropWhile (p := Char.isDigit) (l := more)
    split
    · refine ⟨more.dropWhile Char.isDigit, ?_⟩
      simp only [List.cons_append, List.append_assoc, hm]
      rw [← hd, h]
    · refine ⟨'.' :: d :: more, ?_⟩
      rw [← hd]
      simp only [List.cons_append, h]
  · exact ⟨rest.dropWhile Char.isDigit, by simp only [List.cons_append, h]⟩

theorem quoted_text (rest : List Char) : ∃ more, '"' :: rest = (quoted rest).text ++ more := by
  have h := List.takeWhile_append_dropWhile (p := (· != '"')) (l := rest)
  unfold quoted
  split
  · exact ⟨[], by simp⟩
  · rename_i q more hd
    have hq := List.head?_dropWhile_not (· != '"') rest
    rw [hd] at hq h
    refine ⟨more, ?_⟩
    rw [← h]
    simp_all

theorem symbol_text (c : Char) (rest : List Char) :
    ∃ more, c :: rest = (symbol c rest).text ++ more := by
  unfold symbol
  split
  · exact ⟨rest, rfl⟩
  · split <;> exact ⟨_, rfl⟩

theorem first_text (c : Char) (rest : List Char) :
    ∃ more, c :: rest = (first c rest).text ++ more := by
  unfold first
  split
  · exact ⟨rest, rfl⟩
  split
  · exact ⟨rest.dropWhile (· != '\n'), by simp [List.takeWhile_append_dropWhile]⟩
  split
  · rename_i h
    rw [eq_of_beq h]
    exact quoted_text rest
  split
  · exact number_text c rest
  split
  · exact ⟨rest.dropWhile continuesWord, by simp [word, List.takeWhile_append_dropWhile]⟩
  · exact symbol_text c rest

theorem first_text_ne_nil (c : Char) (rest : List Char) : (first c rest).text ≠ [] := by
  unfold first symbol word number quoted
  repeat' split
  all_goals simp

def newlines (p : Piece) : Nat := p.text.count '\n'

end Piece

/-- The pieces of a text, in order. -/
def pieces : List Char → List Piece
  | [] => []
  | c :: rest => Piece.first c rest :: pieces (rest.drop ((Piece.first c rest).text.length - 1))
termination_by cs => cs.length
decreasing_by
  simp only [List.length_drop, List.length_cons]
  omega

theorem flatMap_text_pieces (cs : List Char) : (pieces cs).flatMap Piece.text = cs := by
  fun_induction pieces cs with
  | case1 => rfl
  | case2 c rest ih =>
    obtain ⟨more, h⟩ := Piece.first_text c rest
    obtain ⟨d, text, ht⟩ := List.exists_cons_of_ne_nil (Piece.first_text_ne_nil c rest)
    rw [List.flatMap_cons, ih]
    rw [ht] at h ⊢
    simp_all

end Scriptlet
