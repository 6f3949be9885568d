import Scriptlet.Source.Scan

/-!
# A scanner with a cursor

A scan cuts a source into pieces. Here the same source is scanned with a cursor that moves from one
character to the next: each round begins where the one before it ended, looks at the character under
the cursor and at the one behind that, and takes for the text of its token what lies between its
start and the cursor.

Nothing below promises that what is sliced out lies in the source, that the cursor stops at the end
of it, that the text of a number can be read, or that a loop ends. A scan that slices beside the
source has no result, nor has one in which a loop is not over after as many rounds as it is given.
All places to which start and cursor come are written down, and what each round adds.
-/

namespace Scriptlet

/-- What a scanner may report: besides the faults of a scan, a number that cannot be read. -/
inductive ScannerFault where
  | known (fault : ScanFault)
  | invalidNumber (text : String)
  deriving DecidableEq

def ScannerFault.message : ScannerFault → String
  | known fault => fault.message
  | invalidNumber text => "invalid number literal '" ++ text ++ "'."

structure ScannerError where
  line : Nat
  fault : ScannerFault
  deriving DecidableEq

/-- A round, with the place of the cursor when it began and when it ended, and what it added. -/
structure Round where
  began : Nat
  ended : Nat
  tokens : List Token
  errors : List ScannerError

structure Scanner where
  source : List Char
  start : Nat
  current : Nat
  line : Nat
  tokens : List Token
  errors : List ScannerError
  /-- Where start and cursor have been. -/
  places : List (Nat × Nat)
  rounds : List Round

def Scanner.before (source : List Char) : Scanner := ⟨source, 0, 0, 1, [], [], [(0, 0)], []⟩

/-- A step of a scanner, or none. -/
abbrev Scanning : Type → Type := StateT Scanner Option

namespace Scanning
variable {α : Type}

/-- What lies beside the source, or a loop that has no round left. -/
def stuck : Scanning α := fun _ => none

def atEnd : Scanning Bool := fun s => some (decide (s.source.length ≤ s.current), s)

def peek : Scanning (Option Char) := fun s => some (s.source[s.current]?, s)

def peekNext : Scanning (Option Char) := fun s => some (s.source[s.current + 1]?, s)

/-- A round starts at the cursor. -/
def restart : Scanning Unit := modify fun s =>
  { s with start := s.current, places := s.places ++ [(s.current, s.current)] }

/-- Moves the cursor on, though no character may be left. -/
def moveOn : Scanning Unit := modify fun s =>
  { s with current := s.current + 1, places := s.places ++ [(s.start, s.current + 1)] }

def advance : Scanning (Option Char) := do
  let c ← peek
  moveOn
  return c

def accept (expected : Char) : Scanning Bool := do
  let c ← peek
  if c = some expected then
    moveOn
    return true
  else return false

def newLine : Scanning Unit := modify fun s => { s with line := s.line + 1 }

/-- Counts the line that the character ends, if it ends one. -/
def countLine (c : Char) : Scanning Unit := if c = '\n' then newLine else return ()

def slice (first last : Nat) : Scanning (List Char) := fun s =>
  if first ≤ last ∧ last ≤ s.source.length then
    some ((s.source.drop first).take (last - first), s)
  else none

def lexeme : Scanning (List Char) := do
  let s ← get
  slice s.start s.current

/-- The lexeme without its first and its last character. -/
def inner : Scanning (List Char) := do
  let s ← get
  if s.current = 0 then stuck else slice (s.start + 1) (s.current - 1)

def add (kind : TokenKind) (literal : Option Value) : Scanning Unit := do
  let text ← lexeme
  modify fun s =>
    { s with tokens := s.tokens ++ [⟨kind, String.ofList text, literal, s.line⟩] }

def report (fault : ScannerFault) : Scanning Unit := modify fun s =>
  { s with errors := s.errors ++ [⟨s.line, fault⟩] }

/-- Moves on as long as the character under the cursor has the property. -/
def skipWhile (p : Char → Bool) (rounds : Nat) : Scanning Unit :=
  match rounds with
  | 0 => stuck
  | rounds + 1 => do
    let c ← peek
    if c.any p then
      let _ ← advance
      skipWhile p rounds
    else return ()

def skipString (rounds : Nat) : Scanning Unit :=
  match rounds with
  | 0 => stuck
  | rounds + 1 => do
    match ← peek with
    | none => return ()
    | some c =>
      if c = '"' then return ()
      else
        countLine c
        let _ ← advance
        skipString rounds

/-- The rest of a string behind its opening quote. -/
def stringRest (rounds : Nat) : Scanning Unit := do
  skipString rounds
  if ← atEnd then report (.known .unterminated)
  else
    let _ ← advance
    let value ← inner
    add .string (some (.string (String.ofList value)))

/-- A point belongs to a number only when a digit follows. -/
def fraction (rounds : Nat) : Scanning Unit := do
  let c ← peek
  let d ← peekNext
  if c = some '.' ∧ d.any Char.isDigit then
    let _ ← advance
    skipWhile Char.isDigit rounds
  else return ()

def addNumber (read : String → Option Float) (text : List Char) : Scanning Unit :=
  match read (String.ofList text) with
  | some number => add .number (some (.number number))
  | none => report (.invalidNumber (String.ofList text))

def numberRest (read : String → Option Float) (rounds : Nat) : Scanning Unit := do
  skipWhile Char.isDigit rounds
  fraction rounds
  let text ← lexeme
  addNumber read text

def wordRest (rounds : Nat) : Scanning Unit := do
  skipWhile continuesWord rounds
  let text ← lexeme
  add (.ofWord (String.ofList text)) none

/-- A second slash makes a comment, which ends before the end of its line. -/
def slashRest (rounds : Nat) : Scanning Unit := do
  if ← accept '/' then skipWhile (· != '\n') rounds else add (.symbol .slash) none

def symbolRest (s : Symbol) : Scanning Unit := do
  match s.withEqual? with
  | some t => if ← accept '=' then add (.symbol t) none else add (.symbol s) none
  | none => add (.symbol s) none

/-- What begins with the character `c`, behind which the cursor stands. -/
def token (read : String → Option Float) (rounds : Nat) (c : Char) : Scanning Unit :=
  match Symbol.single? c with
  | some .slash => slashRest rounds
  | some s => symbolRest s
  | none =>
    if c = '\n' then newLine
    else if isBlank c then return ()
    else if c = '"' then stringRest rounds
    else if c.isDigit then numberRest read rounds
    else if startsWord c then wordRest rounds
    else report (.known (.unexpected c))

def round (read : String → Option Float) (rounds : Nat) : Scanning Unit := do
  restart
  match ← advance with
  | some c => token read rounds c
  | none => return ()

/-- The same round, written down. -/
def recorded (round : Scanning Unit) : Scanning Unit := do
  let before ← get
  round
  modify fun s =>
    { s with rounds := s.rounds ++ [⟨before.current, s.current, s.tokens.drop before.tokens.length,
        s.errors.drop before.errors.length⟩] }

def repeated (round : Scanning Unit) (rounds : Nat) : Scanning Unit :=
  match rounds with
  | 0 => stuck
  | rounds + 1 => do
    if ← atEnd then return ()
    else
      recorded round
      repeated round rounds

def finish : Scanning Unit := modify fun s =>
  { s with tokens := s.tokens ++ [.endOfInput s.line] }

end Scanning

/-- Scans by walking through all of the source, with numbers read by `read`, and hands over the
scanner as it is in the end. -/
def scanWalking (read : String → Option Float) (rounds : Nat) (source : String) : Option Scanner :=
  ((do
    Scanning.repeated (Scanning.round read rounds) rounds
    Scanning.finish : Scanning Unit) (.before source.toList)).map Prod.snd

end Scriptlet
