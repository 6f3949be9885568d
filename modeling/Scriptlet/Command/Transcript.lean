import Scriptlet.Command.Folder
import Scriptlet.Command.Options
import Scriptlet.Session
import Scriptlet.Syntax.Text

/-!
# What the command does

The command runs a script, or prompts for lines and runs each as it is entered. Dumps and the output
of programs go to standard output, diagnostics to standard error. How streams are read and written
is left open. When the input is known, a transcript holds all that a call of the command leaves: its
exit code and what it wrote on both outputs.
-/

namespace Scriptlet.Command

/-- The streams around the command, used by actions of `M`. -/
structure Streams (M : Type → Type) where
  /-- The next line of the input with its line feed, or none when nothing is left. -/
  readLine : M (Except ReadFault (Option String))
  write : ByteArray → M Unit
  report : String → M Unit

def commandName : String := "nlox"

def versionText : String := commandName ++ " 0.1.0\n"

def helpText : String :=
  "Tree-walking interpreter for the Lox language\n\n" ++
  "Usage: " ++ commandName ++ " [OPTIONS] [SCRIPT]\n\n" ++
  "Arguments:\n" ++
  "  [SCRIPT]  Script to run. Starts an interactive prompt when omitted\n\n" ++
  "Options:\n" ++
  "      --tokens   Print every scanned token before running\n" ++
  "      --ast      Print the parsed syntax tree before running\n" ++
  "  -v, --verbose  \n" ++
  "  -h, --help     Print help\n" ++
  "  -V, --version  Print version\n"

/-- Each text on a line of its own. -/
def lines (texts : List String) : String := String.join (texts.map (· ++ "\n"))

/-- What is shown of a source before it is run: its tokens, then its statements. -/
def dump (o : Options) (source : String) : String :=
  let tokens := (scan source).tokens
  (if o.dumpTokens then lines (tokens.map Token.text) else "") ++
    (if o.dumpTree then lines ((parse tokens).statements.map Stmt.text) else "")

/-- The machine after a text was shown on its output. -/
def print (m : Machine) (text : String) : Machine := { m with sink := (m.sink.write text).1 }

def exitCode (ds : Diagnostics) : Nat :=
  if ds.hadError then 65 else if ds.hadRuntimeError then 70 else 0

/-- Dumps a source as the options say and runs it. -/
def enter (rounds : Nat) (o : Options) (m : Machine) (source : String) :
    Option (Diagnostics × Machine) :=
  (print m (dump o source)).run rounds source

/-- Bytes that were read must be text. -/
def readText (content : Except ReadFault ByteArray) : Except ReadFault String := do
  match String.fromUTF8? (← content) with
  | some text => .ok text
  | none => .error .notText

def promptText : String := "> "

section command
variable {M : Type → Type} [Monad M] (streams : Streams M) (rounds : Nat) (o : Options)

/-- Enters a source, for which the machine's sink is emptied, and moves to the streams what comes of
it. There is no answer when a loop makes more than `rounds` rounds. -/
def submit (m : Machine) (source : String) : M (Option (Diagnostics × Machine)) := do
  match enter rounds o { m with sink := { m.sink with written := .empty } } source with
  | none => return none
  | some (ds, m') =>
    streams.write m'.sink.written
    streams.report ds.text
    return some (ds, m')

/-- Runs the script at `path`, given what reading it came to, and answers with the exit code. -/
def runScript (path : String) (content : Except ReadFault ByteArray) : M (Option Nat) := do
  match readText content with
  | .error fault =>
    streams.report (Diagnostics.text ⟨[.unreadable path fault.reason]⟩)
    return some 74
  | .ok text =>
    match ← submit streams rounds o (.initial .unlimited) text with
    | none => return none
    | some (ds, _) => return some (exitCode ds)

/-- Prompts before each line and runs it; a line that cannot be read ends the prompt. There is no
answer when the input has not ended after `turns` turns. -/
def runPrompt (turns : Nat) (m : Machine) : M (Option Nat) :=
  match turns with
  | 0 => return none
  | turns + 1 => do
    streams.write promptText.toUTF8
    match ← streams.readLine with
    | .error fault =>
      streams.report (Diagnostics.text ⟨[.unreadable "input" fault.reason]⟩)
      return some 74
    | .ok none => return some 0
    | .ok (some source) =>
      match ← submit streams rounds o m source with
      | none => return none
      | some (_, m') => runPrompt turns m'

end command

/-- What the command does with its arguments. -/
def call {M : Type → Type} [Monad M] (streams : Streams M)
    (readFile : String → M (Except ReadFault ByteArray)) (rounds turns : Nat) (args : List String) :
    M (Option Nat) := do
  match Request.ofArgs args with
  | .malformed => return some 2
  | .help =>
    streams.write helpText.toUTF8
    return some 0
  | .version =>
    streams.write versionText.toUTF8
    return some 0
  | .run o =>
    match o.script with
    | some path => runScript streams rounds o path (← readFile path)
    | none => runPrompt streams rounds o turns (.initial .unlimited)

/-- Cuts bytes after each line feed; a last piece without one counts when it is not empty. -/
def cutLines : List UInt8 → List (List UInt8)
  | [] => []
  | b :: rest =>
    if b = 10 then [b] :: cutLines rest
    else
      match cutLines rest with
      | [] => [[b]]
      | line :: more => (b :: line) :: more

/-- Streams of which all is known: the lines that are left, and what was written. -/
structure Tape where
  input : List (List UInt8)
  stdout : ByteArray
  stderr : String

def Tape.streams : Streams (StateM Tape) where
  readLine := modifyGet fun t =>
    match t.input with
    | [] => (.ok none, t)
    | line :: rest => ((readText (.ok ⟨line.toArray⟩)).map some, { t with input := rest })
  write bytes := modify fun t => { t with stdout := t.stdout ++ bytes }
  report text := modify fun t => { t with stderr := t.stderr ++ text }

structure Transcript where
  code : Nat
  stdout : ByteArray
  stderr : String

/-- What a call of the command leaves, given how to read a file and what comes in on standard
input. There is no answer when a loop makes more than `rounds` rounds. -/
def transcript (rounds : Nat) (readFile : String → Except ReadFault ByteArray) (stdin : ByteArray)
    (args : List String) : Option Transcript :=
  let input := cutLines stdin.toList
  let result := (call Tape.streams (fun path => pure (readFile path)) rounds (input.length + 1)
    args).run ⟨input, .empty, ""⟩
  result.1.map (⟨·, result.2.stdout, result.2.stderr⟩)

end Scriptlet.Command
