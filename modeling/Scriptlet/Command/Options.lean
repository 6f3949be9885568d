/-!
# Command line options

`[SCRIPT] [--tokens] [--ast] [-v|--verbose] [-h|--help] [-V|--version]`, in any order. Options are
read from the left, and the first that asks for help or for the version decides, unless
something malformed stands before it.
-/

namespace Scriptlet.Command

structure Options where
  script : Option String
  dumpTokens : Bool
  dumpTree : Bool
  verbose : Bool
  deriving DecidableEq, Repr

/-- What a command line asks for. -/
inductive Request where
  | run (options : Options)
  | help
  | version
  | malformed
  deriving DecidableEq, Repr

namespace Options

/-- No script and no flag. -/
def initial : Options := ⟨none, false, false, false⟩

/-- One script may be named, and not by an empty text. -/
def withScript? (o : Options) (path : String) : Option Options :=
  if path = "" ∨ o.script.isSome then none else some { o with script := some path }

/-- A flag may be given once. -/
def withTokens? (o : Options) : Option Options :=
  if o.dumpTokens then none else some { o with dumpTokens := true }

def withTree? (o : Options) : Option Options :=
  if o.dumpTree then none else some { o with dumpTree := true }

def withVerbose? (o : Options) : Option Options :=
  if o.verbose then none else some { o with verbose := true }

/-- Goes on with the options so far, if they are well formed. -/
def continuing (next : Options → Request) : Option Options → Request
  | some o => next o
  | none => .malformed

/-- What follows `--` names scripts only. -/
def readScripts : List String → Options → Request
  | [], o => .run o
  | path :: rest, o => continuing (readScripts rest) (o.withScript? path)

/-- Flags of one letter each, combined behind one dash. -/
def readLetters (next : Options → Request) : List Char → Options → Request
  | [], o => next o
  | 'v' :: rest, o => continuing (readLetters next rest) o.withVerbose?
  | 'h' :: _, _ => .help
  | 'V' :: _, _ => .version
  | _ :: _, _ => .malformed

def read : List String → Options → Request
  | [], o => .run o
  | arg :: rest, o =>
    if arg = "--" then readScripts rest o
    else if arg = "--tokens" then continuing (read rest) o.withTokens?
    else if arg = "--ast" then continuing (read rest) o.withTree?
    else if arg = "--verbose" then continuing (read rest) o.withVerbose?
    else if arg = "--help" then .help
    else if arg = "--version" then .version
    else
      match arg.toList with
      | '-' :: '-' :: _ => .malformed
      | '-' :: c :: letters => readLetters (read rest) (c :: letters) o
      | _ => continuing (read rest) (o.withScript? arg)

end Options

def Request.ofArgs (args : List String) : Request := Options.read args .initial

end Scriptlet.Command
