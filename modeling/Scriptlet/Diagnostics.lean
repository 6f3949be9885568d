import Scriptlet.Source.Scan
import Scriptlet.Syntax.Program
import Scriptlet.Evaluation

/-!
# Diagnostics

What went wrong with a source, in the order in which it was found, and how it is worded.
-/

namespace Scriptlet

inductive Diagnostic where
  | scan (line : Nat) (message : String)
  | parse (token : Token) (message : String)
  | runtime (token : Token) (message : String)
  | unreadable (path reason : String)
  deriving DecidableEq

def ScanError.diagnostic (e : ScanError) : Diagnostic := .scan e.line e.fault.message

def SyntaxError.diagnostic (e : SyntaxError) : Diagnostic := .parse e.token e.fault.message

def RuntimeError.diagnostic (e : RuntimeError) : Diagnostic := .runtime e.token e.message

namespace Diagnostic

/-- Where a syntax error was found: at a lexeme or at the end of input. -/
def place (token : Token) : String :=
  if token.kind = .endOfInput then " at end" else " at '" ++ token.lexeme ++ "'"

def text : Diagnostic → String
  | scan line message => "[line " ++ toString line ++ "] error: " ++ message
  | parse token message =>
    "[line " ++ toString token.line ++ "] error" ++ place token ++ ": " ++ message
  | runtime token message => message ++ "\n[line " ++ toString token.line ++ "]"
  | unreadable path reason => "could not read " ++ path ++ ": " ++ reason

/-- Errors of scanning and parsing keep a source from being run. -/
def isStatic : Diagnostic → Bool
  | scan _ _ | parse _ _ => true
  | _ => false

def isRuntime : Diagnostic → Bool
  | runtime _ _ => true
  | _ => false

end Diagnostic

structure Diagnostics where
  all : List Diagnostic
  deriving DecidableEq

namespace Diagnostics

def empty : Diagnostics := ⟨[]⟩

def append (ds : Diagnostics) (more : List Diagnostic) : Diagnostics := ⟨ds.all ++ more⟩

def hadError (ds : Diagnostics) : Bool := ds.all.any Diagnostic.isStatic

def hadRuntimeError (ds : Diagnostics) : Bool := ds.all.any Diagnostic.isRuntime

/-- Each diagnostic's text on lines of its own. -/
def text (ds : Diagnostics) : String := String.join (ds.all.map (fun d => d.text ++ "\n"))

end Diagnostics
end Scriptlet
