import Scriptlet.Command.Transcript

/-!
# The command

The command line on real files and streams. What it does with them is decided by
`Scriptlet.Command`; here bytes are only moved.
-/

namespace Scriptlet.Command

/-- More rounds than a loop can make in practice, and more turns than a prompt. -/
def manyRounds : Nat := Nat.pow 2 62

def readFault : IO.Error → ReadFault
  | .noFileOrDirectory .. => .notFound
  | .inappropriateType _ code _ => if code = 21 then .isDirectory else .notDirectory
  | .permissionDenied .. => .other "Permission denied (os error 13)"
  | e => .other (toString e)

def readFile (path : String) : IO (Except ReadFault ByteArray) := do
  try
    return .ok (← IO.FS.readBinFile path)
  catch e =>
    return .error (readFault e)

/-- The bytes up to the next line feed, which belongs to them, or to the end. -/
partial def readLine (input : IO.FS.Stream) (line : ByteArray) : IO ByteArray := do
  let next ← input.read 1
  if next.isEmpty then return line
  let line := line ++ next
  if next.toList = [10] then return line
  readLine input line

def streams : Streams IO where
  readLine := do
    try
      let line ← readLine (← IO.getStdin) .empty
      return if line.isEmpty then .ok none else (readText (.ok line)).map some
    catch e =>
      return .error (readFault e)
  write bytes := do
    let stdout ← IO.getStdout
    stdout.write bytes
    stdout.flush
  report := IO.eprint

end Scriptlet.Command

open Scriptlet Command in
def main (args : List String) : IO UInt32 := do
  match ← call streams readFile manyRounds manyRounds args with
  | some code => return code.toUInt32
  | none => return 70
