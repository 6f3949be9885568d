/-!
# Sinks

A sink collects output bytes. One with a limit takes as many bytes as it has room for, also a
part of a text, and refuses the rest.
-/

namespace Scriptlet

structure Sink where
  written : ByteArray
  /-- How many more bytes the sink takes; there is no limit when this is `none`. -/
  room : Option Nat
  /-- The reason that is given when the sink refuses bytes. -/
  refusal : String

namespace Sink

def unlimited : Sink := ⟨.empty, none, "sink full"⟩

def limited (room : Nat) : Sink := ⟨.empty, some room, "sink full"⟩

/-- The sink after a text was written to it, and whether it took all of it. -/
def write (s : Sink) (text : String) : Sink × Bool :=
  let bytes := text.toUTF8
  match s.room with
  | none => ({ s with written := s.written ++ bytes }, true)
  | some room =>
    if bytes.size ≤ room then
      ({ s with written := s.written ++ bytes, room := some (room - bytes.size) }, true)
    else
      ({ s with written := s.written ++ bytes.extract 0 room, room := some 0 }, false)

end Sink
end Scriptlet
