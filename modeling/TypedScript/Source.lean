
/-!
# Places in a source file

All offsets count UTF-8 bytes from the start of the file.
-/

namespace TypedScript

/-- a byte offset in a named file -/
structure Position where
  offset : Nat
  file : String
  deriving DecidableEq, Repr, Inhabited

/-- the bytes from `start` up to `stop` of a named file -/
structure Span where
  start : Nat
  stop : Nat
  file : String
  deriving DecidableEq, Repr, Inhabited

def Span.position (s : Span) : Position := ⟨s.start, s.file⟩

/-- the empty span after `s` -/
def Span.after (s : Span) : Span := ⟨s.stop, s.stop, s.file⟩

end TypedScript
