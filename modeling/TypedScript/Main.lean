import TypedScript.Command.Run

/-!
# Command line

`runCommand` over the files of the system.
-/

namespace TypedScript

/-- the fault behind an error of the system -/
def systemFault : IO.Error → FileFault
  | .alreadyExists _ code text => .system text code.toNat
  | .otherError code text => .system text code.toNat
  | .resourceBusy code text => .system text code.toNat
  | .resourceVanished code text => .system text code.toNat
  | .unsupportedOperation code text => .system text code.toNat
  | .hardwareFault code text => .system text code.toNat
  | .unsatisfiedConstraints code text => .system text code.toNat
  | .illegalOperation code text => .system text code.toNat
  | .protocolError code text => .system text code.toNat
  | .timeExpired code text => .system text code.toNat
  | .interrupted _ code text => .system text code.toNat
  | .noFileOrDirectory _ code text => .system text code.toNat
  | .invalidArgument _ code text => .system text code.toNat
  | .permissionDenied _ code text => .system text code.toNat
  | .resourceExhausted _ code text => .system text code.toNat
  | .inappropriateType _ code text => .system text code.toNat
  | .noSuchThing _ code text => .system text code.toNat
  | .unexpectedEof => .other "unexpected end of file"
  | .userError text => .other text

def attempted {α : Type} (action : IO α) : IO (Except FileFault α) := do
  try return .ok (← action) catch e => return .error (systemFault e)

/-- the files of the system -/
def systemFiles : Files IO where
  read path := attempted (IO.FS.withFile path .read fun h => h.readBinToEnd)
  write path text := attempted (IO.FS.withFile path .write fun h => h.putStr text)

end TypedScript

def main (arguments : List String) : IO UInt32 := do
  let outcome ← TypedScript.runCommand TypedScript.systemFiles arguments
  IO.print outcome.stdout
  IO.eprint outcome.stderr
  return UInt32.ofNat outcome.status
