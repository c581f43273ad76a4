import TypedScript.Command.Arguments
import TypedScript.Command.Files
import TypedScript.Compile

/-!
# The command

Reads a source file, compiles it, and writes the script to a file or to the standard output.  Nothing
is written unless the whole compilation succeeds.
-/

namespace TypedScript

def usage : String :=
  "usage: scriptc <file> [--target <js|py|lua>] [--output <path>] [--indent <n>]"

/-- what a run of the command leaves behind, files apart -/
structure Outcome where
  status : Nat
  stdout : String
  stderr : String
  deriving DecidableEq, Repr, Inhabited

namespace Outcome

def success (stdout : String) : Outcome := ⟨0, stdout, ""⟩

def failure (stderr : String) : Outcome := ⟨1, "", stderr⟩

end Outcome

/-- the text of a file -/
def sourceText (contents : Except FileFault ByteArray) : Except FileFault String := do
  match String.fromUTF8? (← contents) with
  | some text => return text
  | none => throw .notText

/-- compiles a source text under the name of the file at `path` -/
def compileFile (path source : String) (options : Options) : Except Diagnostic String :=
  compileSource .root source (fileName path) options

/-- runs the command -/
def runCommand {m : Type → Type} [Monad m] (files : Files m) (arguments : List String) :
    m Outcome := do
  match Arguments.ofList arguments with
  | .error fault => return .failure (fault.message ++ "\n" ++ usage ++ "\n")
  | .ok a =>
    match sourceText (← files.read a.input) with
    | .error fault =>
      return .failure ("Failed to read " ++ a.input ++ ": " ++ fault.message ++ "\n")
    | .ok source =>
      match compileFile a.input source a.options with
      | .error d => return .failure (d.report source)
      | .ok text =>
        match a.output with
        | none => return .success text
        | some path =>
          match ← files.write path text with
          | .ok () => return .success ""
          | .error fault =>
            return .failure ("Failed to write " ++ path ++ ": " ++ fault.message ++ "\n")

end TypedScript
