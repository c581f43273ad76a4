import TypedScript.Source
import TypedScript.Text.Lines
import TypedScript.Diagnostic.Cause

/-!
# Diagnostics and their reports

A diagnostic is a cause, with a position if it was found at a place in the source.  Its report is a
header line and, for a position inside the source, the file, the line and a caret under the place:

    Error: UnexpectedToken (Unexpected token: `;`, did you miss a semicolon?)
    -> loop.sc
       |
    12 | let a = ;
       | --------^

The excerpt is printed without its leading blanks, and the caret moves left by as many columns; the
columns before it count the bytes of the source.
-/

namespace TypedScript

structure Diagnostic where
  cause : Cause
  position : Option Position
  deriving DecidableEq, Repr, Inhabited

namespace Diagnostic

/-- a diagnostic at a place in the source -/
def atPosition (cause : Cause) (p : Position) : Diagnostic := ⟨cause, some p⟩

/-- a diagnostic that names its construct only -/
def unplaced (cause : Cause) : Diagnostic := ⟨cause, none⟩

open Text

/-- the header line, with the tip if there is one -/
def header (d : Diagnostic) : String :=
  match d.cause.tip with
  | none => "Error: " ++ d.cause.name ++ "\n"
  | some tip => "Error: " ++ d.cause.name ++ " (" ++ tip ++ ")\n"

/-- a text without white space at its ends -/
def trimmed (cs : List Char) : List Char :=
  ((cs.dropWhile isBlank).reverse.dropWhile isBlank).reverse

/-- the number of blanks before the first other character -/
def leadingBlanks (cs : List Char) : Nat := (cs.takeWhile (· == ' ')).length

/-- the bar under a line number of `width` digits -/
def gutter (width : Nat) : String := String.ofList (List.replicate (width + 1) ' ') ++ "|"

/-- the file, the line and the caret -/
def excerpt (file : String) (line : Line) : String :=
  let number := toString line.number
  let removed := leadingBlanks line.text
  "-> " ++ file ++ "\n"
    ++ gutter number.length ++ "\n"
    ++ number ++ " | " ++ String.ofList (trimmed (line.text.drop removed)) ++ "\n"
    ++ gutter number.length ++ " "
    ++ String.ofList (List.replicate (line.offset - removed) '-') ++ "^\n"

/-- the report of a diagnostic about `source` -/
def report (d : Diagnostic) (source : String) : String :=
  match d.position with
  | none => d.header
  | some p =>
    match lineAt source.toList p.offset with
    | none => d.header
    | some line => d.header ++ excerpt p.file line

end Diagnostic

end TypedScript
