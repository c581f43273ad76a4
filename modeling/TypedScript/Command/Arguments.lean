import TypedScript.Options
import TypedScript.Text.Number

/-!
# Command line arguments

One input path, and options that take the argument after them as their value, whatever it is.  An
option that is given twice counts with its last value.  The first fault from the left is reported;
that the input is missing shows only at the end.
-/

namespace TypedScript

/-! ## faults -/

inductive ArgumentFault where
  | missingValue (option : String)
  | badTarget (cause : Cause)
  | badIndent (value : String)
  | unknownOption (option : String)
  | unexpectedArgument (argument : String)
  | noInput
  deriving DecidableEq, Inhabited

def ArgumentFault.message : ArgumentFault → String
  | missingValue option => "missing value for " ++ option
  | badTarget cause => cause.message
  | badIndent value => "invalid indent width: " ++ value
  | unknownOption option => "unknown option: " ++ option
  | unexpectedArgument argument => "unexpected argument: " ++ argument
  | noInput => "no input file given"

/-! ## arguments -/

/-- an option that takes a value -/
inductive Flag where
  | target | output | indent
  deriving DecidableEq, Repr, Inhabited

def Flag.ofText? : String → Option Flag
  | "--target" => some target
  | "--output" => some output
  | "--indent" => some indent
  | _ => none

/-- what a command line asks for -/
structure Arguments where
  input : String
  output : Option String
  options : Options
  deriving DecidableEq, Inhabited

/-- what the arguments read so far ask for -/
structure Settings where
  input : Option String
  output : Option String
  options : Options
  deriving DecidableEq, Inhabited

namespace Settings

def initial : Settings := ⟨none, none, .standard⟩

def set (s : Settings) (value : String) : Flag → Except ArgumentFault Settings
  | .target =>
    match Target.ofText value with
    | .ok t => .ok { s with options := { s.options with target := t } }
    | .error d => .error (.badTarget d.cause)
  | .output => .ok { s with output := some value }
  | .indent =>
    match Text.word64? value.toList with
    | some n => .ok { s with options := { s.options with indent := n } }
    | none => .error (.badIndent value)

/-- an argument that takes no value -/
def add (s : Settings) (argument : String) : Except ArgumentFault Settings :=
  if ['-', '-'].isPrefixOf argument.toList then .error (.unknownOption argument)
  else
    match s.input with
    | none => .ok { s with input := some argument }
    | some _ => .error (.unexpectedArgument argument)

def read (s : Settings) : List String → Except ArgumentFault Settings
  | [] => .ok s
  | [argument] =>
    match Flag.ofText? argument with
    | some _ => .error (.missingValue argument)
    | none => s.add argument
  | argument :: value :: rest =>
    match Flag.ofText? argument with
    | some flag => do read (← s.set value flag) rest
    | none => do read (← s.add argument) (value :: rest)

end Settings

/-- what the arguments of a command line ask for -/
def Arguments.ofList (arguments : List String) : Except ArgumentFault Arguments := do
  let s ← Settings.initial.read arguments
  match s.input with
  | some input => return ⟨input, s.output, s.options⟩
  | none => throw .noInput

end TypedScript
