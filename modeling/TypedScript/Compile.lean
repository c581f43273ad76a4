import TypedScript.Check.Statements
import TypedScript.Grammar.Statements
import TypedScript.Options
import TypedScript.Scope.Root
import TypedScript.Script.Lines
import TypedScript.Script.Lower

/-!
# Compilation

* `analyseSource`   the annotated program of a source text;
* `script`          the script of a program;
* `compile`         the text of that script;
* `compileSource`   all of it.

The target is looked at last: a fault of the program is reported for every target.
-/

namespace TypedScript

/-- scans, parses and checks a source text inside a root scope -/
def analyseSource (root : Scope) (source file : String) : Except Diagnostic Program := do
  analyse root (← parseSource source file)

def script (p : Program) : List Script.Stmt := (lowerBody p Names.initial).1

/-- the text of the script of a program -/
def scriptText (indent : Nat) (p : Program) : String :=
  Script.layout indent (Script.bodyLines 0 (script p))

def compile (options : Options) (p : Program) : Except Diagnostic String :=
  if options.target.isSupported then .ok (scriptText options.indent p)
  else .error (.unplaced (.unsupportedTarget options.target.name))

/-- a source text as text of the target language -/
def compileSource (root : Scope) (source file : String) (options : Options) :
    Except Diagnostic String := do
  compile options (← analyseSource root source file)

end TypedScript
