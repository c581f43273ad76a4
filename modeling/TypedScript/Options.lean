import TypedScript.Diagnostic.Report

/-!
# Options of a compilation

The language to compile to, and the width of an indentation step.  Several languages are known by
name; only JavaScript can be compiled to.
-/

namespace TypedScript

inductive Target where
  | javascript | python | lua
  deriving DecidableEq, Repr, Inhabited

namespace Target

def name : Target → String
  | javascript => "javascript"
  | python => "python"
  | lua => "lua"

/-- the languages for which there is a script tree -/
def isSupported : Target → Bool
  | javascript => true
  | python => false
  | lua => false

/-- the target of a name in lower case -/
def ofName? : String → Option Target
  | "js" => some javascript
  | "javascript" => some javascript
  | "py" => some python
  | "python" => some python
  | "lua" => some lua
  | _ => none

/-- the target that a text names; the case of ASCII letters does not matter -/
def ofText (text : String) : Except Diagnostic Target :=
  match ofName? (String.ofList (text.toList.map Char.toLower)) with
  | some t => .ok t
  | none => .error (.unplaced (.unsupportedTarget text))

end Target

structure Options where
  target : Target
  /-- the number of blanks for one level of nesting -/
  indent : Nat
  deriving DecidableEq, Repr

def Options.standard : Options := ⟨.javascript, 4⟩

instance : Inhabited Options := ⟨.standard⟩

end TypedScript
