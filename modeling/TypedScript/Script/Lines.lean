import TypedScript.Script.Text

/-!
# The lines of a script

A statement is printed as lines, each with its depth of nesting.  The width of the indentation comes
in only when lines are laid out as text.
-/

namespace TypedScript.Script

structure Line where
  depth : Nat
  text : String
  deriving DecidableEq, Repr, Inhabited

/-- a line indented by `width` blanks for each level -/
def Line.layout (width : Nat) (l : Line) : String :=
  String.ofList (List.replicate (l.depth * width) ' ') ++ l.text ++ "\n"

/-- lines as one text -/
def layout (width : Nat) (ls : List Line) : String := String.join (ls.map (Line.layout width))

/-! ## parts of lines -/

/-- several targets take their values at once, through arrays -/
def destructure (targets values : List String) : String :=
  match targets, values with
  | [t], [v] => t ++ " = " ++ v
  | ts, vs => "[" ++ commas ts ++ "] = [" ++ commas vs ++ "]"

def declarationText (constant : Bool) (names values : List String) : String :=
  (if constant then "const " else "let ") ++
    (if values.isEmpty then commas names else destructure names values) ++ ";"

def Param.text (p : Param) : String :=
  match p.default with
  | some e => p.name ++ " = " ++ e.text
  | none => p.name

def functionHeader (async : Bool) (name : String) (params : List Param) : String :=
  (if async then "async function " else "function ") ++ name ++
    "(" ++ commas (params.map Param.text) ++ ") \x7b"

def updateText (target : String) : Update Expr → String
  | .increment => target ++ "++"
  | .decrement => target ++ "--"
  | .increase e => target ++ " += " ++ e.text
  | .decrease e => target ++ " -= " ++ e.text

def forHeader (index : String) (init test : Expr) (target : String) (update : Update Expr) :
    String :=
  "for (let " ++ index ++ " = " ++ init.text ++ "; " ++ test.text ++ "; " ++
    updateText target update ++ ") \x7b"

/-! ## statements -/

mutual

/-- the lines of a statement at a depth of nesting -/
def Stmt.lines (d : Nat) : Stmt → List Line
  | .expression e => [⟨d, e.text ++ ";"⟩]
  | .declare constant names values =>
    [⟨d, declarationText constant names (values.map Expr.text)⟩]
  | .assign targets values =>
    [⟨d, destructure (targets.map Expr.text) (values.map Expr.text) ++ ";"⟩]
  | .function async name params body =>
    ⟨d, functionHeader async name params⟩ :: (bodyLines (d + 1) body ++ [⟨d, "\x7d"⟩])
  | .constructor name params fields =>
    ⟨d, functionHeader false name params⟩ ::
      (fields.map (fun f => ⟨d + 1, "this." ++ f ++ " = " ++ f ++ ";"⟩) ++ [⟨d, "\x7d"⟩])
  | .attach constructor method =>
    [⟨d, constructor ++ ".prototype." ++ method ++ " = " ++ method ++ ";"⟩]
  | .conditional branches otherwise =>
    branchLines d "if (" branches ++ otherwiseLines d otherwise ++ [⟨d, "\x7d"⟩]
  | .whileLoop condition body =>
    ⟨d, "while (" ++ condition.text ++ ") \x7b"⟩ :: (bodyLines (d + 1) body ++ [⟨d, "\x7d"⟩])
  | .forLoop index init test target update body =>
    ⟨d, forHeader index init test target update⟩ :: (bodyLines (d + 1) body ++ [⟨d, "\x7d"⟩])
  | .switch cases otherwise =>
    ⟨d, "switch (true) \x7b"⟩ ::
      (caseLines (d + 1) cases ++ defaultLines (d + 1) otherwise ++ [⟨d, "\x7d"⟩])
  | .breakLoop => [⟨d, "break;"⟩]
  | .continueLoop => [⟨d, "continue;"⟩]
  | .returnValue (some e) => [⟨d, "return " ++ e.text ++ ";"⟩]
  | .returnValue none => [⟨d, "return;"⟩]
  | .print e => [⟨d, "console.log(" ++ e.text ++ ");"⟩]
  | .block body => ⟨d, "\x7b"⟩ :: (bodyLines (d + 1) body ++ [⟨d, "\x7d"⟩])

def bodyLines (d : Nat) : List Stmt → List Line
  | [] => []
  | s :: ss => s.lines d ++ bodyLines d ss

/-- the branches of a conditional; `opening` is how the first one starts -/
def branchLines (d : Nat) (opening : String) : List (Guarded Stmt) → List Line
  | [] => []
  | ⟨guard, body⟩ :: gs =>
    ⟨d, opening ++ guard.text ++ ") \x7b"⟩ ::
      (bodyLines (d + 1) body ++ branchLines d "\x7d else if (" gs)

def otherwiseLines (d : Nat) : Option (List Stmt) → List Line
  | none => []
  | some body => ⟨d, "\x7d else \x7b"⟩ :: bodyLines (d + 1) body

/-- the cases of a switch, each of which ends with a break -/
def caseLines (d : Nat) : List (Guarded Stmt) → List Line
  | [] => []
  | ⟨guard, body⟩ :: gs =>
    ⟨d, "case " ++ guard.text ++ ":"⟩ ::
      (bodyLines (d + 1) body ++ ⟨d + 1, "break;"⟩ :: caseLines d gs)

def defaultLines (d : Nat) : Option (List Stmt) → List Line
  | none => []
  | some body => ⟨d, "default:"⟩ :: bodyLines (d + 1) body

end

end TypedScript.Script
