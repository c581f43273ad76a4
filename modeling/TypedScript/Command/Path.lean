
/-!
# Paths

A path is a text whose components stand between slashes.
-/

namespace TypedScript

/-- splits a text at the slashes -/
def splitSlashes : List Char → List (List Char)
  | [] => [[]]
  | c :: cs =>
    if c = '/' then [] :: splitSlashes cs
    else
      match splitSlashes cs with
      | [] => [[c]]
      | p :: ps => (c :: p) :: ps

/-- the texts between the slashes of a path, empty ones included -/
def pathComponents (path : String) : List String :=
  (splitSlashes path.toList).map String.ofList

/-- empty components and single dots name no place of their own -/
def namesPlace (component : String) : Bool := component != "" && component != "."

/-- the last component of a path that names a place, or the whole path if there is none or if it
leads to the directory above -/
def fileName (path : String) : String :=
  match ((pathComponents path).filter namesPlace).getLast? with
  | some name => if name = ".." then path else name
  | none => path

end TypedScript
