import TypedScript.Scope.Basic

/-!
# The types that written types stand for

A name stands for a primitive type or a class in scope; `array`, `set`, `dict` and `tuple` build a
type from their arguments.  The number of arguments is checked before any of them is resolved.
-/

namespace TypedScript

/-! ## type constructors -/

inductive Generic where
  | array | set | dict | tuple
  deriving DecidableEq, Repr, Inhabited

namespace Generic

def ofName? : String → Option Generic
  | "array" => some array
  | "set" => some set
  | "dict" => some dict
  | "tuple" => some tuple
  | _ => none

/-- the number of arguments that messages ask for -/
def arity : Generic → Nat
  | array | set | tuple => 1
  | dict => 2

/-- a tuple takes any positive number of arguments -/
def accepts : Generic → Nat → Bool
  | tuple, n => 0 < n
  | g, n => n = g.arity

/-- the type built from as many arguments as are accepted -/
def build : Generic → List Ty → Ty
  | array, t :: _ => .array t
  | set, t :: _ => .set t
  | dict, k :: v :: _ => .dict k v
  | _, ts => .tupleOf ts

end Generic

/-! ## resolution -/

mutual

/-- the type that a written type stands for in a scope -/
def TypeTerm.resolve (s : Scope) : TypeTerm → Except Cause Ty
  | .named name =>
    match Generic.ofName? name with
    | some g => .error (.genericArity name g.arity 0)
    | none =>
      match s.findClass? name with
      | some c => .ok c.type
      | none => .error (.unknownType name)
  | .generic name arguments =>
    match Generic.ofName? name with
    | none =>
      match s.findClass? name with
      | some _ => .error (.genericArity name 0 arguments.length)
      | none => .error (.unknownType name)
    | some g =>
      if g.accepts arguments.length then do
        return g.build (← TypeTerm.resolveAll s arguments)
      else .error (.genericArity name g.arity arguments.length)
  | .nullable inner => do return .nullable (← inner.resolve s)

def TypeTerm.resolveAll (s : Scope) : List TypeTerm → Except Cause (List Ty)
  | [] => .ok []
  | t :: ts => do
    let type ← t.resolve s
    let types ← TypeTerm.resolveAll s ts
    return type :: types

end

end TypedScript
