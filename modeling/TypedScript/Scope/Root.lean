import TypedScript.Scope.Basic

/-!
# The root scope

What every program finds declared: the names of the primitive types, and the built-in functions with
the names under which the target language knows them.
-/

namespace TypedScript

/-- a primitive type is a class without a constructor -/
def primitives : List (String × Ty) :=
  [("int", .int), ("long", .long), ("string", .string), ("bool", .bool), ("none", .none)]

/-- a built-in function of one argument -/
structure Builtin where
  name : String
  native : String
  argument : Ty
  returns : Ty

def builtins : List Builtin :=
  [⟨"str", "String", .int, .string⟩, ⟨"parseInt", "parseInt", .string, .int⟩,
   ⟨"toLong", "BigInt", .int, .long⟩, ⟨"toInt", "Number", .long, .int⟩]

def Builtin.binding (b : Builtin) : Binding :=
  ⟨.builtin b.native, .function [⟨b.argument, false⟩] b.returns false, .builtin⟩

namespace Scope

def root : Scope :=
  let classes := primitives.foldl (fun s (name, type) =>
    s.defineClass name ⟨.builtin name, type, none⟩) empty
  builtins.foldl (fun s b => s.defineVariable b.name b.binding) classes

end Scope

end TypedScript
