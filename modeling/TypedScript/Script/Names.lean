import TypedScript.Tree.Basic

/-!
# Names in a script

Every declaration gets a name of its own: its source name and a number, counted from one in the order
in which declarations first occur.  A declaration without an identity keeps its source name, and a
built-in has the name that the target language gives it.
-/

namespace TypedScript

/-- the names given out so far, and the next number -/
structure Names where
  given : List (DeclId × String)
  next : Nat
  deriving Inhabited

def Names.initial : Names := ⟨[], 1⟩

/-- computations that give out names -/
abbrev Naming := StateM Names

namespace Naming

/-- a name that no declaration has -/
def fresh (name : String) : Naming String := fun ns =>
  (name ++ "_" ++ toString ns.next, { ns with next := ns.next + 1 })

/-- the name of a declaration -/
def declaration (id : Option DeclId) (name : String) : Naming String := fun ns =>
  match id with
  | none => (name, ns)
  | some id =>
    match ns.given.lookup id with
    | some n => (n, ns)
    | none =>
      let (n, ns) := fresh name ns
      (n, { ns with given := (id, n) :: ns.given })

/-- the name by which a symbol is called -/
def symbol (x : Symbol) : Naming String :=
  match x.resolution with
  | some (.declared id) => declaration (some id) x.name
  | some (.builtin native) => pure native
  | none => pure x.name

end Naming

end TypedScript
