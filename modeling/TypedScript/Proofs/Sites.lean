import TypedScript.Tree.Basic

/-!
# Declaration sites and uses

The places of a tree where a name is declared, and those where a name is used.
-/

namespace TypedScript

/-! ## sites -/

/-- a place where a name is declared, with what is written and recorded there; the index of a loop is
a variable -/
inductive Site where
  | variable (constant : Bool) (d : Declarator)
  | parameter (p : Parameter)
  | function (h : FunctionHead)
  | classDef (h : ClassHead)

def Site.name : Site → String
  | .variable _ d => d.name
  | .parameter p => p.name
  | .function h => h.name
  | .classDef h => h.name

def Site.id : Site → Option DeclId
  | .variable _ d => d.id
  | .parameter p => p.id
  | .function h => h.id
  | .classDef h => h.id

mutual

def Stmt.sites : Stmt → List Site
  | .declare constant ds _ => ds.map (.variable constant)
  | .function h body => .function h :: (h.parameters.map .parameter ++ bodySites body)
  | .classDef h body => .classDef h :: (h.parameters.map .parameter ++ bodySites body)
  | .conditional branches otherwise => branchSites branches ++ otherwiseSites otherwise
  | .whileLoop _ body => bodySites body
  | .forLoop h body => .variable false h.index :: bodySites body
  | .rangeLoop _ _ body => bodySites body
  | .switch _ cases otherwise => branchSites cases ++ otherwiseSites otherwise
  | .block body => bodySites body
  | _ => []

def bodySites : List Stmt → List Site
  | [] => []
  | s :: ss => s.sites ++ bodySites ss

def branchSites : List (Guarded Stmt) → List Site
  | [] => []
  | ⟨_, body⟩ :: gs => bodySites body ++ branchSites gs

def otherwiseSites : Option (List Stmt) → List Site
  | none => []
  | some body => bodySites body

end

theorem mem_bodySites : d ∈ bodySites body ↔ ∃ s ∈ body, d ∈ s.sites := by
  induction body with
  | nil => exact ⟨nofun, nofun⟩
  | cons s ss ih =>
    rw [bodySites, List.mem_append, ih]
    constructor
    · rintro (h | ⟨s', hs', h⟩)
      · exact ⟨s, List.mem_cons_self, h⟩
      · exact ⟨s', List.mem_cons_of_mem s hs', h⟩
    · rintro ⟨s', hs', h⟩
      rcases List.mem_cons.mp hs' with rfl | hs'
      · exact .inl h
      · exact .inr ⟨s', hs', h⟩

/-! ## uses -/

mutual

def Expr.uses : Expr → List Symbol
  | .literal _ _ => []
  | .name x _ => [x]
  | .binary _ left right _ => left.uses ++ right.uses
  | .unary _ operand _ => operand.uses
  | .call callee arguments _ _ _ => callee.uses ++ Expr.usesAll arguments
  | .subscript base index _ => base.uses ++ index.uses
  | .member object x _ => object.uses ++ [x]
  | .collection _ elements _ => Expr.usesAll elements
  | .dict entries _ => Expr.entryUses entries

def Expr.usesAll : List Expr → List Symbol
  | [] => []
  | e :: es => e.uses ++ Expr.usesAll es

def Expr.entryUses : List (Expr × Expr) → List Symbol
  | [] => []
  | (key, value) :: es => key.uses ++ value.uses ++ Expr.entryUses es

end

def Update.uses : Update Expr → List Symbol
  | .increment => []
  | .decrement => []
  | .increase e => e.uses
  | .decrease e => e.uses

def Parameter.uses (p : Parameter) : List Symbol := Expr.usesAll p.default.toList

def ForHead.uses (h : ForHead) : List Symbol :=
  h.init.uses ++ h.test.uses ++ h.target :: h.update.uses

mutual

def Stmt.uses : Stmt → List Symbol
  | .expression e => e.uses
  | .declare _ _ values => Expr.usesAll values
  | .assign targets values => Expr.usesAll targets ++ Expr.usesAll values
  | .function h body => h.parameters.flatMap Parameter.uses ++ bodyUses body
  | .classDef h body => h.parameters.flatMap Parameter.uses ++ bodyUses body
  | .conditional branches otherwise => branchUses branches ++ otherwiseUses otherwise
  | .whileLoop condition body => condition.uses ++ bodyUses body
  | .forLoop h body => h.uses ++ bodyUses body
  | .rangeLoop start stop body => start.uses ++ stop.uses ++ bodyUses body
  | .switch scrutinee cases otherwise => scrutinee.uses ++ branchUses cases ++ otherwiseUses otherwise
  | .breakLoop => []
  | .continueLoop => []
  | .returnValue value => Expr.usesAll value.toList
  | .print e => e.uses
  | .block body => bodyUses body

def bodyUses : List Stmt → List Symbol
  | [] => []
  | s :: ss => s.uses ++ bodyUses ss

def branchUses : List (Guarded Stmt) → List Symbol
  | [] => []
  | ⟨guard, body⟩ :: gs => guard.uses ++ bodyUses body ++ branchUses gs

def otherwiseUses : Option (List Stmt) → List Symbol
  | none => []
  | some body => bodyUses body

end

end TypedScript
