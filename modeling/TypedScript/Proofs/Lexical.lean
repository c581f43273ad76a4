import TypedScript.Scope.Root

/-!
# Lexical scoping

What the names of a tree refer to, by a walk over the tree alone.  The tree has the identities of its
declarations already; the walk carries the names that are visible, scope by scope.

* `Levels`: the scopes around a place, the innermost first;
* `Stmt.withoutTypes`: a tree with its references and identities, but no types.

A class body is not a scope of its own: its functions are visible from its start, and they and its
variables stay visible after it.
-/

namespace TypedScript

/-! ## levels -/

/-- the names that one scope makes visible -/
structure Level where
  vars : List (String × Resolution)
  classes : List (String × Resolution)

abbrev Levels := List Level

namespace Levels

def visible? (Γ : Levels) (x : String) : Option Resolution := Γ.findSome? (·.vars.lookup x)

def visibleClass? (Γ : Levels) (x : String) : Option Resolution := Γ.findSome? (·.classes.lookup x)

/-- a scope inside -/
def inner (Γ : Levels) : Levels := ⟨[], []⟩ :: Γ

/-- a change of the innermost scope -/
def modify (f : Level → Level) : Levels → Levels
  | [] => [f ⟨[], []⟩]
  | l :: ls => f l :: ls

/-- a variable in the innermost scope; a declaration without an identity is not visible -/
def addVariable (Γ : Levels) (x : String) : Option DeclId → Levels
  | none => Γ
  | some id => Γ.modify fun l => { l with vars := (x, .declared id) :: l.vars }

def addClass (Γ : Levels) (x : String) : Option DeclId → Levels
  | none => Γ
  | some id => Γ.modify fun l => { l with classes := (x, .declared id) :: l.classes }

/-- variables one after the other -/
def declare (Γ : Levels) (names : List (String × Option DeclId)) : Levels :=
  names.foldl (fun Γ n => Γ.addVariable n.1 n.2) Γ

/-- what every program finds -/
def root : Levels :=
  [⟨builtins.map fun b => (b.name, .builtin b.native), primitives.map fun p => (p.1, .builtin p.1)⟩]

theorem visible?_root (x : String) :
    root.visible? x = (builtins.map fun b => (b.name, Resolution.builtin b.native)).lookup x := by
  show List.findSome? _ [_] = _
  rw [List.findSome?_cons]
  cases (builtins.map fun b => (b.name, Resolution.builtin b.native)).lookup x <;> rfl

theorem visibleClass?_root (x : String) :
    root.visibleClass? x = (primitives.map fun p => (p.1, Resolution.builtin p.1)).lookup x := by
  show List.findSome? _ [_] = _
  rw [List.findSome?_cons]
  cases (primitives.map fun p => (p.1, Resolution.builtin p.1)).lookup x <;> rfl

theorem lookup_cons_ite (x y : String) (r : Resolution) (l : List (String × Resolution)) :
    ((x, r) :: l).lookup y = if y = x then some r else l.lookup y := by
  rw [List.lookup_cons]
  by_cases h : y = x
  · rw [if_pos h, beq_iff_eq.mpr h]
  · rw [if_neg h, beq_false_of_ne h]

theorem visible?_addVariable (Γ : Levels) (x y : String) (id : DeclId) :
    (Γ.addVariable x (some id)).visible? y = if y = x then some (.declared id) else Γ.visible? y := by
  cases Γ with
  | nil =>
    show List.findSome? _ [_] = _
    rw [List.findSome?_cons, lookup_cons_ite]
    by_cases h : y = x
    · rw [if_pos h, if_pos h]
    · rw [if_neg h, if_neg h]
      rfl
  | cons l ls =>
    show List.findSome? _ (_ :: ls) = if _ then _ else List.findSome? _ (l :: ls)
    rw [List.findSome?_cons, lookup_cons_ite, List.findSome?_cons]
    by_cases h : y = x
    · rw [if_pos h, if_pos h]
    · rw [if_neg h, if_neg h]

theorem visibleClass?_addVariable (Γ : Levels) (x y : String) (id : Option DeclId) :
    (Γ.addVariable x id).visibleClass? y = Γ.visibleClass? y := by
  cases id with
  | none => rfl
  | some id => cases Γ <;> rfl

theorem visibleClass?_addClass (Γ : Levels) (x y : String) (id : DeclId) :
    (Γ.addClass x (some id)).visibleClass? y = if y = x then some (.declared id) else Γ.visibleClass? y := by
  cases Γ with
  | nil =>
    show List.findSome? _ [_] = _
    rw [List.findSome?_cons, lookup_cons_ite]
    by_cases h : y = x
    · rw [if_pos h, if_pos h]
    · rw [if_neg h, if_neg h]
      rfl
  | cons l ls =>
    show List.findSome? _ (_ :: ls) = if _ then _ else List.findSome? _ (l :: ls)
    rw [List.findSome?_cons, lookup_cons_ite, List.findSome?_cons]
    by_cases h : y = x
    · rw [if_pos h, if_pos h]
    · rw [if_neg h, if_neg h]

theorem visible?_addClass (Γ : Levels) (x y : String) (id : Option DeclId) :
    (Γ.addClass x id).visible? y = Γ.visible? y := by
  cases id with
  | none => rfl
  | some id => cases Γ <;> rfl

end Levels

/-! ## expressions -/

def Symbol.resolveIn (x : Symbol) (Γ : Levels) : Symbol := { x with resolution := Γ.visible? x.name }

/-- a bare name in front of arguments, with no variable of that name in sight -/
def Levels.constructs (Γ : Levels) : Expr → Bool
  | .name x _ => (Γ.visible? x.name).isNone
  | _ => false

def Expr.asClassIn (Γ : Levels) : Expr → Expr
  | .name x _ => .name { x with resolution := Γ.visibleClass? x.name } none
  | e => e

mutual

/-- the references of an expression; its type slots are left empty -/
def Expr.resolveIn (Γ : Levels) : Expr → Expr
  | .literal v _ => .literal v none
  | .name x _ => .name (x.resolveIn Γ) none
  | .binary op left right _ => .binary op (left.resolveIn Γ) (right.resolveIn Γ) none
  | .unary op operand _ => .unary op (operand.resolveIn Γ) none
  | .call callee arguments awaited constructs _ =>
    if Γ.constructs callee then
      .call (callee.asClassIn Γ) (Expr.resolveAllIn Γ arguments) awaited true none
    else .call (callee.resolveIn Γ) (Expr.resolveAllIn Γ arguments) awaited constructs none
  | .subscript base index _ => .subscript (base.resolveIn Γ) (index.resolveIn Γ) none
  | .member object x _ => .member (object.resolveIn Γ) (x.resolveIn Γ) none
  | .collection form elements _ => .collection form (Expr.resolveAllIn Γ elements) none
  | .dict entries _ => .dict (Expr.resolveEntriesIn Γ entries) none

def Expr.resolveAllIn (Γ : Levels) : List Expr → List Expr
  | [] => []
  | e :: es => e.resolveIn Γ :: Expr.resolveAllIn Γ es

def Expr.resolveEntriesIn (Γ : Levels) : List (Expr × Expr) → List (Expr × Expr)
  | [] => []
  | (key, value) :: es => (key.resolveIn Γ, value.resolveIn Γ) :: Expr.resolveEntriesIn Γ es

end

def Update.resolveIn (Γ : Levels) : Update Expr → Update Expr
  | .increment => .increment
  | .decrement => .decrement
  | .increase e => .increase (e.resolveIn Γ)
  | .decrease e => .decrease (e.resolveIn Γ)

/-! ## declarations -/

def Parameter.resolveIn (Γ : Levels) (p : Parameter) : Parameter :=
  { p with default := p.default.map (Expr.resolveIn Γ), type := none }

/-- the initial value of an index does not see the index -/
def ForHead.resolveIn (Γ : Levels) (h : ForHead) : ForHead :=
  let Γ' := Γ.addVariable h.index.name h.index.id
  ⟨{ h.index with type := none }, h.init.resolveIn Γ, h.test.resolveIn Γ', h.target.resolveIn Γ',
    h.update.resolveIn Γ'⟩

def functionsOf : List Stmt → List (String × Option DeclId)
  | [] => []
  | .function h _ :: ss => (h.name, h.id) :: functionsOf ss
  | _ :: ss => functionsOf ss

/-! ## statements -/

mutual

/-- what is visible after a statement -/
def Stmt.leaves : Stmt → Levels → Levels
  | .declare _ ds _, Γ => Γ.declare (ds.map fun d => (d.name, d.id))
  | .classDef h body, Γ => eachLeaves body ((Γ.addClass h.name h.id).declare (functionsOf body))
  | _, Γ => Γ

def eachLeaves : List Stmt → Levels → Levels
  | [], Γ => Γ
  | s :: ss, Γ => eachLeaves ss (s.leaves Γ)

end

mutual

/-- the references of a statement -/
def Stmt.resolveIn (Γ : Levels) : Stmt → Stmt
  | .expression e => .expression (e.resolveIn Γ)
  | .declare constant ds values =>
    .declare constant (ds.map fun d => { d with type := none }) (Expr.resolveAllIn Γ values)
  | .assign targets values => .assign (Expr.resolveAllIn Γ targets) (Expr.resolveAllIn Γ values)
  | .function h body =>
    let Γ' := Γ.inner.declare (h.parameters.map fun p => (p.name, p.id))
    .function { h with parameters := h.parameters.map (Parameter.resolveIn Γ) }
      (eachResolveIn (Γ'.declare (functionsOf body)) body)
  | .classDef h body =>
    let Γ' := Γ.addClass h.name h.id
    .classDef { h with parameters := h.parameters.map (Parameter.resolveIn Γ') }
      (eachResolveIn (Γ'.declare (functionsOf body)) body)
  | .conditional branches otherwise =>
    .conditional (branchesResolveIn Γ branches) (otherwiseResolveIn Γ otherwise)
  | .whileLoop condition body =>
    .whileLoop (condition.resolveIn Γ) (eachResolveIn (Γ.inner.declare (functionsOf body)) body)
  | .forLoop h body =>
    let Γ' := Γ.inner.addVariable h.index.name h.index.id
    .forLoop (h.resolveIn Γ.inner) (eachResolveIn (Γ'.declare (functionsOf body)) body)
  | .rangeLoop start stop body =>
    .rangeLoop (start.resolveIn Γ) (stop.resolveIn Γ)
      (eachResolveIn (Γ.inner.declare (functionsOf body)) body)
  | .switch scrutinee cases otherwise =>
    .switch (scrutinee.resolveIn Γ) (branchesResolveIn Γ cases) (otherwiseResolveIn Γ otherwise)
  | .breakLoop => .breakLoop
  | .continueLoop => .continueLoop
  | .returnValue value => .returnValue (value.map (Expr.resolveIn Γ))
  | .print e => .print (e.resolveIn Γ)
  | .block body => .block (eachResolveIn (Γ.inner.declare (functionsOf body)) body)

def eachResolveIn (Γ : Levels) : List Stmt → List Stmt
  | [] => []
  | s :: ss => s.resolveIn Γ :: eachResolveIn (s.leaves Γ) ss

def branchesResolveIn (Γ : Levels) : List (Guarded Stmt) → List (Guarded Stmt)
  | [] => []
  | ⟨guard, body⟩ :: gs =>
    ⟨guard.resolveIn Γ, eachResolveIn (Γ.inner.declare (functionsOf body)) body⟩ ::
      branchesResolveIn Γ gs

def otherwiseResolveIn (Γ : Levels) : Option (List Stmt) → Option (List Stmt)
  | none => none
  | some body => some (eachResolveIn (Γ.inner.declare (functionsOf body)) body)

end

/-- the references of a body in the innermost scope of `Γ`, with its functions visible from its start -/
def bodyResolveIn (Γ : Levels) (body : List Stmt) : List Stmt :=
  eachResolveIn (Γ.declare (functionsOf body)) body

/-! ## trees without types -/

mutual

def Expr.withoutTypes : Expr → Expr
  | .literal v _ => .literal v none
  | .name x _ => .name x none
  | .binary op left right _ => .binary op left.withoutTypes right.withoutTypes none
  | .unary op operand _ => .unary op operand.withoutTypes none
  | .call callee arguments awaited constructs _ =>
    .call callee.withoutTypes (Expr.allWithoutTypes arguments) awaited constructs none
  | .subscript base index _ => .subscript base.withoutTypes index.withoutTypes none
  | .member object x _ => .member object.withoutTypes x none
  | .collection form elements _ => .collection form (Expr.allWithoutTypes elements) none
  | .dict entries _ => .dict (Expr.entriesWithoutTypes entries) none

def Expr.allWithoutTypes : List Expr → List Expr
  | [] => []
  | e :: es => e.withoutTypes :: Expr.allWithoutTypes es

def Expr.entriesWithoutTypes : List (Expr × Expr) → List (Expr × Expr)
  | [] => []
  | (key, value) :: es => (key.withoutTypes, value.withoutTypes) :: Expr.entriesWithoutTypes es

end

def Update.withoutTypes : Update Expr → Update Expr
  | .increment => .increment
  | .decrement => .decrement
  | .increase e => .increase e.withoutTypes
  | .decrease e => .decrease e.withoutTypes

def Declarator.withoutTypes (d : Declarator) : Declarator := { d with type := none }

def Parameter.withoutTypes (p : Parameter) : Parameter :=
  { p with default := p.default.map Expr.withoutTypes, type := none }

def ForHead.withoutTypes (h : ForHead) : ForHead :=
  ⟨h.index.withoutTypes, h.init.withoutTypes, h.test.withoutTypes, h.target, h.update.withoutTypes⟩

mutual

def Stmt.withoutTypes : Stmt → Stmt
  | .expression e => .expression e.withoutTypes
  | .declare constant ds values =>
    .declare constant (ds.map Declarator.withoutTypes) (Expr.allWithoutTypes values)
  | .assign targets values => .assign (Expr.allWithoutTypes targets) (Expr.allWithoutTypes values)
  | .function h body =>
    .function { h with parameters := h.parameters.map Parameter.withoutTypes } (eachWithoutTypes body)
  | .classDef h body =>
    .classDef { h with parameters := h.parameters.map Parameter.withoutTypes } (eachWithoutTypes body)
  | .conditional branches otherwise =>
    .conditional (branchesWithoutTypes branches) (otherwiseWithoutTypes otherwise)
  | .whileLoop condition body => .whileLoop condition.withoutTypes (eachWithoutTypes body)
  | .forLoop h body => .forLoop h.withoutTypes (eachWithoutTypes body)
  | .rangeLoop start stop body =>
    .rangeLoop start.withoutTypes stop.withoutTypes (eachWithoutTypes body)
  | .switch scrutinee cases otherwise =>
    .switch scrutinee.withoutTypes (branchesWithoutTypes cases) (otherwiseWithoutTypes otherwise)
  | .breakLoop => .breakLoop
  | .continueLoop => .continueLoop
  | .returnValue value => .returnValue (value.map Expr.withoutTypes)
  | .print e => .print e.withoutTypes
  | .block body => .block (eachWithoutTypes body)

def eachWithoutTypes : List Stmt → List Stmt
  | [] => []
  | s :: ss => s.withoutTypes :: eachWithoutTypes ss

def branchesWithoutTypes : List (Guarded Stmt) → List (Guarded Stmt)
  | [] => []
  | ⟨guard, body⟩ :: gs => ⟨guard.withoutTypes, eachWithoutTypes body⟩ :: branchesWithoutTypes gs

def otherwiseWithoutTypes : Option (List Stmt) → Option (List Stmt)
  | none => none
  | some body => some (eachWithoutTypes body)

end

end TypedScript
