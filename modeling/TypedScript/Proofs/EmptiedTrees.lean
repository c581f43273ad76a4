import TypedScript.Compile
import TypedScript.Proofs.ChangedStatements

/-!
# Programs without the contents of their strings

Two programs that differ in the values of string literals only have the same tree once these values are
emptied.  No check looks at such a value: to empty a tree is a change, and checking an emptied tree is
emptying the checked one.
-/

namespace TypedScript

/-! ## trees -/

def Literal.emptied : Literal → Literal
  | .string _ => .string ""
  | v => v

mutual

def Expr.emptied : Expr → Expr
  | .literal v t => .literal v.emptied t
  | .name x t => .name x t
  | .binary op left right t => .binary op left.emptied right.emptied t
  | .unary op operand t => .unary op operand.emptied t
  | .call callee arguments awaited constructs t =>
    .call callee.emptied (Expr.emptiedAll arguments) awaited constructs t
  | .subscript base index t => .subscript base.emptied index.emptied t
  | .member object x t => .member object.emptied x t
  | .collection form elements t => .collection form (Expr.emptiedAll elements) t
  | .dict entries t => .dict (Expr.emptiedEntries entries) t

def Expr.emptiedAll : List Expr → List Expr
  | [] => []
  | e :: es => e.emptied :: Expr.emptiedAll es

def Expr.emptiedEntries : List (Expr × Expr) → List (Expr × Expr)
  | [] => []
  | (k, v) :: es => (k.emptied, v.emptied) :: Expr.emptiedEntries es

end

def Parameter.emptied (p : Parameter) : Parameter := { p with default := p.default.map Expr.emptied }

def FunctionHead.emptied (h : FunctionHead) : FunctionHead :=
  { h with parameters := h.parameters.map Parameter.emptied }

def ClassHead.emptied (h : ClassHead) : ClassHead :=
  { h with parameters := h.parameters.map Parameter.emptied }

def Update.emptied : Update Expr → Update Expr
  | .increment => .increment
  | .decrement => .decrement
  | .increase step => .increase step.emptied
  | .decrease step => .decrease step.emptied

def ForHead.emptied (h : ForHead) : ForHead :=
  { h with init := h.init.emptied, test := h.test.emptied, update := Update.emptied h.update }

mutual

def Stmt.emptied : Stmt → Stmt
  | .expression e => .expression e.emptied
  | .declare constant ds values => .declare constant ds (Expr.emptiedAll values)
  | .assign targets values => .assign (Expr.emptiedAll targets) (Expr.emptiedAll values)
  | .function h body => .function h.emptied (emptiedBody body)
  | .classDef h body => .classDef h.emptied (emptiedBody body)
  | .conditional branches otherwise =>
    .conditional (emptiedBranches branches) (emptiedOtherwise otherwise)
  | .whileLoop condition body => .whileLoop condition.emptied (emptiedBody body)
  | .forLoop h body => .forLoop h.emptied (emptiedBody body)
  | .rangeLoop start stop body => .rangeLoop start.emptied stop.emptied (emptiedBody body)
  | .switch scrutinee cases otherwise =>
    .switch scrutinee.emptied (emptiedBranches cases) (emptiedOtherwise otherwise)
  | .breakLoop => .breakLoop
  | .continueLoop => .continueLoop
  | .returnValue value => .returnValue (value.map Expr.emptied)
  | .print e => .print e.emptied
  | .block body => .block (emptiedBody body)

def emptiedBody : List Stmt → List Stmt
  | [] => []
  | s :: ss => s.emptied :: emptiedBody ss

def emptiedBranches : List (Guarded Stmt) → List (Guarded Stmt)
  | [] => []
  | ⟨guard, body⟩ :: gs => ⟨guard.emptied, emptiedBody body⟩ :: emptiedBranches gs

def emptiedOtherwise : Option (List Stmt) → Option (List Stmt)
  | none => none
  | some body => some (emptiedBody body)

end

def Program.emptied (p : Program) : Program := emptiedBody p

theorem Literal.type_emptied (v : Literal) : v.emptied.type = v.type := by
  cases v <;> rfl

/-! ## the change of literals -/

/-- everything but the literals stays -/
def emptying : Change where
  name := id
  literal := Literal.emptied
  Allows _ := True
  Exact := True
  injective := Function.injective_id
  fixes _ _ := rfl
  type_literal := Literal.type_emptied

theorem slot_emptying (slot : Option Ty) : emptying.Slot slot slot := by
  have hid : Ty.change emptying (fun i => i) = id := funext (Ty.change_eq_self (fun _ => rfl) fun _ => rfl)
  intro _
  rw [hid, Option.map_id, id]

theorem written_emptying (o : Option TypeTerm) : o = o.map (TypeTerm.change emptying) := by
  have hid : TypeTerm.change emptying = id := funext (TypeTerm.change_eq_self fun _ => rfl)
  rw [hid, Option.map_id, id]

theorem Symbol.alike_emptying (x : Symbol) : x.Alike emptying x := ⟨rfl, trivial, fun _ => rfl⟩

mutual

theorem Expr.alike_emptied (e : Expr) : e.Alike emptying e.emptied := by
  match e with
  | .literal _ slot => exact .literal (slot_emptying slot)
  | .name x slot => exact .name x.alike_emptying (slot_emptying slot)
  | .binary _ left right slot => exact .binary left.alike_emptied right.alike_emptied (slot_emptying slot)
  | .unary _ operand slot => exact .unary operand.alike_emptied (slot_emptying slot)
  | .call callee as _ _ slot =>
    exact .call callee.alike_emptied (Expr.allAlike_emptied as) (slot_emptying slot)
  | .subscript base index slot =>
    exact .subscript base.alike_emptied index.alike_emptied (slot_emptying slot)
  | .member object x slot => exact .member object.alike_emptied x.alike_emptying (slot_emptying slot)
  | .collection _ es slot => exact .collection (Expr.allAlike_emptied es) (slot_emptying slot)
  | .dict es slot => exact .dict (Expr.entriesAlike_emptied es) (slot_emptying slot)

theorem Expr.allAlike_emptied (es : List Expr) : Expr.AllAlike emptying es (Expr.emptiedAll es) := by
  match es with
  | [] => exact .nil
  | e :: es => exact .cons e.alike_emptied (Expr.allAlike_emptied es)

theorem Expr.entriesAlike_emptied (es : List (Expr × Expr)) :
    Expr.EntriesAlike emptying es (Expr.emptiedEntries es) := by
  match es with
  | [] => exact .nil
  | (key, value) :: es => exact .cons key.alike_emptied value.alike_emptied (Expr.entriesAlike_emptied es)

end

theorem Expr.rel_emptied (o : Option Expr) : Option.Rel (Expr.Alike emptying) o (o.map Expr.emptied) := by
  cases o with
  | none => exact .none
  | some e => exact .some e.alike_emptied

theorem Declarator.alike_emptying (d : Declarator) : d.Alike emptying d :=
  ⟨rfl, trivial, written_emptying d.written, fun _ => rfl, slot_emptying d.type⟩

theorem parametersAlike_emptied (ps : List Parameter) :
    ParametersAlike emptying ps (ps.map Parameter.emptied) :=
  List.forall₂_map_right_iff.mpr (List.forall₂_same.mpr fun p _ =>
    ⟨rfl, trivial, (p.written.change_eq_self fun _ => rfl).symm, Expr.rel_emptied p.default, fun _ => rfl,
      slot_emptying p.type⟩)

theorem FunctionHead.alike_emptied (h : FunctionHead) : h.Alike emptying h.emptied :=
  ⟨rfl, trivial, fun _ => rfl, parametersAlike_emptied h.parameters, written_emptying h.returns, rfl⟩

theorem ClassHead.alike_emptied (h : ClassHead) : h.Alike emptying h.emptied :=
  ⟨rfl, fun _ => rfl, parametersAlike_emptied h.parameters⟩

theorem ForHead.alike_emptied (h : ForHead) : h.Alike emptying h.emptied := by
  obtain ⟨index, init, test, target, update⟩ := h
  refine ⟨index.alike_emptying, init.alike_emptied, test.alike_emptied, target.alike_emptying, ?_⟩
  cases update with
  | increment => exact .increment
  | decrement => exact .decrement
  | increase e => exact .increase e.alike_emptied
  | decrease e => exact .decrease e.alike_emptied

mutual

theorem Stmt.alike_emptied (s : Stmt) : s.Alike emptying s.emptied := by
  match s with
  | .expression e => exact .expression e.alike_emptied
  | .declare _ ds es =>
    exact .declare (List.forall₂_same.mpr fun d _ => d.alike_emptying) (Expr.allAlike_emptied es)
  | .assign targets values => exact .assign (Expr.allAlike_emptied targets) (Expr.allAlike_emptied values)
  | .function h body => exact .function h.alike_emptied (bodyAlike_emptied body)
  | .classDef h body => exact .classDef h.alike_emptied (bodyAlike_emptied body)
  | .conditional gs none => exact .conditional (branchesAlike_emptied gs)
  | .conditional gs (some body) =>
    exact .conditionalElse (branchesAlike_emptied gs) (bodyAlike_emptied body)
  | .whileLoop e body => exact .whileLoop e.alike_emptied (bodyAlike_emptied body)
  | .forLoop h body => exact .forLoop h.alike_emptied (bodyAlike_emptied body)
  | .rangeLoop start stop body =>
    exact .rangeLoop start.alike_emptied stop.alike_emptied (bodyAlike_emptied body)
  | .switch e gs none => exact .switch e.alike_emptied (branchesAlike_emptied gs)
  | .switch e gs (some body) =>
    exact .switchDefault e.alike_emptied (branchesAlike_emptied gs) (bodyAlike_emptied body)
  | .breakLoop => exact .breakLoop
  | .continueLoop => exact .continueLoop
  | .returnValue value => exact .returnValue (Expr.rel_emptied value)
  | .print e => exact .print e.alike_emptied
  | .block body => exact .block (bodyAlike_emptied body)

theorem bodyAlike_emptied (ss : List Stmt) : BodyAlike emptying ss (emptiedBody ss) := by
  match ss with
  | [] => exact .nil
  | s :: ss => exact .cons s.alike_emptied (bodyAlike_emptied ss)

theorem branchesAlike_emptied (gs : List (Guarded Stmt)) :
    BranchesAlike emptying gs (emptiedBranches gs) := by
  match gs with
  | [] => exact .nil
  | ⟨guard, body⟩ :: gs =>
    exact .cons guard.alike_emptied (bodyAlike_emptied body) (branchesAlike_emptied gs)

end

/-! ## programs -/

theorem analyse_emptied (p : Program) :
    (∃ q, analyse Scope.root p = .ok q ∧ analyse Scope.root p.emptied = .ok q.emptied) ∨
      ∃ d d', analyse Scope.root p = .error d ∧ analyse Scope.root p.emptied = .error d' := by
  rcases (bodyAlike_emptied p).analyse trivial with ⟨q, q', hq, hq', halike⟩ | ⟨d, d', hd, hd', _⟩
  · have hemptied : q' = q.emptied := halike.unique trivial (bodyAlike_emptied q)
    exact .inl ⟨q, hq, hemptied ▸ hq'⟩
  · exact .inr ⟨d, d', hd, hd'⟩

/-- a program that differs in the values of strings only is accepted as well, and the annotated trees
again differ in these values only -/
theorem analyse_of_emptied {p p' q : Program} (hp : analyse Scope.root p = .ok p')
    (hq : q.emptied = p.emptied) : ∃ q', analyse Scope.root q = .ok q' ∧ q'.emptied = p'.emptied := by
  rcases analyse_emptied p with ⟨_, hok, hp'⟩ | ⟨_, _, herror, _⟩
  · cases hp.symm.trans hok
    rcases analyse_emptied q with ⟨q', hq', hemptied⟩ | ⟨_, _, _, herror⟩
    · rw [hq, hp'] at hemptied
      exact ⟨q', hq', (Except.ok.inj hemptied).symm⟩
    · rw [hq, hp'] at herror
      cases herror
  · rw [hp] at herror
    cases herror

end TypedScript
