import TypedScript.Compile
import TypedScript.Proofs.ChangedStatements
import TypedScript.Proofs.Writing

/-!
# Renaming the identifiers of a program

A renaming maps identifiers to identifiers, no two to the same one, and leaves alone those that every
program finds.  It acts on whatever holds names.  It is a change, so the check of a renamed program goes the
way of the check of the program.
-/

namespace TypedScript

/-! ## renamings -/

/-- the words that can name something -/
abbrev Identifier := { x : String // isName x = true }

structure Renaming where
  on : Identifier → Identifier
  injective : Function.Injective on
  fixes : ∀ x : Identifier, x.1 ∈ knownNames → on x = x

namespace Renaming

/-- other words stay as they are -/
def apply (r : Renaming) (x : String) : String := if h : isName x = true then (r.on ⟨x, h⟩).1 else x

instance : CoeFun Renaming fun _ => String → String := ⟨apply⟩

variable (r : Renaming)

theorem apply_of_isName (h : isName x = true) : r x = (r.on ⟨x, h⟩).1 := dif_pos h

theorem apply_of_not_isName (h : ¬ isName x = true) : r x = x := dif_neg h

theorem isName_apply (h : isName x = true) : isName (r x) = true := by
  rw [r.apply_of_isName h]
  exact (r.on ⟨x, h⟩).2

theorem apply_injective : Function.Injective r := by
  intro x y heq
  by_cases hx : isName x = true
  · by_cases hy : isName y = true
    · rw [r.apply_of_isName hx, r.apply_of_isName hy] at heq
      exact congrArg Subtype.val (r.injective (Subtype.ext heq))
    · rw [r.apply_of_not_isName hy] at heq
      exact absurd (heq ▸ r.isName_apply hx) hy
  · by_cases hy : isName y = true
    · rw [r.apply_of_not_isName hx] at heq
      exact absurd (heq ▸ r.isName_apply hy) hx
    · rwa [r.apply_of_not_isName hx, r.apply_of_not_isName hy] at heq

theorem apply_of_known (h : x ∈ knownNames) : r x = x := by
  by_cases hx : isName x = true
  · rw [r.apply_of_isName hx, r.fixes ⟨x, hx⟩ h]
  · exact r.apply_of_not_isName hx

end Renaming

variable {r : Renaming}

/-! ## types -/

mutual

def Ty.rename (r : Renaming) : Ty → Ty
  | .int => .int
  | .long => .long
  | .string => .string
  | .bool => .bool
  | .none => .none
  | .array t => .array (t.rename r)
  | .set t => .set (t.rename r)
  | .dict k v => .dict (k.rename r) (v.rename r)
  | .tuple ts => .tuple (Ty.renameAll r ts)
  | .nullable t => .nullable (t.rename r)
  | .classOf id x => .classOf id (r x)
  | .function ps t a => .function (Ty.renameParams r ps) (t.rename r) a

def Ty.renameAll (r : Renaming) : List Ty → List Ty
  | [] => []
  | t :: ts => t.rename r :: Ty.renameAll r ts

def Ty.renameParams (r : Renaming) : List (Param Ty) → List (Param Ty)
  | [] => []
  | ⟨t, optional⟩ :: ps => ⟨t.rename r, optional⟩ :: Ty.renameParams r ps

end

/-! ## trees -/

mutual

def TypeTerm.rename (r : Renaming) : TypeTerm → TypeTerm
  | .named x => .named (r x)
  | .generic x as => .generic (r x) (TypeTerm.renameAll r as)
  | .nullable w => .nullable (w.rename r)

def TypeTerm.renameAll (r : Renaming) : List TypeTerm → List TypeTerm
  | [] => []
  | w :: ws => w.rename r :: TypeTerm.renameAll r ws

end

/-- what a name refers to stays the same -/
def Symbol.rename (r : Renaming) (x : Symbol) : Symbol := { x with name := r x.name }

mutual

def Expr.rename (r : Renaming) : Expr → Expr
  | .literal v slot => .literal v (slot.map (Ty.rename r))
  | .name x slot => .name (x.rename r) (slot.map (Ty.rename r))
  | .binary op left right slot =>
    .binary op (left.rename r) (right.rename r) (slot.map (Ty.rename r))
  | .unary op operand slot => .unary op (operand.rename r) (slot.map (Ty.rename r))
  | .call callee arguments awaited constructs slot =>
    .call (callee.rename r) (Expr.renameAll r arguments) awaited constructs (slot.map (Ty.rename r))
  | .subscript base index slot =>
    .subscript (base.rename r) (index.rename r) (slot.map (Ty.rename r))
  | .member object x slot => .member (object.rename r) (x.rename r) (slot.map (Ty.rename r))
  | .collection form elements slot =>
    .collection form (Expr.renameAll r elements) (slot.map (Ty.rename r))
  | .dict entries slot => .dict (Expr.renameEntries r entries) (slot.map (Ty.rename r))

def Expr.renameAll (r : Renaming) : List Expr → List Expr
  | [] => []
  | e :: es => e.rename r :: Expr.renameAll r es

def Expr.renameEntries (r : Renaming) : List (Expr × Expr) → List (Expr × Expr)
  | [] => []
  | (key, value) :: es => (key.rename r, value.rename r) :: Expr.renameEntries r es

end

def Declarator.rename (r : Renaming) (d : Declarator) : Declarator :=
  ⟨r d.name, d.written.map (TypeTerm.rename r), d.id, d.type.map (Ty.rename r)⟩

def Parameter.rename (r : Renaming) (p : Parameter) : Parameter :=
  ⟨r p.name, p.written.rename r, p.default.map (Expr.rename r), p.id, p.type.map (Ty.rename r)⟩

def FunctionHead.rename (r : Renaming) (h : FunctionHead) : FunctionHead :=
  ⟨r h.name, h.id, h.parameters.map (Parameter.rename r), h.returns.map (TypeTerm.rename r), h.async⟩

def ClassHead.rename (r : Renaming) (h : ClassHead) : ClassHead :=
  ⟨r h.name, h.id, h.parameters.map (Parameter.rename r)⟩

def Update.rename (r : Renaming) : Update Expr → Update Expr
  | .increment => .increment
  | .decrement => .decrement
  | .increase e => .increase (e.rename r)
  | .decrease e => .decrease (e.rename r)

def ForHead.rename (r : Renaming) (h : ForHead) : ForHead :=
  ⟨h.index.rename r, h.init.rename r, h.test.rename r, h.target.rename r, h.update.rename r⟩

mutual

def Stmt.rename (r : Renaming) : Stmt → Stmt
  | .expression e => .expression (e.rename r)
  | .declare constant ds values =>
    .declare constant (ds.map (Declarator.rename r)) (Expr.renameAll r values)
  | .assign targets values => .assign (Expr.renameAll r targets) (Expr.renameAll r values)
  | .function h body => .function (h.rename r) (renameBody r body)
  | .classDef h body => .classDef (h.rename r) (renameBody r body)
  | .conditional branches otherwise =>
    .conditional (renameBranches r branches) (renameOtherwise r otherwise)
  | .whileLoop condition body => .whileLoop (condition.rename r) (renameBody r body)
  | .forLoop h body => .forLoop (h.rename r) (renameBody r body)
  | .rangeLoop start stop body => .rangeLoop (start.rename r) (stop.rename r) (renameBody r body)
  | .switch scrutinee cases otherwise =>
    .switch (scrutinee.rename r) (renameBranches r cases) (renameOtherwise r otherwise)
  | .breakLoop => .breakLoop
  | .continueLoop => .continueLoop
  | .returnValue value => .returnValue (value.map (Expr.rename r))
  | .print e => .print (e.rename r)
  | .block body => .block (renameBody r body)

def renameBody (r : Renaming) : List Stmt → List Stmt
  | [] => []
  | s :: ss => s.rename r :: renameBody r ss

def renameBranches (r : Renaming) : List (Guarded Stmt) → List (Guarded Stmt)
  | [] => []
  | ⟨guard, body⟩ :: gs => ⟨guard.rename r, renameBody r body⟩ :: renameBranches r gs

def renameOtherwise (r : Renaming) : Option (List Stmt) → Option (List Stmt)
  | none => none
  | some body => some (renameBody r body)

end

def Program.rename (r : Renaming) (p : Program) : Program := renameBody r p

/-! ## the change that a renaming is -/

/-- everything but the names stays -/
def Renaming.change (r : Renaming) : Change where
  name := r
  literal := id
  Allows _ := True
  Exact := True
  injective := r.apply_injective
  fixes _ := r.apply_of_known
  type_literal _ := rfl

mutual

theorem Ty.rename_eq_change (t : Ty) : t.rename r = t.change r.change fun i => i := by
  match t with
  | .int | .long | .string | .bool | .none | .classOf id x => rfl
  | .array t => exact congrArg Ty.array t.rename_eq_change
  | .set t => exact congrArg Ty.set t.rename_eq_change
  | .dict k v => exact congrArg₂ Ty.dict k.rename_eq_change v.rename_eq_change
  | .tuple ts => exact congrArg Ty.tuple (Ty.renameAll_eq_change ts)
  | .nullable t => exact congrArg Ty.nullable t.rename_eq_change
  | .function ps t a => rw [Ty.rename, Ty.change, Ty.renameParams_eq_change ps, t.rename_eq_change]

theorem Ty.renameAll_eq_change (ts : List Ty) :
    Ty.renameAll r ts = Ty.changeAll r.change (fun i => i) ts := by
  match ts with
  | [] => rfl
  | t :: ts => exact congrArg₂ List.cons t.rename_eq_change (Ty.renameAll_eq_change ts)

theorem Ty.renameParams_eq_change (ps : List (Param Ty)) :
    Ty.renameParams r ps = Ty.changeParams r.change (fun i => i) ps := by
  match ps with
  | [] => rfl
  | ⟨t, optional⟩ :: ps =>
    rw [Ty.renameParams, Ty.changeParams, t.rename_eq_change, Ty.renameParams_eq_change ps]

end

mutual

theorem TypeTerm.rename_eq_change (w : TypeTerm) : w.rename r = w.change r.change := by
  match w with
  | .named x => rfl
  | .generic x as => exact congrArg (TypeTerm.generic (r x)) (TypeTerm.renameAll_eq_change as)
  | .nullable w => exact congrArg TypeTerm.nullable w.rename_eq_change

theorem TypeTerm.renameAll_eq_change (ws : List TypeTerm) :
    TypeTerm.renameAll r ws = TypeTerm.changeAll r.change ws := by
  match ws with
  | [] => rfl
  | w :: ws => exact congrArg₂ List.cons w.rename_eq_change (TypeTerm.renameAll_eq_change ws)

end

theorem Symbol.alike_rename (x : Symbol) : x.Alike r.change (x.rename r) := ⟨rfl, trivial, fun _ => rfl⟩

theorem slot_rename (slot : Option Ty) : r.change.Slot slot (slot.map (Ty.rename r)) :=
  fun _ => congrArg (slot.map ·) (funext Ty.rename_eq_change)

mutual

theorem Expr.alike_rename (e : Expr) : e.Alike r.change (e.rename r) := by
  match e with
  | .literal _ slot => exact .literal (slot_rename slot)
  | .name x slot => exact .name x.alike_rename (slot_rename slot)
  | .binary _ left right slot => exact .binary left.alike_rename right.alike_rename (slot_rename slot)
  | .unary _ operand slot => exact .unary operand.alike_rename (slot_rename slot)
  | .call callee as _ _ slot => exact .call callee.alike_rename (Expr.allAlike_rename as) (slot_rename slot)
  | .subscript base index slot => exact .subscript base.alike_rename index.alike_rename (slot_rename slot)
  | .member object x slot => exact .member object.alike_rename x.alike_rename (slot_rename slot)
  | .collection _ es slot => exact .collection (Expr.allAlike_rename es) (slot_rename slot)
  | .dict es slot => exact .dict (Expr.entriesAlike_rename es) (slot_rename slot)

theorem Expr.allAlike_rename (es : List Expr) : Expr.AllAlike r.change es (Expr.renameAll r es) := by
  match es with
  | [] => exact .nil
  | e :: es => exact .cons e.alike_rename (Expr.allAlike_rename es)

theorem Expr.entriesAlike_rename (es : List (Expr × Expr)) :
    Expr.EntriesAlike r.change es (Expr.renameEntries r es) := by
  match es with
  | [] => exact .nil
  | (key, value) :: es => exact .cons key.alike_rename value.alike_rename (Expr.entriesAlike_rename es)

end

theorem Expr.rel_rename (o : Option Expr) :
    Option.Rel (Expr.Alike r.change) o (o.map (Expr.rename r)) := by
  cases o with
  | none => exact .none
  | some e => exact .some e.alike_rename

theorem written_rename (o : Option TypeTerm) :
    o.map (TypeTerm.rename r) = o.map (TypeTerm.change r.change) :=
  congrArg (o.map ·) (funext TypeTerm.rename_eq_change)

theorem Declarator.alike_rename (d : Declarator) : d.Alike r.change (d.rename r) :=
  ⟨rfl, trivial, written_rename d.written, fun _ => rfl, slot_rename d.type⟩

theorem parametersAlike_rename (ps : List Parameter) :
    ParametersAlike r.change ps (ps.map (Parameter.rename r)) :=
  List.forall₂_map_right_iff.mpr (List.forall₂_same.mpr fun p _ =>
    ⟨rfl, trivial, p.written.rename_eq_change, Expr.rel_rename p.default, fun _ => rfl, slot_rename p.type⟩)

theorem FunctionHead.alike_rename (h : FunctionHead) : h.Alike r.change (h.rename r) :=
  ⟨rfl, trivial, fun _ => rfl, parametersAlike_rename h.parameters, written_rename h.returns, rfl⟩

theorem ClassHead.alike_rename (h : ClassHead) : h.Alike r.change (h.rename r) :=
  ⟨rfl, fun _ => rfl, parametersAlike_rename h.parameters⟩

theorem ForHead.alike_rename (h : ForHead) : h.Alike r.change (h.rename r) := by
  obtain ⟨index, init, test, target, update⟩ := h
  refine ⟨index.alike_rename, init.alike_rename, test.alike_rename, target.alike_rename, ?_⟩
  cases update with
  | increment => exact .increment
  | decrement => exact .decrement
  | increase e => exact .increase e.alike_rename
  | decrease e => exact .decrease e.alike_rename

mutual

theorem Stmt.alike_rename (s : Stmt) : s.Alike r.change (s.rename r) := by
  match s with
  | .expression e => exact .expression e.alike_rename
  | .declare _ ds es =>
    refine .declare (List.forall₂_map_right_iff.mpr ?_) (Expr.allAlike_rename es)
    exact List.forall₂_same.mpr fun d _ => d.alike_rename
  | .assign targets values => exact .assign (Expr.allAlike_rename targets) (Expr.allAlike_rename values)
  | .function h body => exact .function h.alike_rename (bodyAlike_rename body)
  | .classDef h body => exact .classDef h.alike_rename (bodyAlike_rename body)
  | .conditional gs none => exact .conditional (branchesAlike_rename gs)
  | .conditional gs (some body) => exact .conditionalElse (branchesAlike_rename gs) (bodyAlike_rename body)
  | .whileLoop e body => exact .whileLoop e.alike_rename (bodyAlike_rename body)
  | .forLoop h body => exact .forLoop h.alike_rename (bodyAlike_rename body)
  | .rangeLoop start stop body =>
    exact .rangeLoop start.alike_rename stop.alike_rename (bodyAlike_rename body)
  | .switch e gs none => exact .switch e.alike_rename (branchesAlike_rename gs)
  | .switch e gs (some body) =>
    exact .switchDefault e.alike_rename (branchesAlike_rename gs) (bodyAlike_rename body)
  | .breakLoop => exact .breakLoop
  | .continueLoop => exact .continueLoop
  | .returnValue value => exact .returnValue (Expr.rel_rename value)
  | .print e => exact .print e.alike_rename
  | .block body => exact .block (bodyAlike_rename body)

theorem bodyAlike_rename (ss : List Stmt) : BodyAlike r.change ss (renameBody r ss) := by
  match ss with
  | [] => exact .nil
  | s :: ss => exact .cons s.alike_rename (bodyAlike_rename ss)

theorem branchesAlike_rename (gs : List (Guarded Stmt)) :
    BranchesAlike r.change gs (renameBranches r gs) := by
  match gs with
  | [] => exact .nil
  | ⟨guard, body⟩ :: gs => exact .cons guard.alike_rename (bodyAlike_rename body) (branchesAlike_rename gs)

end

/-! ## programs -/

/-- the renamed program is accepted if and only if the program is: the annotated trees are the same up to
the names, or the faults are of one kind -/
theorem analyse_rename (r : Renaming) (p : Program) :
    (∃ q, analyse Scope.root p = .ok q ∧ analyse Scope.root (p.rename r) = .ok (q.rename r)) ∨
      ∃ d d', analyse Scope.root p = .error d ∧ analyse Scope.root (p.rename r) = .error d' ∧
        d'.cause.name = d.cause.name := by
  rcases (bodyAlike_rename p).analyse trivial with ⟨q, q', hq, hq', halike⟩ | hfaults
  · have hrename : q' = q.rename r := halike.unique trivial (bodyAlike_rename q)
    exact .inl ⟨q, hq, hrename ▸ hq'⟩
  · exact .inr hfaults

end TypedScript
