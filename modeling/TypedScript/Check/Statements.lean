import TypedScript.Check.Declarations
import TypedScript.Diagnostic.Report

/-!
# Checking statements

A body is checked in two passes: its functions are declared first (`hoist`), then its statements are
checked in order.  The statements of a class body are checked in the scope around the class; all
other bodies have a scope of their own.

The recursion goes by the size of statements, which does not count heads: declaring the functions of
a body changes heads only (`bodySize_hoist`).
-/

namespace TypedScript

/-! ## sizes -/

mutual

def Stmt.size : Stmt → Nat
  | .function _ body => bodySize body + 1
  | .classDef _ body => bodySize body + 1
  | .conditional branches none => branchesSize branches + 1
  | .conditional branches (some body) => branchesSize branches + bodySize body + 1
  | .whileLoop _ body => bodySize body + 1
  | .forLoop _ body => bodySize body + 1
  | .rangeLoop _ _ body => bodySize body + 1
  | .switch _ cases none => branchesSize cases + 1
  | .switch _ cases (some body) => branchesSize cases + bodySize body + 1
  | .block body => bodySize body + 1
  | _ => 1

def bodySize : List Stmt → Nat
  | [] => 1
  | s :: ss => s.size + bodySize ss + 1

def branchesSize : List (Guarded Stmt) → Nat
  | [] => 1
  | ⟨_, body⟩ :: gs => bodySize body + branchesSize gs + 1

end

/-- declaring functions changes their heads only -/
theorem bodySize_hoist (body : List Stmt) (c : Context) :
    bodySize (hoist body c).tree = bodySize body := by
  fun_induction hoist body c with
  | case1 => rfl
  | case2 h body rest c ih =>
    unfold Step.andThen
    split
    · simp [Step.map, bodySize, Stmt.size, ih]
    · simp [Step.fail, bodySize, Stmt.size]
  | case3 s rest c _ ih => simp [Step.map, bodySize, ih]

/-! ## statements -/

mutual

/-- checks a statement; the names it declares are added to the scope -/
def Stmt.check : Stmt → Context → Step Stmt
  | .expression e, c => (e.check c.scope).step c .expression fun e _ => .ok c (.expression e)
  | .print e, c => (e.check c.scope).step c .print fun e _ => .ok c (.print e)
  | .declare constant ds values, c =>
    match declarationFault? constant ds values with
    | some e => .fail c (.declare constant ds values) e
    | none =>
      (Expr.checkEach c.scope values).step c (.declare constant ds) fun values ts =>
        (bindDeclarators constant ds ts c).map (.declare constant · values)
  | .assign targets values, c =>
    if targets.length ≠ values.length then
      .fail c (.assign targets values) (.arityMismatch targets.length values.length)
    else
      (checkTargets c.scope targets).step c (.assign · values) fun targets ts =>
        (Expr.checkAll c.scope (assignedTest ts) [] values).step c (.assign targets) fun values _ =>
          .ok c (.assign targets values)
  | .function h body, c =>
    (h.signature c.scope).step c (.function · body) fun h signature =>
      (checkDefaults c.scope h.parameters).step c
        (fun ps => .function { h with parameters := ps } body) fun ps _ =>
          c.inside (c.scope.enterFunction signature) fun c =>
            (bindParameters ps c).andThen (fun ps => .function { h with parameters := ps } body)
              fun ps c => (checkBody body c).map (.function { h with parameters := ps })
  | .classDef h body, c =>
    (h.declare c).andThen (.classDef · body) fun h c => (checkBody body c).map (.classDef h)
  | .conditional branches none, c =>
    (checkBranches "if" branches c).map (.conditional · none)
  | .conditional branches (some body), c =>
    (checkBranches "if" branches c).andThen (.conditional · (some body)) fun branches c =>
      (c.inside c.scope.enterBlock (checkBody body)).map (.conditional branches ∘ some)
  | .whileLoop condition body, c =>
    (checkCondition c.scope "while" condition).step c (.whileLoop · body) fun condition _ =>
      (c.inside c.scope.enterLoop (checkBody body)).map (.whileLoop condition)
  | .forLoop h body, c =>
    c.inside c.scope.enterLoop fun c =>
      (h.check c).andThen (.forLoop · body) fun h c => (checkBody body c).map (.forLoop h)
  | .rangeLoop start stop body, c =>
    (checkBound c.scope start).step c (.rangeLoop · stop body) fun start _ =>
      (checkBound c.scope stop).step c (.rangeLoop start · body) fun stop _ =>
        (c.inside c.scope.enterLoop (checkBody body)).map (.rangeLoop start stop)
  | .switch scrutinee cases none, c =>
    (scrutinee.check c.scope).step c (.switch · cases none) fun scrutinee _ =>
      (checkBranches "case" cases c).map (.switch scrutinee · none)
  | .switch scrutinee cases (some body), c =>
    (scrutinee.check c.scope).step c (.switch · cases (some body)) fun scrutinee _ =>
      (checkBranches "case" cases c).andThen (.switch scrutinee · (some body)) fun cases c =>
        (c.inside c.scope.enterBlock (checkBody body)).map (.switch scrutinee cases ∘ some)
  | .breakLoop, c =>
    if c.scope.frame.insideLoop then .ok c .breakLoop else .fail c .breakLoop .breakOutsideLoop
  | .continueLoop, c =>
    if c.scope.frame.insideLoop then .ok c .continueLoop
    else .fail c .continueLoop .continueOutsideLoop
  | .returnValue value, c =>
    (checkReturn c.scope value).step c .returnValue fun value _ => .ok c (.returnValue value)
  | .block body, c => (c.inside c.scope.enterBlock (checkBody body)).map .block
termination_by s => 2 * s.size
decreasing_by all_goals simp only [Stmt.size]; omega

/-- checks statements in order, up to the first fault -/
def checkEach : List Stmt → Context → Step (List Stmt)
  | [], c => .ok c []
  | s :: ss, c => (s.check c).andThen (· :: ss) fun s c => (checkEach ss c).map (s :: ·)
termination_by ss => 2 * bodySize ss
decreasing_by all_goals simp only [bodySize]; omega

/-- checks a body: its functions are declared before its statements are checked -/
def checkBody (body : List Stmt) (c : Context) : Step (List Stmt) :=
  match _h : hoist body c with
  | ⟨c', hoisted, none⟩ => checkEach hoisted c'
  | ⟨c', hoisted, some e⟩ => .fail c' hoisted e
termination_by 2 * bodySize body + 1
decreasing_by
  have hsize := bodySize_hoist body c
  rw [_h] at hsize
  simp only at hsize
  omega

/-- checks guards and the bodies they guard -/
def checkBranches (construct : String) : List (Guarded Stmt) → Context → Step (List (Guarded Stmt))
  | [], c => .ok c []
  | ⟨guard, body⟩ :: gs, c =>
    (checkCondition c.scope construct guard).step c (⟨·, body⟩ :: gs) fun guard _ =>
      (c.inside c.scope.enterBlock (checkBody body)).andThen (⟨guard, ·⟩ :: gs) fun body c =>
        (checkBranches construct gs c).map (⟨guard, body⟩ :: ·)
termination_by gs => 2 * branchesSize gs
decreasing_by all_goals simp only [branchesSize]; omega

end

/-- a body is hoisted, then checked statement by statement -/
theorem checkBody_eq (body : List Stmt) (c : Context) :
    checkBody body c = (hoist body c).andThen id checkEach := by
  rw [checkBody]
  split
  · next c' hoisted h => rw [h]; rfl
  · next c' hoisted e h => rw [h]; rfl

/-! ## programs -/

/-- checks a program in a block of its own inside a scope, counting identities from one -/
def checkProgram (root : Scope) (p : Program) : Step Program := checkBody p ⟨root.enterBlock, 1⟩

/-- the annotated program, if it has no fault -/
def analyse (root : Scope) (p : Program) : Except Diagnostic Program :=
  let x := checkProgram root p
  match x.failure with
  | none => .ok x.tree
  | some e => .error (.unplaced e)

end TypedScript
