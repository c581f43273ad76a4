import TypedScript.Script.Names
import TypedScript.Script.Tree

/-!
# From programs to scripts

Each statement of a program becomes statements of a script, with the names of `Naming`.

* Division of integers is truncated, and a plus sign before a long is dropped.
* The statements of a class body stand in front of the constructor, which copies the variables
  declared in it; the functions declared in it become methods.
* A range loop counts with an index of its own.
* A switch tests the guards of its cases; what it switches on is evaluated before, if that can have
  an effect.
-/

namespace TypedScript

/-! ## expressions -/

mutual

def Expr.lower : Expr → Naming Script.Expr
  | .literal v _ => pure (.literal v)
  | .name x _ => do return .ident (← Naming.symbol x)
  | .binary op left right _ => do
    let l ← left.lower
    let r ← right.lower
    if op = .divide ∧ left.type = some .int then return .truncate (.binary op l r)
    else return .binary op l r
  | .unary op operand _ => do
    let x ← operand.lower
    if op = .plus ∧ operand.type = some .long then return .group x else return .unary op x
  | .call callee arguments awaited constructs _ => do
    let f ← callee.lower
    let as ← Expr.lowerAll arguments
    let call := if constructs then Script.Expr.construct f as else .call f as
    if awaited then return .await call else return call
  | .subscript base index _ => do
    let b ← base.lower
    let i ← index.lower
    return .subscript b i
  | .member object x _ => do
    let o ← object.lower
    return .member o (← Naming.symbol x)
  | .collection form elements _ => do
    let es ← Expr.lowerAll elements
    match form with
    | .set => return .newSet es
    | .array => return .array es
    | .tuple => return .array es
  | .dict entries _ => do return .object (← Expr.lowerEntries entries)

def Expr.lowerAll : List Expr → Naming (List Script.Expr)
  | [] => pure []
  | e :: es => do
    let e' ← e.lower
    let es' ← Expr.lowerAll es
    return e' :: es'

def Expr.lowerEntries : List (Expr × Expr) → Naming (List (Script.Expr × Script.Expr))
  | [] => pure []
  | (k, v) :: es => do
    let k' ← k.lower
    let v' ← v.lower
    let es' ← Expr.lowerEntries es
    return (k', v') :: es'

end

/-! ## declarations -/

def Declarator.lower (d : Declarator) : Naming String := Naming.declaration d.id d.name

def FunctionHead.lowerName (h : FunctionHead) : Naming String := Naming.declaration h.id h.name

def Parameter.lower (p : Parameter) : Naming Script.Param := do
  let name ← Naming.declaration p.id p.name
  match p.default with
  | some e => return ⟨name, some (← e.lower)⟩
  | none => return ⟨name, none⟩

/-- the names of the variables and of the functions that a statement of a class body declares -/
def Stmt.memberNames : Stmt → Naming (List String × List String)
  | .declare _ ds _ => do return (← ds.mapM Declarator.lower, [])
  | .function h _ => do return ([], [← h.lowerName])
  | _ => pure ([], [])

def Update.lower : Update Expr → Naming (Update Script.Expr)
  | .increment => pure .increment
  | .decrement => pure .decrement
  | .increase e => do return .increase (← e.lower)
  | .decrease e => do return .decrease (← e.lower)

/-- a switch on a literal or a name evaluates nothing -/
def Expr.isAtom : Expr → Bool
  | .literal _ _ => true
  | .name _ _ => true
  | _ => false

/-! ## statements -/

mutual

def Stmt.lower : Stmt → Naming (List Script.Stmt)
  | .expression e => do return [.expression (← e.lower)]
  | .declare constant ds values => do
    let names ← ds.mapM Declarator.lower
    return [.declare constant names (← Expr.lowerAll values)]
  | .assign targets values => do
    let ts ← Expr.lowerAll targets
    return [.assign ts (← Expr.lowerAll values)]
  | .function h body => do
    let name ← h.lowerName
    let ps ← h.parameters.mapM Parameter.lower
    return [.function h.async name ps (← lowerBody body)]
  | .classDef h body => do
    let name ← Naming.declaration h.id h.name
    let ps ← h.parameters.mapM Parameter.lower
    let (ss, fields, methods) ← lowerMembers body
    return ss ++ .constructor name ps fields :: methods.map (.attach name)
  | .conditional branches none => do return [.conditional (← lowerBranches branches) none]
  | .conditional branches (some body) => do
    let bs ← lowerBranches branches
    return [.conditional bs (some (← lowerBody body))]
  | .whileLoop condition body => do
    let c ← condition.lower
    return [.whileLoop c (← lowerBody body)]
  | .forLoop h body => do
    let index ← h.index.lower
    let init ← h.init.lower
    let test ← h.test.lower
    let target ← Naming.symbol h.target
    let update ← h.update.lower
    return [.forLoop index init test target update (← lowerBody body)]
  | .rangeLoop start stop body => do
    let first ← start.lower
    let last ← stop.lower
    let index ← Naming.fresh "range"
    return [.forLoop index first (.binary .less (.ident index) last) index .increment
      (← lowerBody body)]
  | .switch scrutinee cases none => do
    let e ← scrutinee.lower
    let cs ← lowerBranches cases
    return evaluation scrutinee e ++ [.switch cs none]
  | .switch scrutinee cases (some body) => do
    let e ← scrutinee.lower
    let cs ← lowerBranches cases
    return evaluation scrutinee e ++ [.switch cs (some (← lowerBody body))]
  | .breakLoop => pure [.breakLoop]
  | .continueLoop => pure [.continueLoop]
  | .returnValue none => pure [.returnValue none]
  | .returnValue (some e) => do return [.returnValue (some (← e.lower))]
  | .print e => do return [.print (← e.lower)]
  | .block body => do return [.block (← lowerBody body)]
where
  /-- the evaluation of what a switch switches on -/
  evaluation (scrutinee : Expr) (e : Script.Expr) : List Script.Stmt :=
    if scrutinee.isAtom then [] else [.expression e]

def lowerBody : List Stmt → Naming (List Script.Stmt)
  | [] => pure []
  | s :: ss => do
    let first ← s.lower
    let others ← lowerBody ss
    return first ++ others

def lowerBranches : List (Guarded Stmt) → Naming (List (Script.Guarded Script.Stmt))
  | [] => pure []
  | ⟨guard, body⟩ :: gs => do
    let g ← guard.lower
    let b ← lowerBody body
    let others ← lowerBranches gs
    return ⟨g, b⟩ :: others

/-- the statements of a class body, with the names of its variables and functions -/
def lowerMembers : List Stmt → Naming (List Script.Stmt × List String × List String)
  | [] => pure ([], [], [])
  | s :: ss => do
    let (fields, methods) ← s.memberNames
    let first ← s.lower
    let (others, fields', methods') ← lowerMembers ss
    return (first ++ others, fields ++ fields', methods ++ methods')

end

end TypedScript
