import TypedScript.Check.Types
import TypedScript.Ty.Rules

/-!
# Checking expressions

`Expr.check` finds the type of an expression in a scope and writes it on the tree, together with what
each name refers to.  It goes through the operands from left to right and stops at the first fault;
the tree then keeps what was written before.  A node gets its type only after all of its operands.

* `Checked`          a tree as it stands, with the result;
* `Scope.callee`     a name in front of arguments: a variable, or else a class to construct;
* `Expr.checkAll`    several expressions, with a test on the type of each.
-/

namespace TypedScript

/-! ## trees and results -/

/-- a tree as it stands after a check, and the result of the check -/
structure Checked (α β : Type) where
  tree : α
  result : Except Cause β

namespace Checked

variable {α β γ δ : Type}

/-- goes on after a success; after a failure the tree is put where it belongs -/
def andThen (x : Checked α β) (wrap : α → γ) (next : α → β → Checked γ δ) : Checked γ δ :=
  match x.result with
  | .ok b => next x.tree b
  | .error e => ⟨wrap x.tree, .error e⟩

def map (x : Checked α β) (f : α → γ) (g : β → δ) : Checked γ δ :=
  ⟨f x.tree, x.result.map g⟩

theorem andThen_ok {x : Checked α β} {b : β} (h : x.result = .ok b) (wrap : α → γ)
    (next : α → β → Checked γ δ) : x.andThen wrap next = next x.tree b := by
  simp [andThen, h]

end Checked

/-- writes a type on a node, or leaves its slot as it was -/
def settle (node : Option Ty → Expr) (slot : Option Ty) (result : Except Cause Ty) :
    Checked Expr Ty :=
  match result with
  | .ok t => ⟨node (some t), .ok t⟩
  | .error e => ⟨node slot, .error e⟩

def Symbol.resolved (x : Symbol) (r : Resolution) : Symbol := { x with resolution := some r }

/-! ## tests on types -/

/-- the elements of a collection have the type of the first one, or can be stored in its place -/
def elementTest (seen : List Ty) (t : Ty) : Except Cause Unit :=
  match seen with
  | [] => .ok ()
  | first :: _ =>
    if t.assignable first then .ok () else .error (.elementMismatch first.text t.text)

/-- an argument can be stored in the parameter at its place -/
def argumentTest (params : List (Param Ty)) (seen : List Ty) (t : Ty) : Except Cause Unit :=
  match params[seen.length]? with
  | some p => if t.assignable p.type then .ok () else .error (.argumentMismatch p.type.text t.text)
  | none => .ok ()

/-- the first entry of a dict fixes the types of its keys and values -/
def entryTest (first : Option (Ty × Ty)) (key value : Ty) : Except Cause Unit :=
  match first with
  | none => .ok ()
  | some (k, v) =>
    if !key.assignable k then .error (.elementMismatch k.text key.text)
    else if !value.assignable v then .error (.elementMismatch v.text value.text)
    else .ok ()

/-- the type of `base[index]` -/
def subscriptType (base index : Ty) : Except Cause Ty :=
  match base.subscript? with
  | none => .error (.notSubscriptable base.text)
  | some element => if index = .int then .ok element else .error (.indexMismatch index.text)

/-- the type of a literal that lists elements of the given types -/
def Collection.type : Collection → List Ty → Ty
  | .array, ts => .array (ts.headD .none)
  | .set, ts => .set (ts.headD .none)
  | .tuple, ts => .tupleOf ts

/-- the members of a tuple have types of their own -/
def Collection.test : Collection → List Ty → Ty → Except Cause Unit
  | .tuple => fun _ _ => .ok ()
  | _ => elementTest

/-! ## calls -/

/-- a callee with its signature, and the name that messages give it -/
structure Callee where
  name : String
  signature : Signature

/-- a name in front of arguments: it is written back with what it refers to, and with the mark of a
constructor if it names a class -/
def Scope.callee (s : Scope) (x : Symbol) (slot : Option Ty) (constructs : Bool) :
    Checked (Expr × Bool) Callee :=
  match s.findVariable? x.name with
  | some b =>
    ⟨(.name (x.resolved b.resolution) (some b.type), constructs),
      match b.type.signature? with
      | some signature => .ok ⟨x.name, signature⟩
      | none => .error (.notCallable x.name)⟩
  | none =>
    match s.findClass? x.name with
    | none => ⟨(.name x slot, constructs), .error (.undeclaredIdentifier x.name)⟩
    | some c =>
      match c.constructor with
      | none => ⟨(.name x slot, constructs), .error (.notCallable x.name)⟩
      | some signature =>
        ⟨(.name (x.resolved c.resolution) (some c.type), true), .ok ⟨x.name, signature⟩⟩

/-- the number of arguments fits the signature -/
def Signature.arityTest (signature : Signature) (received : Nat) : Except Cause Unit :=
  if received < signature.required then .error (.missingArguments signature.required received)
  else if signature.params.length < received then
    .error (.unexpectedArguments signature.params.length received)
  else .ok ()

/-- async functions are awaited, others are not, and only an async function awaits -/
def Callee.awaitTest (f : Callee) (awaited : Bool) (around : Option Signature) :
    Except Cause Unit :=
  if f.signature.async ≠ awaited then .error (.awaitMismatch f.name f.signature.async)
  else if awaited && !(around.any (·.async)) then .error .awaitOutsideAsyncFunction
  else .ok ()

/-! ## expressions -/

mutual

/-- the type of an expression in a scope -/
def Expr.check (s : Scope) : Expr → Checked Expr Ty
  | .literal v _ => ⟨.literal v (some v.type), .ok v.type⟩
  | .name x slot =>
    match s.lookupVariable x.name with
    | .ok b => ⟨.name (x.resolved b.resolution) (some b.type), .ok b.type⟩
    | .error e => ⟨.name x slot, .error e⟩
  | .binary op left right slot =>
    (left.check s).andThen (.binary op · right slot) fun left a =>
      (right.check s).andThen (.binary op left · slot) fun right b =>
        settle (.binary op left right) slot (op.result a b)
  | .unary op operand slot =>
    (operand.check s).andThen (.unary op · slot) fun operand t =>
      settle (.unary op operand) slot (op.result t)
  | .call callee arguments awaited constructs slot =>
    (match callee with
      | .name x t => s.callee x t constructs
      | _ =>
        (callee.check s).andThen (·, constructs) fun callee t =>
          ⟨(callee, constructs),
            match t.signature? with
            | some signature => .ok ⟨callee.describe, signature⟩
            | none => .error (.notCallable callee.describe)⟩).andThen
      (fun (callee, constructs) => .call callee arguments awaited constructs slot)
      fun (callee, constructs) f =>
        match f.signature.arityTest arguments.length with
        | .error e => ⟨.call callee arguments awaited constructs slot, .error e⟩
        | .ok () =>
          (Expr.checkAll s (argumentTest f.signature.params) [] arguments).andThen
            (.call callee · awaited constructs slot) fun arguments _ =>
              settle (.call callee arguments awaited constructs) slot
                ((f.awaitTest awaited s.frame.function).map fun _ => f.signature.returns)
  | .subscript base index slot =>
    (base.check s).andThen (.subscript · index slot) fun base b =>
      (index.check s).andThen (.subscript base · slot) fun index i =>
        settle (.subscript base index) slot (subscriptType b i)
  | .member object x slot =>
    (object.check s).andThen (.member · x slot) fun object _ =>
      match s.lookupVariable x.name with
      | .ok b => ⟨.member object (x.resolved b.resolution) (some b.type), .ok b.type⟩
      | .error e => ⟨.member object x slot, .error e⟩
  | .collection form elements slot =>
    (Expr.checkAll s form.test [] elements).andThen (.collection form · slot) fun elements ts =>
      settle (.collection form elements) slot (.ok (form.type ts))
  | .dict entries slot =>
    (Expr.checkEntries s none entries).andThen (.dict · slot) fun entries first =>
      let (k, v) := first.getD (.none, .none)
      settle (.dict entries) slot (.ok (.dict k v))

/-- the types of several expressions after those in `seen`; `test` is asked about each new one -/
def Expr.checkAll (s : Scope) (test : List Ty → Ty → Except Cause Unit) (seen : List Ty) :
    List Expr → Checked (List Expr) (List Ty)
  | [] => ⟨[], .ok seen⟩
  | e :: es =>
    (e.check s).andThen (· :: es) fun e t =>
      match test seen t with
      | .error c => ⟨e :: es, .error c⟩
      | .ok () => (Expr.checkAll s test (seen ++ [t]) es).map (e :: ·) id

/-- the types of the first key and value, every entry being tested against them -/
def Expr.checkEntries (s : Scope) (first : Option (Ty × Ty)) :
    List (Expr × Expr) → Checked (List (Expr × Expr)) (Option (Ty × Ty))
  | [] => ⟨[], .ok first⟩
  | (key, value) :: es =>
    (key.check s).andThen (fun key => (key, value) :: es) fun key k =>
      (value.check s).andThen (fun value => (key, value) :: es) fun value v =>
        match entryTest first k v with
        | .error c => ⟨(key, value) :: es, .error c⟩
        | .ok () => (Expr.checkEntries s (first.or (some (k, v))) es).map ((key, value) :: ·) id

end

/-- the types of several expressions that need not fit each other -/
def Expr.checkEach (s : Scope) (es : List Expr) : Checked (List Expr) (List Ty) :=
  Expr.checkAll s (fun _ _ => .ok ()) [] es

end TypedScript
