import TypedScript.Check.Expressions

/-!
# Checking declarations

Statements are checked in a `Context`: a scope, and the identity that the next declaration gets.  A
`Step` is a tree as it stands after a check, the context after it, and the cause of a failure.  An
identity that was given out is never given out again, even if its declaration then fails.

* `Context.bind`               declares a variable with a new identity;
* `FunctionHead.signature`     resolves the types of a function's parameters and result;
* `hoist`                      declares the functions of a statement list before it is checked.
-/

namespace TypedScript

/-! ## contexts and steps -/

structure Context where
  scope : Scope
  nextId : DeclId
  deriving Inhabited

/-- a tree as it stands after a check, with the context after it -/
structure Step (α : Type) where
  context : Context
  tree : α
  failure : Option Cause

namespace Step

variable {α β γ : Type}

def ok (c : Context) (tree : α) : Step α := ⟨c, tree, none⟩

def fail (c : Context) (tree : α) (e : Cause) : Step α := ⟨c, tree, some e⟩

/-- goes on after a success; after a failure the tree is put where it belongs -/
def andThen (x : Step α) (wrap : α → β) (next : α → Context → Step β) : Step β :=
  match x.failure with
  | none => next x.tree x.context
  | some e => fail x.context (wrap x.tree) e

def map (x : Step α) (f : α → β) : Step β := ⟨x.context, f x.tree, x.failure⟩

theorem andThen_none {x : Step α} (h : x.failure = none) (wrap : α → β)
    (next : α → Context → Step β) : x.andThen wrap next = next x.tree x.context := by
  simp [andThen, h]

theorem andThen_some {x : Step α} {e : Cause} (h : x.failure = some e) (wrap : α → β)
    (next : α → Context → Step β) : x.andThen wrap next = fail x.context (wrap x.tree) e := by
  simp [andThen, h]

end Step

/-- goes on with the value of a check that does not change the context -/
def Checked.step {α β γ : Type} (x : Checked α β) (c : Context) (wrap : α → γ)
    (next : α → β → Step γ) : Step γ :=
  match x.result with
  | .ok b => next x.tree b
  | .error e => .fail c (wrap x.tree) e

namespace Context

/-- a new identity -/
def fresh (c : Context) : DeclId × Context := (c.nextId, { c with nextId := c.nextId + 1 })

/-- declares a variable with a new identity -/
def bind (c : Context) (name : String) (type : Ty) (kind : BindingKind) :
    Context × Except Cause DeclId :=
  let (id, c) := c.fresh
  match c.scope.declareVariable name ⟨.declared id, type, kind⟩ with
  | .ok s => ({ c with scope := s }, .ok id)
  | .error e => (c, .error e)

/-- checks a part in a scope of its own, of which only the count of identities remains -/
def inside {α : Type} (c : Context) (s : Scope) (part : Context → Step α) : Step α :=
  let x := part ⟨s, c.nextId⟩
  { x with context := { c with nextId := x.context.nextId } }

end Context

/-- a value of type `received` where `expected` is needed -/
def mismatch (expected received : Ty) : Cause := .typeMismatch expected.text received.text

/-! ## variables -/

/-- the type of a declared name: the written one, which the value must fit, or the value's -/
def declaredType (s : Scope) (name : String) (written : Option TypeTerm) (value : Option Ty) :
    Except Cause Ty :=
  match written, value with
  | some w, some v => do
    let t ← w.resolve s
    if v.assignable t then return t else throw (mismatch t v)
  | some w, none => w.resolve s
  | none, some v => .ok v
  | none, none => .error (.missingTypeAndValue name)

/-- declares a name and writes its identity and type on the tree -/
def Declarator.bind (d : Declarator) (constant : Bool) (value : Option Ty) (c : Context) :
    Step Declarator :=
  match declaredType c.scope d.name d.written value with
  | .error e => .fail c d e
  | .ok t =>
    match c.bind d.name t (.variable constant) with
    | (c, .ok id) => .ok c { d with id := some id, type := some t }
    | (c, .error e) => .fail c d e

/-- declares names one after the other, each with the value at its place -/
def bindDeclarators (constant : Bool) :
    List Declarator → List Ty → Context → Step (List Declarator)
  | [], _, c => .ok c []
  | d :: ds, ts, c =>
    (d.bind constant ts.head? c).andThen (· :: ds) fun d c =>
      (bindDeclarators constant ds ts.tail c).map (d :: ·)

/-- what is wrong with a declaration before its values are looked at -/
def declarationFault? (constant : Bool) (ds : List Declarator) (values : List Expr) :
    Option Cause :=
  if values.isEmpty then
    ds.findSome? fun d =>
      if constant then some (.constantWithoutValue d.name)
      else if d.written.isNone then some (.missingTypeAndValue d.name)
      else none
  else if values.length ≠ ds.length then some (.arityMismatch ds.length values.length)
  else none

/-! ## assignments -/

/-- only variables, elements and members can be assigned to -/
def targetFault? (s : Scope) : Expr → Option Cause
  | .name x _ =>
    match s.lookupVariable x.name with
    | .ok b => if b.writable then none else some (.constantAssignment x.name)
    | .error e => some e
  | .subscript _ _ _ => none
  | .member _ _ _ => none
  | e => some (.invalidTarget e.describe)

/-- a member stands for a variable of the scope, and shares its rules -/
def memberFault? (s : Scope) : Expr → Option Cause
  | .member _ x _ =>
    match s.lookupVariable x.name with
    | .ok b => if b.writable then none else some (.constantAssignment x.name)
    | .error e => some e
  | _ => none

/-- the types of the targets of an assignment -/
def checkTargets (s : Scope) : List Expr → Checked (List Expr) (List Ty)
  | [] => ⟨[], .ok []⟩
  | e :: es =>
    match targetFault? s e with
    | some c => ⟨e :: es, .error c⟩
    | none =>
      (e.check s).andThen (· :: es) fun e t =>
        match memberFault? s e with
        | some c => ⟨e :: es, .error c⟩
        | none => (checkTargets s es).map (e :: ·) (t :: ·)

/-- a value fits the target at its place -/
def assignedTest (targets : List Ty) (seen : List Ty) (t : Ty) : Except Cause Unit :=
  match targets[seen.length]? with
  | some target => if t.assignable target then .ok () else .error (mismatch target t)
  | none => .ok ()

/-! ## parameters -/

/-- resolves the types of parameters and writes them on the tree -/
def resolveParameters (s : Scope) :
    List Parameter → Checked (List Parameter) (List (Param Ty))
  | [] => ⟨[], .ok []⟩
  | p :: ps =>
    match p.written.resolve s with
    | .error e => ⟨p :: ps, .error e⟩
    | .ok t =>
      (resolveParameters s ps).map ({ p with type := some t } :: ·) (⟨t, p.default.isSome⟩ :: ·)

/-- the recorded type of a parameter, or the one it is written with -/
def Parameter.typeIn (s : Scope) (p : Parameter) : Except Cause Ty :=
  match p.type with
  | some t => .ok t
  | none => p.written.resolve s

/-- the default of a parameter fits its type -/
def Parameter.checkDefault (s : Scope) (p : Parameter) : Checked Parameter Unit :=
  match p.typeIn s with
  | .error e => ⟨p, .error e⟩
  | .ok expected =>
    match p.default with
    | none => ⟨p, .ok ()⟩
    | some value =>
      (value.check s).andThen (fun v => { p with default := some v }) fun v received =>
        ⟨{ p with default := some v },
          if received.assignable expected then .ok () else .error (mismatch expected received)⟩

def checkDefaults (s : Scope) : List Parameter → Checked (List Parameter) Unit
  | [] => ⟨[], .ok ()⟩
  | p :: ps =>
    (p.checkDefault s).andThen (· :: ps) fun p _ => (checkDefaults s ps).map (p :: ·) id

/-- declares a parameter and writes its identity and type on the tree -/
def Parameter.bind (p : Parameter) (c : Context) : Step Parameter :=
  match p.typeIn c.scope with
  | .error e => .fail c p e
  | .ok t =>
    match c.bind p.name t .parameter with
    | (c, .ok id) => .ok c { p with id := some id, type := some t }
    | (c, .error e) => .fail c p e

def bindParameters : List Parameter → Context → Step (List Parameter)
  | [], c => .ok c []
  | p :: ps, c => (p.bind c).andThen (· :: ps) fun p c => (bindParameters ps c).map (p :: ·)

/-! ## functions -/

/-- the type that a function returns -/
def FunctionHead.returnType (s : Scope) (h : FunctionHead) : Except Cause Ty :=
  match h.returns with
  | some t => t.resolve s
  | none => .ok .none

/-- the signature of a function; the types of its parameters are written on the tree -/
def FunctionHead.signature (s : Scope) (h : FunctionHead) : Checked FunctionHead Signature :=
  (resolveParameters s h.parameters).andThen (fun ps => { h with parameters := ps })
    fun ps params =>
      ⟨{ h with parameters := ps }, (h.returnType s).map fun t => ⟨params, t, h.async⟩⟩

/-- declares the name of a function -/
def FunctionHead.declare (h : FunctionHead) (c : Context) : Step FunctionHead :=
  (h.signature c.scope).step c (fun h => h) fun h signature =>
    match c.bind h.name signature.type .function with
    | (c, .ok id) => .ok c { h with id := some id }
    | (c, .error e) => .fail c h e

/-- declares the functions of a statement list, so that the whole list can call them -/
def hoist : List Stmt → Context → Step (List Stmt)
  | [], c => .ok c []
  | .function h body :: rest, c =>
    (h.declare c).andThen (fun h => .function h body :: rest) fun h c =>
      (hoist rest c).map (.function h body :: ·)
  | s :: rest, c => (hoist rest c).map (s :: ·)

/-! ## classes -/

/-- declares a class.  Its constructor takes the parameters of the class, whose types, defaults and
names are checked here; the names are known in no other place -/
def ClassHead.declare (h : ClassHead) (c : Context) : Step ClassHead :=
  let (id, c) := c.fresh
  let type := Ty.classOf id h.name
  (resolveParameters c.scope h.parameters).step c (fun ps => { h with parameters := ps })
    fun ps params =>
      let h := { h with parameters := ps }
      let signature : Signature := ⟨params, type, false⟩
      match c.scope.declareClass h.name ⟨.declared id, type, some signature⟩ with
      | .error e => .fail c h e
      | .ok s =>
        let c := { c with scope := s }
        let h := { h with id := some id }
        (checkDefaults c.scope h.parameters).step c (fun ps => { h with parameters := ps })
          fun ps _ =>
            (c.inside (c.scope.enterFunction signature) (bindParameters ps)).map
              fun ps => { h with parameters := ps }

/-! ## conditions -/

/-- checks an expression that has to be a condition -/
def checkCondition (s : Scope) (construct : String) (e : Expr) : Checked Expr Unit :=
  (e.check s).andThen id fun e t =>
    ⟨e, if t = .bool then .ok () else .error (.conditionMismatch construct t.text)⟩

/-- checks an expression that has to be a bound of a range -/
def checkBound (s : Scope) (e : Expr) : Checked Expr Unit :=
  (e.check s).andThen id fun e t =>
    ⟨e, if t.isIntegral then .ok () else .error (.rangeBoundMismatch t.text)⟩

/-! ## counting loops -/

/-- the step of a loop has the type of the loop's target -/
def checkUpdate (s : Scope) (target : Ty) : Update Expr → Checked (Update Expr) Unit
  | .increment => ⟨.increment, .ok ()⟩
  | .decrement => ⟨.decrement, .ok ()⟩
  | .increase step => checkStep step .increase
  | .decrease step => checkStep step .decrease
where
  checkStep (step : Expr) (wrap : Expr → Update Expr) : Checked (Update Expr) Unit :=
    (step.check s).andThen wrap fun step t =>
      ⟨wrap step, if t = target then .ok () else .error (mismatch target t)⟩

/-- checks the head of a counting loop in the scope of the loop and declares its index there -/
def ForHead.check (h : ForHead) (c : Context) : Step ForHead :=
  (h.init.check c.scope).step c (fun init => { h with init := init }) fun init t =>
    let h := { h with init := init }
    (h.index.bind false (some t) c).andThen (fun index => { h with index := index }) fun index c =>
      let h := { h with index := index }
      (checkCondition c.scope "for" h.test).step c (fun test => { h with test := test })
        fun test _ =>
          let h := { h with test := test }
          match c.scope.lookupVariable h.target.name with
          | .error e => .fail c h e
          | .ok b =>
            if b.type.isIntegral then
              let h := { h with target := h.target.resolved b.resolution }
              (checkUpdate c.scope b.type h.update).step c (fun u => { h with update := u })
                fun u _ => .ok c { h with update := u }
            else .fail c h (.loopIndexMismatch h.target.name b.type.text)

/-! ## returns -/

/-- a value is returned from a function that returns one, and it fits -/
def checkReturn (s : Scope) (value : Option Expr) : Checked (Option Expr) Unit :=
  match s.frame.function with
  | none => ⟨value, .error .returnOutsideFunction⟩
  | some f =>
    match value with
    | none =>
      ⟨none, if Ty.none.assignable f.returns then .ok () else .error (mismatch f.returns .none)⟩
    | some e =>
      if f.returns = .none then ⟨some e, .error .returnValueInVoidFunction⟩
      else
        (e.check s).andThen some fun e t =>
          ⟨some e, if t.assignable f.returns then .ok () else .error (mismatch f.returns t)⟩

end TypedScript
