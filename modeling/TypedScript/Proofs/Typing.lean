import TypedScript.Check.Expressions
import TypedScript.Proofs.Sites
import TypedScript.Scope.Root

/-!
# Trees that are well typed node by node

When a tree is well typed, judged from what is recorded on it alone: the type of a node follows from
the types of the nodes below it, and the type of a name is the one that is recorded where the name is
declared.  No scope is needed; `D` is the list of the declaration sites of the whole tree.

A call has a mark that says whether it constructs an object.  The check sets marks and never removes
one, so a tree may hold marks from before its check; `premarked` says that it may.
-/

namespace TypedScript

/-! ## types as written -/

mutual

/-- a written type stands for `t`; a name stands for a primitive type or for a class of the tree -/
def TypeTerm.Denotes (D : List Site) : TypeTerm → Ty → Prop
  | .named n, t => Generic.ofName? n = none ∧ ((n, t) ∈ primitives ∨
      ∃ h id, .classDef h ∈ D ∧ h.name = n ∧ h.id = some id ∧ t = .classOf id n)
  | .generic n arguments, t => ∃ g ts, Generic.ofName? n = some g ∧
      g.accepts arguments.length = true ∧ allDenote D arguments ts ∧ t = g.build ts
  | .nullable inner, t => ∃ u, inner.Denotes D u ∧ t = .nullable u

def allDenote (D : List Site) : List TypeTerm → List Ty → Prop
  | [], ts => ts = []
  | w :: ws, ts => ∃ u us, ts = u :: us ∧ w.Denotes D u ∧ allDenote D ws us

end

/-! ## names -/

/-- what a parameter contributes to the signature of its function or class -/
def Parameter.param? (p : Parameter) : Option (Param Ty) := p.type.map (⟨·, p.default.isSome⟩)

/-- the site declares the variable `x` with this identity and type.  The type of a function says
whether it is async and which arguments may be left out -/
def Site.Declares (x : String) (id : DeclId) (t : Ty) : Site → Prop
  | .variable _ d => d.name = x ∧ d.id = some id ∧ d.type = some t
  | .parameter p => p.name = x ∧ p.id = some id ∧ p.type = some t
  | .function h => h.name = x ∧ h.id = some id ∧ ∃ params r, t = .function params r h.async ∧
      params.map Param.optional = h.parameters.map (·.default.isSome)
  | .classDef _ => False

def Symbol.Refers (D : List Site) (x : Symbol) (t : Ty) : Prop :=
  match x.resolution with
  | some (.declared id) => ∃ d ∈ D, d.Declares x.name id t
  | some (.builtin native) => ∃ b ∈ builtins, b.name = x.name ∧ b.native = native ∧ t = b.binding.type
  | none => False

/-! ## expressions -/

/-- the recorded type of an expression can be stored in a place of type `t` -/
def Expr.Fits (e : Expr) (t : Ty) : Prop := ∃ u, e.type = some u ∧ u.assignable t = true

/-- there are not more arguments than parameters, and each fits the parameter at its place -/
def argumentsFit : List Expr → List (Param Ty) → Prop
  | [], _ => True
  | e :: es, p :: ps => e.Fits p.type ∧ argumentsFit es ps
  | _ :: _, [] => False

/-- a call with these arguments, awaited or not, has type `t` under the signature -/
structure Signature.Types (f : Signature) (arguments : List Expr) (awaited : Bool) (t : Option Ty) :
    Prop where
  enough : f.required ≤ arguments.length
  fit : argumentsFit arguments f.params
  awaits : awaited = f.async
  returns : t = some f.returns

/-- the callee names a class of the tree, and the arguments fit the parameters of the class -/
structure Expr.Constructs (D : List Site) (callee : Expr) (arguments : List Expr) (awaited : Bool)
    (t : Option Ty) (x : Symbol) (h : ClassHead) (id : DeclId) (params : List (Param Ty)) : Prop where
  named : callee = .name x (some (.classOf id h.name))
  name : x.name = h.name
  resolution : x.resolution = some (.declared id)
  site : .classDef h ∈ D
  identity : h.id = some id
  recorded : h.parameters.map Parameter.param? = params.map some
  types : Signature.Types ⟨params, .classOf id h.name, false⟩ arguments awaited t

/-- elements of types `ts` make up a value of type `t` -/
def Collection.Types (ts : List Ty) (t : Ty) : Collection → Prop
  | .array => t = .array (ts.headD .none) ∧ ∀ u ∈ ts, u.assignable (ts.headD .none) = true
  | .set => t = .set (ts.headD .none) ∧ ∀ u ∈ ts, u.assignable (ts.headD .none) = true
  | .tuple => t = .tupleOf ts

/-- the first entry gives the types of keys and values, and every entry fits them -/
def entriesFit (entries : List (Expr × Expr)) (k v : Ty) : Prop :=
  (match entries with
    | [] => k = .none ∧ v = .none
    | (key, value) :: _ => key.type = some k ∧ value.type = some v) ∧
  ∀ e ∈ entries, e.1.Fits k ∧ e.2.Fits v

mutual

def Expr.Typed (premarked : Prop) (D : List Site) : Expr → Prop
  | .literal v t => t = some v.type
  | .name x t => ∃ u, t = some u ∧ x.Refers D u
  | .binary op left right t => left.Typed premarked D ∧ right.Typed premarked D ∧
      ∃ a b u, left.type = some a ∧ right.type = some b ∧ op.result a b = .ok u ∧ t = some u
  | .unary op operand t => operand.Typed premarked D ∧
      ∃ a u, operand.type = some a ∧ op.result a = .ok u ∧ t = some u
  | .call callee arguments awaited constructs t => Expr.allTyped premarked D arguments ∧
      ((callee.Typed premarked D ∧ (constructs = true → premarked) ∧
          ∃ f : Signature, callee.type = some f.type ∧ f.Types arguments awaited t) ∨
        (constructs = true ∧ ∃ x h id params, callee.Constructs D arguments awaited t x h id params))
  | .subscript base index t => base.Typed premarked D ∧ index.Typed premarked D ∧
      index.type = some .int ∧ ∃ b u, base.type = some b ∧ b.subscript? = some u ∧ t = some u
  | .member object x t => object.Typed premarked D ∧ ∃ u, t = some u ∧ x.Refers D u
  | .collection form elements t => Expr.allTyped premarked D elements ∧
      ∃ ts u, elements.map Expr.type = ts.map some ∧ form.Types ts u ∧ t = some u
  | .dict entries t => Expr.entriesTyped premarked D entries ∧
      ∃ k v, entriesFit entries k v ∧ t = some (.dict k v)

def Expr.allTyped (premarked : Prop) (D : List Site) : List Expr → Prop
  | [] => True
  | e :: es => e.Typed premarked D ∧ Expr.allTyped premarked D es

def Expr.entriesTyped (premarked : Prop) (D : List Site) : List (Expr × Expr) → Prop
  | [] => True
  | (key, value) :: es => key.Typed premarked D ∧ value.Typed premarked D ∧
      Expr.entriesTyped premarked D es

end

/-! ## declarations -/

/-- the recorded type of a declared name: the written one, or else the type of the initial value -/
def Declarator.Typed (D : List Site) (d : Declarator) (value : Option Expr) : Prop :=
  ∃ t, d.type = some t ∧ (∀ w, d.written = some w → w.Denotes D t) ∧
    (∀ e, value = some e → e.Fits t ∧ (d.written = none → e.type = some t)) ∧
    (value = none → d.written.isSome = true)

/-- each name with the value at its place -/
def declaratorsTyped (D : List Site) : List Declarator → List Expr → Prop
  | [], _ => True
  | d :: ds, values => d.Typed D values.head? ∧ declaratorsTyped D ds values.tail

/-- as many values as targets, and each fits the target at its place -/
def valuesFit : List Expr → List Expr → Prop
  | [], [] => True
  | target :: targets, value :: values =>
    (∃ t, target.type = some t ∧ value.Fits t) ∧ valuesFit targets values
  | _, _ => False

def Parameter.Typed (premarked : Prop) (D : List Site) (p : Parameter) : Prop :=
  ∃ t, p.type = some t ∧ p.written.Denotes D t ∧
    ∀ e, p.default = some e → e.Typed premarked D ∧ e.Fits t

/-- `r` is the type of the values that a function returns -/
def FunctionHead.Returns (D : List Site) (h : FunctionHead) (r : Ty) : Prop :=
  match h.returns with
  | none => r = .none
  | some w => w.Denotes D r

def Update.Typed (premarked : Prop) (D : List Site) (t : Ty) : Update Expr → Prop
  | .increment => True
  | .decrement => True
  | .increase e => e.Typed premarked D ∧ e.type = some t
  | .decrease e => e.Typed premarked D ∧ e.type = some t

structure ForHead.Typed (premarked : Prop) (D : List Site) (h : ForHead) : Prop where
  init : h.init.Typed premarked D
  index : h.index.Typed D (some h.init)
  test : h.test.Typed premarked D
  condition : h.test.type = some .bool
  update : ∃ t, h.target.Refers D t ∧ t.isIntegral = true ∧ Update.Typed premarked D t h.update

/-- an expression of one of the types that count -/
def Expr.Counts (e : Expr) : Prop := ∃ t, e.type = some t ∧ t.isIntegral = true

/-- a value is returned where one of type `around` is asked for -/
def returnTyped (premarked : Prop) (D : List Site) (around : Option Ty) : Option Expr → Prop
  | none => ∃ r, around = some r ∧ Ty.none.assignable r = true
  | some e => ∃ r, around = some r ∧ r ≠ .none ∧ e.Typed premarked D ∧ e.Fits r

/-! ## statements -/

mutual

/-- `around` is the type that the function around the statement returns -/
def Stmt.Typed (premarked : Prop) (D : List Site) (around : Option Ty) : Stmt → Prop
  | .expression e => e.Typed premarked D
  | .declare constant ds values => Expr.allTyped premarked D values ∧
      (values = [] ∧ (constant = true → ds = []) ∨ values.length = ds.length) ∧
      declaratorsTyped D ds values
  | .assign targets values => Expr.allTyped premarked D targets ∧ Expr.allTyped premarked D values ∧
      valuesFit targets values
  | .function h body => (∀ p ∈ h.parameters, p.Typed premarked D) ∧
      ∃ r, h.Returns D r ∧ bodyTyped premarked D (some r) body
  | .classDef h body => (∀ p ∈ h.parameters, p.Typed premarked D) ∧ bodyTyped premarked D around body
  | .conditional branches otherwise => branchesTyped premarked D around branches ∧
      otherwiseTyped premarked D around otherwise
  | .whileLoop condition body => condition.Typed premarked D ∧ condition.type = some .bool ∧
      bodyTyped premarked D around body
  | .forLoop h body => h.Typed premarked D ∧ bodyTyped premarked D around body
  | .rangeLoop start stop body => start.Typed premarked D ∧ start.Counts ∧ stop.Typed premarked D ∧
      stop.Counts ∧ bodyTyped premarked D around body
  | .switch scrutinee cases otherwise => scrutinee.Typed premarked D ∧
      branchesTyped premarked D around cases ∧ otherwiseTyped premarked D around otherwise
  | .breakLoop => True
  | .continueLoop => True
  | .returnValue value => returnTyped premarked D around value
  | .print e => e.Typed premarked D
  | .block body => bodyTyped premarked D around body

def bodyTyped (premarked : Prop) (D : List Site) (around : Option Ty) : List Stmt → Prop
  | [] => True
  | s :: ss => s.Typed premarked D around ∧ bodyTyped premarked D around ss

/-- the guards of branches and cases are conditions -/
def branchesTyped (premarked : Prop) (D : List Site) (around : Option Ty) :
    List (Guarded Stmt) → Prop
  | [] => True
  | ⟨guard, body⟩ :: gs => guard.Typed premarked D ∧ guard.type = some .bool ∧
      bodyTyped premarked D around body ∧ branchesTyped premarked D around gs

def otherwiseTyped (premarked : Prop) (D : List Site) (around : Option Ty) :
    Option (List Stmt) → Prop
  | none => True
  | some body => bodyTyped premarked D around body

end

/-! ## marks from before a check -/

mutual

/-- no call has the mark of a constructor -/
def Expr.Unmarked : Expr → Prop
  | .literal _ _ => True
  | .name _ _ => True
  | .binary _ left right _ => left.Unmarked ∧ right.Unmarked
  | .unary _ operand _ => operand.Unmarked
  | .call callee arguments _ constructs _ => constructs = false ∧ callee.Unmarked ∧
      Expr.allUnmarked arguments
  | .subscript base index _ => base.Unmarked ∧ index.Unmarked
  | .member object _ _ => object.Unmarked
  | .collection _ elements _ => Expr.allUnmarked elements
  | .dict entries _ => Expr.entriesUnmarked entries

def Expr.allUnmarked : List Expr → Prop
  | [] => True
  | e :: es => e.Unmarked ∧ Expr.allUnmarked es

def Expr.entriesUnmarked : List (Expr × Expr) → Prop
  | [] => True
  | (key, value) :: es => key.Unmarked ∧ value.Unmarked ∧ Expr.entriesUnmarked es

end

def Parameter.Unmarked (p : Parameter) : Prop := ∀ e, p.default = some e → e.Unmarked

def Update.Unmarked : Update Expr → Prop
  | .increment => True
  | .decrement => True
  | .increase e => e.Unmarked
  | .decrease e => e.Unmarked

def ForHead.Unmarked (h : ForHead) : Prop :=
  h.init.Unmarked ∧ h.test.Unmarked ∧ Update.Unmarked h.update

mutual

def Stmt.Unmarked : Stmt → Prop
  | .expression e => e.Unmarked
  | .declare _ _ values => Expr.allUnmarked values
  | .assign targets values => Expr.allUnmarked targets ∧ Expr.allUnmarked values
  | .function h body => (∀ p ∈ h.parameters, p.Unmarked) ∧ bodyUnmarked body
  | .classDef h body => (∀ p ∈ h.parameters, p.Unmarked) ∧ bodyUnmarked body
  | .conditional branches otherwise => branchesUnmarked branches ∧ otherwiseUnmarked otherwise
  | .whileLoop condition body => condition.Unmarked ∧ bodyUnmarked body
  | .forLoop h body => h.Unmarked ∧ bodyUnmarked body
  | .rangeLoop start stop body => start.Unmarked ∧ stop.Unmarked ∧ bodyUnmarked body
  | .switch scrutinee cases otherwise => scrutinee.Unmarked ∧ branchesUnmarked cases ∧
      otherwiseUnmarked otherwise
  | .breakLoop => True
  | .continueLoop => True
  | .returnValue value => ∀ e, value = some e → e.Unmarked
  | .print e => e.Unmarked
  | .block body => bodyUnmarked body

def bodyUnmarked : List Stmt → Prop
  | [] => True
  | s :: ss => s.Unmarked ∧ bodyUnmarked ss

def branchesUnmarked : List (Guarded Stmt) → Prop
  | [] => True
  | ⟨guard, body⟩ :: gs => guard.Unmarked ∧ bodyUnmarked body ∧ branchesUnmarked gs

def otherwiseUnmarked : Option (List Stmt) → Prop
  | none => True
  | some body => bodyUnmarked body

end

end TypedScript
