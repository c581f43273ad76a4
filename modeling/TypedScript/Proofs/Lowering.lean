import TypedScript.Compile
import TypedScript.Proofs.Mangling

/-!
# Scripts under a naming

A script is lowered in one run, in which declarations get their names when they are met for the first
time.  Seen from the end of the run nothing depends on the order: the script is the program with the
names that the end knows.  Only the indices of range loops are names of their own.

* `Stmt.Lowers`, `BodyLowers`: the statements that a statement becomes under a naming;
* `Stmt.settles_lower`, `settles_lowerBody`: lowering follows the rules.
-/

namespace TypedScript

variable {ν : DeclId → String}

/-! ## labels -/

def Resolution.label (ν : DeclId → String) : Resolution → String
  | .declared id => ν id
  | .builtin native => native

/-- the name of a declaration; one without an identity keeps its source name -/
def declarationLabel (ν : DeclId → String) (id : Option DeclId) (name : String) : String :=
  match id with
  | some id => ν id
  | none => name

def Symbol.label (ν : DeclId → String) (x : Symbol) : String :=
  match x.resolution with
  | some r => r.label ν
  | none => x.name

def Declarator.label (ν : DeclId → String) (d : Declarator) : String := declarationLabel ν d.id d.name

def FunctionHead.label (ν : DeclId → String) (h : FunctionHead) : String := declarationLabel ν h.id h.name

def ClassHead.label (ν : DeclId → String) (h : ClassHead) : String := declarationLabel ν h.id h.name

/-! ## expressions -/

/-- a call of a function, or of a constructor -/
def Script.Expr.applied (constructs awaited : Bool) (f : Script.Expr) (as : List Script.Expr) :
    Script.Expr :=
  let call := if constructs then Script.Expr.construct f as else .call f as
  if awaited then .await call else call

mutual

def Expr.named (ν : DeclId → String) : Expr → Script.Expr
  | .literal v _ => .literal v
  | .name x _ => .ident (x.label ν)
  | .binary op left right _ =>
    if op = .divide ∧ left.type = some .int then .truncate (.binary op (left.named ν) (right.named ν))
    else .binary op (left.named ν) (right.named ν)
  | .unary op operand _ =>
    if op = .plus ∧ operand.type = some .long then .group (operand.named ν)
    else .unary op (operand.named ν)
  | .call callee arguments awaited constructs _ =>
    .applied constructs awaited (callee.named ν) (Expr.allNamed ν arguments)
  | .subscript base index _ => .subscript (base.named ν) (index.named ν)
  | .member object x _ => .member (object.named ν) (x.label ν)
  | .collection .set elements _ => .newSet (Expr.allNamed ν elements)
  | .collection .array elements _ => .array (Expr.allNamed ν elements)
  | .collection .tuple elements _ => .array (Expr.allNamed ν elements)
  | .dict entries _ => .object (Expr.entriesNamed ν entries)

def Expr.allNamed (ν : DeclId → String) : List Expr → List Script.Expr
  | [] => []
  | e :: es => e.named ν :: Expr.allNamed ν es

def Expr.entriesNamed (ν : DeclId → String) : List (Expr × Expr) → List (Script.Expr × Script.Expr)
  | [] => []
  | (key, value) :: es => (key.named ν, value.named ν) :: Expr.entriesNamed ν es

end

def Parameter.named (ν : DeclId → String) (p : Parameter) : Script.Param :=
  ⟨declarationLabel ν p.id p.name, p.default.map (Expr.named ν)⟩

def Update.named (ν : DeclId → String) : Update Expr → Update Script.Expr
  | .increment => .increment
  | .decrement => .decrement
  | .increase e => .increase (e.named ν)
  | .decrease e => .decrease (e.named ν)

/-! ## statements -/

/-- the variables that the statements of a class body declare -/
def fieldLabels (ν : DeclId → String) : List Stmt → List String
  | [] => []
  | .declare _ ds _ :: ss => ds.map (Declarator.label ν) ++ fieldLabels ν ss
  | _ :: ss => fieldLabels ν ss

/-- the functions that the statements of a class body declare -/
def methodLabels (ν : DeclId → String) : List Stmt → List String
  | [] => []
  | .function h _ :: ss => h.label ν :: methodLabels ν ss
  | _ :: ss => methodLabels ν ss

def ClassHead.members (ν : DeclId → String) (h : ClassHead) (body : List Stmt) : List Script.Stmt :=
  .constructor (h.label ν) (h.parameters.map (Parameter.named ν)) (fieldLabels ν body) ::
    (methodLabels ν body).map (.attach (h.label ν))

/-- a loop from `first` to `last` with an index of its own -/
def rangeLoopWith (index : String) (first last : Script.Expr) (body : List Script.Stmt) : Script.Stmt :=
  .forLoop index first (.binary .less (.ident index) last) index .increment body

mutual

inductive Stmt.Lowers (ν : DeclId → String) : Stmt → List Script.Stmt → Prop
  | expression : Stmt.Lowers ν (.expression e) [.expression (e.named ν)]
  | declare :
    Stmt.Lowers ν (.declare constant ds values)
      [.declare constant (ds.map (Declarator.label ν)) (Expr.allNamed ν values)]
  | assign :
    Stmt.Lowers ν (.assign targets values) [.assign (Expr.allNamed ν targets) (Expr.allNamed ν values)]
  | function {h : FunctionHead} {body : List Stmt} {ss : List Script.Stmt} : BodyLowers ν body ss →
    Stmt.Lowers ν (.function h body)
      [.function h.async (h.label ν) (h.parameters.map (Parameter.named ν)) ss]
  | classDef {h : ClassHead} {body : List Stmt} {ss : List Script.Stmt} : BodyLowers ν body ss →
    Stmt.Lowers ν (.classDef h body) (ss ++ h.members ν body)
  | conditional {branches : List (Guarded Stmt)} {otherwise : Option (List Stmt)}
    {gs : List (Script.Guarded Script.Stmt)} {o : Option (List Script.Stmt)} :
    BranchesLower ν branches gs → OtherwiseLowers ν otherwise o →
    Stmt.Lowers ν (.conditional branches otherwise) [.conditional gs o]
  | whileLoop {condition : Expr} {body : List Stmt} {ss : List Script.Stmt} : BodyLowers ν body ss →
    Stmt.Lowers ν (.whileLoop condition body) [.whileLoop (condition.named ν) ss]
  | forLoop {h : ForHead} {body : List Stmt} {ss : List Script.Stmt} : BodyLowers ν body ss →
    Stmt.Lowers ν (.forLoop h body) [.forLoop (h.index.label ν) (h.init.named ν) (h.test.named ν)
      (h.target.label ν) (h.update.named ν) ss]
  | rangeLoop {start stop : Expr} {body : List Stmt} {ss : List Script.Stmt} (number : Nat) :
    BodyLowers ν body ss →
    Stmt.Lowers ν (.rangeLoop start stop body)
      [rangeLoopWith (mangled "range" number) (start.named ν) (stop.named ν) ss]
  | switch {scrutinee : Expr} {cases : List (Guarded Stmt)} {otherwise : Option (List Stmt)}
    {gs : List (Script.Guarded Script.Stmt)} {o : Option (List Script.Stmt)} :
    BranchesLower ν cases gs → OtherwiseLowers ν otherwise o →
    Stmt.Lowers ν (.switch scrutinee cases otherwise)
      (Stmt.lower.evaluation scrutinee (scrutinee.named ν) ++ [.switch gs o])
  | breakLoop : Stmt.Lowers ν .breakLoop [.breakLoop]
  | continueLoop : Stmt.Lowers ν .continueLoop [.continueLoop]
  | returnValue : Stmt.Lowers ν (.returnValue value) [.returnValue (value.map (Expr.named ν))]
  | print : Stmt.Lowers ν (.print e) [.print (e.named ν)]
  | block : BodyLowers ν body ss → Stmt.Lowers ν (.block body) [.block ss]

inductive BodyLowers (ν : DeclId → String) : List Stmt → List Script.Stmt → Prop
  | nil : BodyLowers ν [] []
  | cons {s : Stmt} {body : List Stmt} {ss ts : List Script.Stmt} : Stmt.Lowers ν s ss →
    BodyLowers ν body ts → BodyLowers ν (s :: body) (ss ++ ts)

inductive BranchesLower (ν : DeclId → String) :
    List (Guarded Stmt) → List (Script.Guarded Script.Stmt) → Prop
  | nil : BranchesLower ν [] []
  | cons {guard : Expr} {body : List Stmt} {ss : List Script.Stmt} {gs : List (Guarded Stmt)}
    {gs' : List (Script.Guarded Script.Stmt)} : BodyLowers ν body ss → BranchesLower ν gs gs' →
    BranchesLower ν (⟨guard, body⟩ :: gs) (⟨guard.named ν, ss⟩ :: gs')

inductive OtherwiseLowers (ν : DeclId → String) : Option (List Stmt) → Option (List Script.Stmt) → Prop
  | none : OtherwiseLowers ν none none
  | some : BodyLowers ν body ss → OtherwiseLowers ν (some body) (some ss)

end

/-! ## runs -/

/-- a naming that knows the names given out so far -/
def Names.Fits (ν : DeclId → String) (ns : Names) : Prop :=
  ∀ id s, ns.given.lookup id = some s → ν id = s

/-- what a run returns, for every naming that knows the names at its end; no name is given out twice -/
def Naming.Settles {α : Type} (m : Naming α) (P : (DeclId → String) → α → Prop) : Prop :=
  ∀ ns ν, (m ns).2.Fits ν → ns.Fits ν ∧ P ν (m ns).1

namespace Naming

section

variable {α β : Type} {P : (DeclId → String) → α → Prop} {Q : (DeclId → String) → β → Prop}

theorem Settles.pure {a : α} (h : ∀ ν, P ν a) : Settles (Pure.pure a) P :=
  fun _ ν hfits => ⟨hfits, h ν⟩

theorem Settles.bind {m : Naming α} {f : α → Naming β} (hm : m.Settles P)
    (hf : ∀ a, (f a).Settles fun ν b => P ν a → Q ν b) : (m >>= f).Settles Q := by
  intro ns ν hfits
  obtain ⟨hmiddle, hQ⟩ := hf (m ns).1 (m ns).2 ν hfits
  obtain ⟨hstart, hP⟩ := hm ns ν hmiddle
  exact ⟨hstart, hQ hP⟩

end

theorem settles_fresh : (fresh "range").Settles fun _ s => ∃ number, s = mangled "range" number :=
  fun ns _ hfits => ⟨hfits, ns.next, rfl⟩

theorem settles_declaration (id : Option DeclId) (x : String) :
    (declaration id x).Settles fun ν s => s = declarationLabel ν id x := by
  intro ns ν hfits
  cases id with
  | none => exact ⟨hfits, rfl⟩
  | some id =>
    cases hlookup : ns.given.lookup id with
    | some s =>
      rw [declaration_known hlookup] at hfits ⊢
      exact ⟨hfits, (hfits id s hlookup).symm⟩
    | none =>
      rw [declaration_new hlookup] at hfits ⊢
      refine ⟨fun id' s hs => hfits id' s ?_, (hfits id _ ?_).symm⟩
      · -- a name that was known before is another declaration's
        have hne : id' ≠ id := by
          rintro rfl
          exact nomatch hlookup.symm.trans hs
        rw [List.lookup_cons, beq_eq_false_iff_ne.mpr hne]
        exact hs
      · rw [List.lookup_cons, beq_self_eq_true]

theorem settles_symbol (x : Symbol) : (symbol x).Settles fun ν s => s = x.label ν := by
  unfold symbol Symbol.label
  cases x.resolution with
  | none => exact .pure fun _ => rfl
  | some r =>
    cases r with
    | declared id => exact settles_declaration (some id) x.name
    | builtin native => exact .pure fun _ => rfl

end Naming

open Naming (Settles settles_declaration settles_symbol settles_fresh)

mutual

theorem Expr.settles_lower (e : Expr) : e.lower.Settles fun ν e' => e' = e.named ν := by
  match e with
  | .literal v t =>
    rw [Expr.lower]
    exact .pure fun _ => rfl
  | .name x t =>
    rw [Expr.lower]
    exact (settles_symbol x).bind fun s => .pure fun ν hs => by rw [hs, Expr.named]
  | .binary op left right t =>
    rw [Expr.lower]
    refine left.settles_lower.bind fun l => right.settles_lower.bind fun r => ?_
    split
    · next h => exact .pure fun ν hr hl => by rw [Expr.named, if_pos h, hr, hl]
    · next h => exact .pure fun ν hr hl => by rw [Expr.named, if_neg h, hr, hl]
  | .unary op operand t =>
    rw [Expr.lower]
    refine operand.settles_lower.bind fun x => ?_
    split
    · next h => exact .pure fun ν hx => by rw [Expr.named, if_pos h, hx]
    · next h => exact .pure fun ν hx => by rw [Expr.named, if_neg h, hx]
  | .call callee arguments awaited constructs t =>
    rw [Expr.lower]
    refine callee.settles_lower.bind fun f => (Expr.settles_lowerAll arguments).bind fun as => ?_
    cases awaited <;> exact .pure fun ν has hf => by rw [Expr.named, has, hf]; rfl
  | .subscript base index t =>
    rw [Expr.lower]
    exact base.settles_lower.bind fun b => index.settles_lower.bind fun i =>
      .pure fun ν hi hb => by rw [Expr.named, hi, hb]
  | .member object x t =>
    rw [Expr.lower]
    exact object.settles_lower.bind fun o => (settles_symbol x).bind fun s =>
      .pure fun ν hs ho => by rw [Expr.named, hs, ho]
  | .collection form elements t =>
    rw [Expr.lower]
    refine (Expr.settles_lowerAll elements).bind fun es => ?_
    cases form <;> exact .pure fun ν hes => by rw [Expr.named, hes]
  | .dict entries t =>
    rw [Expr.lower]
    exact (Expr.settles_lowerEntries entries).bind fun es => .pure fun ν hes => by rw [Expr.named, hes]

theorem Expr.settles_lowerAll (es : List Expr) :
    (Expr.lowerAll es).Settles fun ν es' => es' = Expr.allNamed ν es := by
  match es with
  | [] => exact .pure fun _ => rfl
  | e :: es =>
    rw [Expr.lowerAll]
    exact e.settles_lower.bind fun e' => (Expr.settles_lowerAll es).bind fun es' =>
      .pure fun ν hes he => by rw [Expr.allNamed, hes, he]

theorem Expr.settles_lowerEntries (es : List (Expr × Expr)) :
    (Expr.lowerEntries es).Settles fun ν es' => es' = Expr.entriesNamed ν es := by
  match es with
  | [] => exact .pure fun _ => rfl
  | (key, value) :: es =>
    rw [Expr.lowerEntries]
    exact key.settles_lower.bind fun k => value.settles_lower.bind fun v =>
      (Expr.settles_lowerEntries es).bind fun es' =>
        .pure fun ν hes hv hk => by rw [Expr.entriesNamed, hes, hv, hk]

end

/-! ## declarations -/

theorem settles_declarators (ds : List Declarator) :
    (ds.mapM Declarator.lower : Naming _).Settles fun ν names => names = ds.map (Declarator.label ν) := by
  induction ds with
  | nil => exact .pure fun _ => rfl
  | cons d ds ih =>
    rw [List.mapM_cons]
    exact (settles_declaration d.id d.name).bind fun s => ih.bind fun names =>
      .pure fun ν hnames hs => by rw [hnames, hs]; rfl

theorem Parameter.settles_lower (p : Parameter) : p.lower.Settles fun ν p' => p' = p.named ν := by
  unfold Parameter.lower Parameter.named
  refine (settles_declaration p.id p.name).bind fun s => ?_
  cases p.default with
  | none => exact .pure fun ν hs => by rw [hs]; rfl
  | some e => exact e.settles_lower.bind fun e' => .pure fun ν he hs => by rw [hs, he]; rfl

theorem settles_parameters (ps : List Parameter) :
    (ps.mapM Parameter.lower : Naming _).Settles fun ν ps' => ps' = ps.map (Parameter.named ν) := by
  induction ps with
  | nil => exact .pure fun _ => rfl
  | cons p ps ih =>
    rw [List.mapM_cons]
    exact p.settles_lower.bind fun p' => ih.bind fun ps' =>
      .pure fun ν hps hp => by rw [hps, hp]; rfl

theorem Update.settles_lower (u : Update Expr) :
    (Update.lower u).Settles fun ν u' => u' = Update.named ν u := by
  cases u with
  | increment | decrement => exact .pure fun _ => rfl
  | increase e | decrease e => exact e.settles_lower.bind fun e' => .pure fun ν he => by rw [he]; rfl

theorem Stmt.settles_memberNames (s : Stmt) : s.memberNames.Settles fun ν names =>
    ∀ ss, fieldLabels ν (s :: ss) = names.1 ++ fieldLabels ν ss ∧
      methodLabels ν (s :: ss) = names.2 ++ methodLabels ν ss := by
  cases s with
  | declare constant ds values =>
    exact (settles_declarators ds).bind fun names => .pure fun ν hnames ss => ⟨by rw [hnames]; rfl, rfl⟩
  | function h body =>
    exact (settles_declaration h.id h.name).bind fun s => .pure fun ν hs ss => ⟨rfl, by rw [hs]; rfl⟩
  | _ => exact .pure fun ν ss => ⟨rfl, rfl⟩

/-! ## statements -/

mutual

theorem Stmt.settles_lower (s : Stmt) : s.lower.Settles fun ν ss => s.Lowers ν ss := by
  match s with
  | .expression e =>
    rw [Stmt.lower]
    exact e.settles_lower.bind fun e' => .pure fun ν he => he ▸ .expression
  | .declare constant ds values =>
    rw [Stmt.lower]
    exact (settles_declarators ds).bind fun names => (Expr.settles_lowerAll values).bind fun es =>
      .pure fun ν hes hnames => hes ▸ hnames ▸ .declare
  | .assign targets values =>
    rw [Stmt.lower]
    exact (Expr.settles_lowerAll targets).bind fun ts => (Expr.settles_lowerAll values).bind fun es =>
      .pure fun ν hes hts => hes ▸ hts ▸ .assign
  | .function h body =>
    rw [Stmt.lower]
    exact (settles_declaration h.id h.name).bind fun s => (settles_parameters h.parameters).bind fun ps =>
      (settles_lowerBody body).bind fun ss => .pure fun ν hss hps hs => hps ▸ hs ▸ .function hss
  | .classDef h body =>
    rw [Stmt.lower]
    refine (settles_declaration h.id h.name).bind fun s => (settles_parameters h.parameters).bind fun ps =>
      (settles_lowerMembers body).bind fun members => .pure fun ν hmembers hps hs => ?_
    obtain ⟨hss, hfields, hmethods⟩ := hmembers
    rw [hs, hps, hfields, hmethods]
    exact .classDef hss
  | .conditional branches none =>
    rw [Stmt.lower]
    exact (settles_lowerBranches branches).bind fun gs => .pure fun ν hgs => .conditional hgs .none
  | .conditional branches (some body) =>
    rw [Stmt.lower]
    exact (settles_lowerBranches branches).bind fun gs => (settles_lowerBody body).bind fun ss =>
      .pure fun ν hss hgs => .conditional hgs (.some hss)
  | .whileLoop condition body =>
    rw [Stmt.lower]
    exact condition.settles_lower.bind fun c => (settles_lowerBody body).bind fun ss =>
      .pure fun ν hss hc => hc ▸ .whileLoop hss
  | .forLoop h body =>
    rw [Stmt.lower]
    refine (settles_declaration h.index.id h.index.name).bind fun index =>
      h.init.settles_lower.bind fun init => h.test.settles_lower.bind fun test =>
      (settles_symbol h.target).bind fun target => (Update.settles_lower h.update).bind fun update =>
      (settles_lowerBody body).bind fun ss =>
        .pure fun ν hss hupdate htarget htest hinit hindex => ?_
    rw [hupdate, htarget, htest, hinit, hindex]
    exact .forLoop hss
  | .rangeLoop start stop body =>
    rw [Stmt.lower]
    refine start.settles_lower.bind fun first => stop.settles_lower.bind fun last =>
      settles_fresh.bind fun index => (settles_lowerBody body).bind fun ss =>
        .pure fun ν hss hindex hlast hfirst => ?_
    obtain ⟨number, rfl⟩ := hindex
    rw [hlast, hfirst]
    exact .rangeLoop number hss
  | .switch scrutinee cases none =>
    rw [Stmt.lower]
    exact scrutinee.settles_lower.bind fun e => (settles_lowerBranches cases).bind fun gs =>
      .pure fun ν hgs he => he ▸ .switch hgs .none
  | .switch scrutinee cases (some body) =>
    rw [Stmt.lower]
    exact scrutinee.settles_lower.bind fun e => (settles_lowerBranches cases).bind fun gs =>
      (settles_lowerBody body).bind fun ss => .pure fun ν hss hgs he => he ▸ .switch hgs (.some hss)
  | .breakLoop =>
    rw [Stmt.lower]
    exact .pure fun _ => .breakLoop
  | .continueLoop =>
    rw [Stmt.lower]
    exact .pure fun _ => .continueLoop
  | .returnValue none =>
    rw [Stmt.lower]
    exact .pure fun _ => .returnValue
  | .returnValue (some e) =>
    rw [Stmt.lower]
    exact e.settles_lower.bind fun e' => .pure fun ν he => he ▸ .returnValue
  | .print e =>
    rw [Stmt.lower]
    exact e.settles_lower.bind fun e' => .pure fun ν he => he ▸ .print
  | .block body =>
    rw [Stmt.lower]
    exact (settles_lowerBody body).bind fun ss => .pure fun ν hss => .block hss

theorem settles_lowerBody (body : List Stmt) :
    (lowerBody body).Settles fun ν ss => BodyLowers ν body ss := by
  match body with
  | [] =>
    rw [lowerBody]
    exact .pure fun _ => .nil
  | s :: body =>
    rw [lowerBody]
    exact s.settles_lower.bind fun ss => (settles_lowerBody body).bind fun ts =>
      .pure fun ν hts hss => .cons hss hts

theorem settles_lowerBranches (gs : List (Guarded Stmt)) :
    (lowerBranches gs).Settles fun ν gs' => BranchesLower ν gs gs' := by
  match gs with
  | [] =>
    rw [lowerBranches]
    exact .pure fun _ => .nil
  | ⟨guard, body⟩ :: gs =>
    rw [lowerBranches]
    exact guard.settles_lower.bind fun g => (settles_lowerBody body).bind fun ss =>
      (settles_lowerBranches gs).bind fun gs' => .pure fun ν hgs hss hg => hg ▸ .cons hss hgs

theorem settles_lowerMembers (body : List Stmt) :
    (lowerMembers body).Settles fun ν members => BodyLowers ν body members.1 ∧
      members.2.1 = fieldLabels ν body ∧ members.2.2 = methodLabels ν body := by
  match body with
  | [] =>
    rw [lowerMembers]
    exact .pure fun _ => ⟨.nil, rfl, rfl⟩
  | s :: body =>
    rw [lowerMembers]
    refine s.settles_memberNames.bind fun names => s.settles_lower.bind fun ss =>
      (settles_lowerMembers body).bind fun members => .pure fun ν hmembers hss hnames => ?_
    obtain ⟨hts, hfields, hmethods⟩ := hmembers
    refine ⟨.cons hss hts, ?_, ?_⟩
    · rw [(hnames body).1, hfields]
    · rw [(hnames body).2, hmethods]

end

end TypedScript
