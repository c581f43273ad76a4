import TypedScript.Proofs.AcceptedStatements
import TypedScript.Proofs.Lexical
import TypedScript.Proofs.Numbering

/-!
# The checker resolves names lexically

A successful check leaves the tree that lexical scoping gives, types aside.  The walk over the tree
and the check go side by side: `Agrees Γ s` says that the visible names of the walk stand for what the
scope of the check finds, and the next identity of the check is the one that the numbering gives.
-/

namespace TypedScript

open List

/-! ## looking up after a declaration -/

namespace Scope

theorem findVariable?_eq (s : Scope) (x : String) :
    s.findVariable? x = (s.frame.vars.find? x).or (s.outer.findSome? (·.vars.find? x)) := by
  unfold findVariable? frames
  rw [List.findSome?_cons]
  cases s.frame.vars.find? x <;> rfl

theorem findClass?_eq (s : Scope) (x : String) :
    s.findClass? x = (s.frame.classes.find? x).or (s.outer.findSome? (·.classes.find? x)) := by
  unfold findClass? frames
  rw [List.findSome?_cons]
  cases s.frame.classes.find? x <;> rfl

theorem findVariable?_defineVariable (s : Scope) (x y : String) (b : Binding) :
    (s.defineVariable x b).findVariable? y = if y = x then some b else s.findVariable? y := by
  rw [findVariable?_eq, findVariable?_eq]
  show ((s.frame.vars.put x b).find? y).or _ = _
  rw [Variables.find?_put]
  split <;> rfl

theorem findClass?_defineClass (s : Scope) (x y : String) (b : ClassBinding) :
    (s.defineClass x b).findClass? y = if y = x then some b else s.findClass? y := by
  rw [findClass?_eq, findClass?_eq]
  show ((s.frame.classes.put x b).find? y).or _ = _
  rw [Table.find?_put]
  split <;> rfl

end Scope

/-! ## agreement -/

structure Agrees (Γ : Levels) (s : Scope) : Prop where
  vars : ∀ x, Γ.visible? x = (s.findVariable? x).map Binding.resolution
  classes : ∀ x, Γ.visibleClass? x = (s.findClass? x).map ClassBinding.resolution

namespace Agrees

variable {Γ : Levels} {s : Scope}
variable {c : Context}

theorem enter (h : Agrees Γ s) (f : Option Signature) (b : Bool) : Agrees Γ.inner (s.enter f b) where
  vars x := h.vars x
  classes x := h.classes x

theorem declared (h : Agrees Γ c.scope) (x : String) (t : Ty) (kind : BindingKind) :
    Agrees (Γ.addVariable x (some c.nextId)) (c.declared x t kind).scope where
  vars y := by
    show _ = ((c.scope.defineVariable x _).findVariable? y).map _
    rw [Levels.visible?_addVariable, Scope.findVariable?_defineVariable, h.vars]
    split <;> rfl
  classes y := by
    rw [Levels.visibleClass?_addVariable]
    exact h.classes y

theorem declaredClass (h : Agrees Γ c.scope) (head : ClassHead)
    (params : List (Param Ty)) :
    Agrees (Γ.addClass head.name (some c.nextId))
      (c.scope.defineClass head.name (head.binding c.nextId params)) where
  vars y := by
    rw [Levels.visible?_addClass]
    exact h.vars y
  classes y := by
    rw [Levels.visibleClass?_addClass, Scope.findClass?_defineClass, h.classes]
    split <;> rfl

end Agrees

variable {β : Type}

theorem lookup_map_resolution {α : Type} (l : List α) (name : α → String) (binding : α → β)
    (resolution : β → Resolution) (x : String) :
    (l.map fun a => (name a, resolution (binding a))).lookup x
      = ((l.map fun a => (name a, binding a)).lookup x).map resolution := by
  induction l with
  | nil => rfl
  | cons a l ih =>
    rw [map_cons, map_cons, lookup_cons, lookup_cons, ih]
    cases x == name a <;> rfl

def Scope.levels (s : Scope) : Levels :=
  s.frames.map fun f =>
    ⟨f.vars.entries.map fun v => (v.1, v.2.resolution), f.classes.map fun c => (c.1, c.2.resolution)⟩

theorem lookup_map_entries (t : Table β) (resolution : β → Resolution) (x : String) :
    (t.map fun v => (v.1, resolution v.2)).lookup x = (t.find? x).map resolution := by
  have hlookup := lookup_map_resolution t Prod.fst Prod.snd resolution x
  rw [map_id'] at hlookup
  exact hlookup

theorem agrees_levels (s : Scope) : Agrees s.levels s where
  vars x := by
    unfold Levels.visible? Scope.levels Scope.findVariable?
    rw [List.findSome?_map, map_findSome?]
    exact congrArg (s.frames.findSome? ·) (funext fun f =>
      (lookup_map_entries f.vars.entries _ x).trans (congrArg _ (f.vars.find?_eq x).symm))
  classes x := by
    unfold Levels.visibleClass? Scope.levels Scope.findClass?
    rw [List.findSome?_map, map_findSome?]
    exact congrArg (s.frames.findSome? ·) (funext fun f => lookup_map_entries f.classes _ x)

theorem Scope.entries_root : Scope.root.frame.vars.entries = builtins.map fun b => (b.name, b.binding) := rfl

theorem Scope.root_eq : Scope.root = ⟨⟨Scope.root.frame.vars,
      primitives.map fun p => (p.1, ⟨.builtin p.1, p.2, none⟩), none, false⟩, []⟩ := rfl

theorem agrees_root : Agrees Levels.root Scope.root where
  vars x := by
    rw [Levels.visible?_root, Scope.findVariable?_eq, Variables.find?_eq, Scope.entries_root]
    show _ = (Option.or (List.lookup x _) none).map _
    rw [Option.or_none, ← lookup_map_resolution]
    rfl
  classes x := by
    rw [Levels.visibleClass?_root, Scope.root_eq, Scope.findClass?_eq]
    show _ = (Option.or (List.lookup x _) none).map _
    rw [Option.or_none, ← lookup_map_resolution]

/-! ## expressions -/

mutual

theorem Expr.Accepted.lexical (hΓ : Agrees Γ s) (h : Expr.Accepted s e e' t) :
    e'.withoutTypes = e.resolveIn Γ := by
  cases h with
  | literal => rfl
  | @name x slot b hb =>
    have hx : Γ.visible? x.name = some b.resolution := by rw [hΓ.vars, hb]; rfl
    rw [Expr.withoutTypes, Expr.resolveIn, Symbol.resolveIn, hx]
    rfl
  | binary hl hr _ =>
    rw [Expr.withoutTypes, Expr.resolveIn, hl.lexical hΓ, hr.lexical hΓ]
  | unary ho _ => rw [Expr.withoutTypes, Expr.resolveIn, ho.lexical hΓ]
  | @call callee callee' arguments arguments' awaited constructs slot u f ts hf _ _ hall =>
    have hnot : Γ.constructs callee = false := by
      cases hf with
      | @name x slot' b hb =>
        have hx : Γ.visible? x.name = some b.resolution := by rw [hΓ.vars, hb]; rfl
        rw [Levels.constructs, hx]
        rfl
      | _ => rfl
    rw [Expr.withoutTypes, Expr.resolveIn, hnot, hf.lexical hΓ, hall.lexical hΓ]
    rfl
  | @construct x arguments arguments' awaited constructs slot slot' b f ts hnone hclass _ _ hall =>
    have hx : Γ.visible? x.name = none := by rw [hΓ.vars, hnone]; rfl
    have hc : Γ.visibleClass? x.name = some b.resolution := by rw [hΓ.classes, hclass]; rfl
    rw [Expr.withoutTypes, Expr.resolveIn, Levels.constructs, hx, hall.lexical hΓ, Expr.asClassIn, hc]
    rfl
  | subscript hb hi _ => rw [Expr.withoutTypes, Expr.resolveIn, hb.lexical hΓ, hi.lexical hΓ]
  | @member object object' x slot u b ho hb =>
    have hx : Γ.visible? x.name = some b.resolution := by rw [hΓ.vars, hb]; rfl
    rw [Expr.withoutTypes, Expr.resolveIn, ho.lexical hΓ, Symbol.resolveIn, hx]
    rfl
  | collection hall => rw [Expr.withoutTypes, Expr.resolveIn, hall.lexical hΓ]
  | dict hentries => rw [Expr.withoutTypes, Expr.resolveIn, hentries.lexical hΓ]

theorem Expr.AcceptedAll.lexical (hΓ : Agrees Γ s) (h : Expr.AcceptedAll s test seen es es' ts) :
    Expr.allWithoutTypes es' = Expr.resolveAllIn Γ es := by
  cases h with
  | nil => rfl
  | cons he _ hes => rw [Expr.allWithoutTypes, Expr.resolveAllIn, he.lexical hΓ, hes.lexical hΓ]

theorem Expr.AcceptedEntries.lexical (hΓ : Agrees Γ s) (h : Expr.AcceptedEntries s first es es' last) :
    Expr.entriesWithoutTypes es' = Expr.resolveEntriesIn Γ es := by
  cases h with
  | nil => rfl
  | cons hk hv _ hes =>
    rw [Expr.entriesWithoutTypes, Expr.resolveEntriesIn, hk.lexical hΓ, hv.lexical hΓ, hes.lexical hΓ]

end

/-! ## declarations -/

variable {Γ : Levels} {c c' : Context} {params : List (Param Ty)} {ps ps' : List Parameter} {s : Scope}

def namesFrom (n : Nat) : List String → List (String × Option DeclId)
  | [] => []
  | x :: xs => (x, some n) :: namesFrom (n + 1) xs

theorem names_declaratorsNumbered (n : Nat) (ds : List Declarator) :
    (declaratorsNumbered n ds).map (fun d => (d.name, d.id)) = namesFrom n (ds.map Declarator.name) := by
  induction ds generalizing n with
  | nil => rfl
  | cons d ds ih => rw [declaratorsNumbered, map_cons, map_cons, namesFrom, ih]

theorem names_parametersNumbered (n : Nat) (ps : List Parameter) :
    (parametersNumbered n ps).map (fun p => (p.name, p.id)) = namesFrom n (ps.map Parameter.name) := by
  induction ps generalizing n with
  | nil => rfl
  | cons p ps ih => rw [parametersNumbered, map_cons, map_cons, namesFrom, ih]

theorem map_declaratorsNumbered (n : Nat) (ds : List Declarator) :
    (declaratorsNumbered n ds).map (fun d => { d with type := none }) = declaratorsNumbered n ds := by
  induction ds generalizing n with
  | nil => rfl
  | cons d ds ih => rw [declaratorsNumbered, map_cons, ih]

theorem map_parametersNumbered (Γ : Levels) (n : Nat) (ps : List Parameter) :
    (parametersNumbered n ps).map (Parameter.resolveIn Γ)
      = parametersNumbered n (ps.map (Parameter.resolveIn Γ)) := by
  induction ps generalizing n with
  | nil => rfl
  | cons p ps ih =>
    rw [parametersNumbered, map_cons, ih, map_cons, parametersNumbered]
    rfl

theorem DeclaratorsBound.lexical (h : DeclaratorsBound constant ds ts c ds' c') (hΓ : Agrees Γ c.scope) :
    ds'.map Declarator.withoutTypes = declaratorsNumbered c.nextId ds ∧
      Agrees (Γ.declare (namesFrom c.nextId (ds.map Declarator.name))) c'.scope ∧
      c'.nextId = c.nextId + ds.length := by
  induction h generalizing Γ with
  | nil => exact ⟨rfl, hΓ, rfl⟩
  | @cons d ds ds' ts c c' t _ _ _ ih =>
    obtain ⟨htree, hscope, hnext⟩ := ih (hΓ.declared d.name t (.variable constant))
    refine ⟨?_, hscope, ?_⟩
    · rw [map_cons, htree]
      rfl
    · rw [hnext, length_cons]
      exact Nat.add_right_comm c.nextId 1 ds.length

theorem ParametersResolved.lexical (h : ParametersResolved s ps ps' params) (Γ : Levels) :
    ps'.map (Parameter.resolveIn Γ) = ps.map (Parameter.resolveIn Γ) ∧
      ps'.map Parameter.name = ps.map Parameter.name := by
  induction h with
  | nil => exact ⟨rfl, rfl⟩
  | cons _ _ ih =>
    rw [map_cons, map_cons, map_cons, map_cons, ih.1, ih.2]
    exact ⟨rfl, rfl⟩

theorem DefaultsAccepted.lexical (h : DefaultsAccepted s ps ps') (hΓ : Agrees Γ s) :
    ps'.map Parameter.withoutTypes = ps.map (Parameter.resolveIn Γ) ∧
      ps'.map Parameter.name = ps.map Parameter.name := by
  induction h with
  | nil => exact ⟨rfl, rfl⟩
  | required hdefault _ ih =>
    rw [map_cons, map_cons, map_cons, map_cons, ih.1, ih.2,
      Parameter.withoutTypes, Parameter.resolveIn, hdefault]
    exact ⟨rfl, rfl⟩
  | optional hdefault _ he _ _ ih =>
    rw [map_cons, map_cons, map_cons, map_cons, ih.1, ih.2,
      Parameter.withoutTypes, Parameter.resolveIn, hdefault, Option.map_some, Option.map_some,
      he.lexical hΓ]
    exact ⟨rfl, rfl⟩

theorem ParametersBound.lexical (h : ParametersBound ps c ps' c') (hΓ : Agrees Γ c.scope) :
    ps'.map Parameter.withoutTypes = parametersNumbered c.nextId (ps.map Parameter.withoutTypes) ∧
      Agrees (Γ.declare (namesFrom c.nextId (ps.map Parameter.name))) c'.scope ∧
      c'.nextId = c.nextId + ps.length := by
  induction h generalizing Γ with
  | nil => exact ⟨rfl, hΓ, rfl⟩
  | @cons p ps ps' c c' t _ _ _ ih =>
    obtain ⟨htree, hscope, hnext⟩ := ih (hΓ.declared p.name t .parameter)
    refine ⟨?_, hscope, ?_⟩
    · rw [map_cons, htree, map_cons, parametersNumbered]
      rfl
    · rw [hnext, length_cons]
      exact Nat.add_right_comm c.nextId 1 ps.length

/-- the parameters of a function or a class: their defaults see the scope `s` around -/
theorem parameters_lexical (hΓ : Agrees Γ s) (hΓ' : Agrees Γ' c.scope)
    (hresolved : ParametersResolved s₀ ps ps₁ params) (hdefaults : DefaultsAccepted s ps₁ ps₂)
    (hbound : ParametersBound ps₂ c ps₃ c') :
    ps₃.map Parameter.withoutTypes = (parametersNumbered c.nextId ps).map (Parameter.resolveIn Γ) ∧
      Agrees (Γ'.declare ((parametersNumbered c.nextId ps).map fun p => (p.name, p.id))) c'.scope ∧
      c'.nextId = c.nextId + ps.length := by
  obtain ⟨htypes, hnames₁⟩ := hresolved.lexical Γ
  obtain ⟨htrees, hnames₂⟩ := hdefaults.lexical hΓ
  obtain ⟨hids, hscope, hnext⟩ := hbound.lexical hΓ'
  have hlength : ps₂.length = ps.length := by
    rw [← length_map Parameter.name, hnames₂, hnames₁, length_map]
  refine ⟨?_, ?_, ?_⟩
  · rw [hids, htrees, htypes, map_parametersNumbered]
  · rw [names_parametersNumbered, ← hnames₁, ← hnames₂]
    exact hscope
  · rw [hnext, hlength]

/-! ## functions of a body -/

variable {s : Stmt} {body hoisted : List Stmt}

def functionNames : List Stmt → List String
  | [] => []
  | .function h _ :: ss => h.name :: functionNames ss
  | _ :: ss => functionNames ss

theorem functionNames_cons (h : ∀ head body, s ≠ .function head body) (ss : List Stmt) :
    functionNames (s :: ss) = functionNames ss := by
  cases s with
  | function head body => exact absurd rfl (h head body)
  | _ => rfl

def Stmt.HasId (f : Nat) : Stmt → Prop
  | .function h _ => h.id = some f
  | _ => True

/-- the functions of a list have the identities from `f` on -/
def HaveIds : Nat → List Stmt → Prop
  | _, [] => True
  | f, s :: ss => s.HasId f ∧ HaveIds (f + s.functions) ss

theorem Stmt.functions_eq_zero (h : ∀ head body, s ≠ .function head body) : s.functions = 0 := by
  cases s with
  | function head body => exact absurd rfl (h head body)
  | _ => rfl

theorem Stmt.hasId_of_ne (h : ∀ head body, s ≠ .function head body) (f : Nat) : s.HasId f := by
  cases s with
  | function head body => exact absurd rfl (h head body)
  | _ => trivial

theorem functionsOf_eachNumbered (f n : Nat) (ss : List Stmt) :
    functionsOf (eachNumbered f n ss) = namesFrom f (functionNames ss) := by
  induction ss generalizing f n with
  | nil => rfl
  | cons s ss ih =>
    rw [eachNumbered]
    cases s with
    | function h body =>
      rw [Stmt.numbered, functionsOf, functionNames, namesFrom, ih]
      rfl
    | _ => exact ih f _

/-- hoisting gives the functions their identities and changes nothing that the numbering keeps -/
structure SameNumbering (ss ss' : List Stmt) : Prop where
  functions : functionCount ss' = functionCount ss
  taken : eachTaken ss' = eachTaken ss
  numbered : ∀ f n, eachNumbered f n ss' = eachNumbered f n ss

theorem ParametersResolved.numbered {s : Scope} (h : ParametersResolved s ps ps' params) :
    ps'.length = ps.length ∧ ∀ n, parametersNumbered n ps' = parametersNumbered n ps := by
  induction h with
  | nil => exact ⟨rfl, fun _ => rfl⟩
  | cons _ _ ih =>
    refine ⟨congrArg (· + 1) ih.1, fun n => ?_⟩
    rw [parametersNumbered, parametersNumbered, ih.2]

theorem Hoisted.sameNumbering (h : Hoisted body c hoisted c') : SameNumbering body hoisted := by
  induction h with
  | nil => exact ⟨rfl, rfl, fun _ _ => rfl⟩
  | @function head body rest rest' c c' ps params r hps _ _ _ ih =>
    obtain ⟨hlength, hnumbered⟩ := hps.numbered
    refine ⟨?_, ?_, fun f n => ?_⟩
    · rw [functionCount, functionCount, ih.functions]
      rfl
    · rw [eachTaken, eachTaken, ih.taken, Stmt.taken, Stmt.taken, hlength]
    · rw [eachNumbered, eachNumbered, ih.numbered, Stmt.numbered, Stmt.numbered, Stmt.taken, Stmt.taken,
        hlength, hnumbered]
      rfl
  | other _ _ ih =>
    refine ⟨?_, ?_, fun f n => ?_⟩
    · rw [functionCount, functionCount, ih.functions]
    · rw [eachTaken, eachTaken, ih.taken]
    · rw [eachNumbered, eachNumbered, ih.numbered]

theorem Hoisted.lexical (h : Hoisted body c hoisted c') (hΓ : Agrees Γ c.scope) :
    HaveIds c.nextId hoisted ∧
      Agrees (Γ.declare (namesFrom c.nextId (functionNames body))) c'.scope ∧
      c'.nextId = c.nextId + functionCount body := by
  induction h generalizing Γ with
  | nil => exact ⟨trivial, hΓ, rfl⟩
  | @function head body rest rest' c c' ps params r _ _ _ _ ih =>
    obtain ⟨hids, hscope, hnext⟩ := ih (hΓ.declared head.name (.function params r head.async) .function)
    refine ⟨⟨rfl, hids⟩, hscope, ?_⟩
    rw [hnext, functionCount]
    exact Nat.add_assoc c.nextId 1 (functionCount rest)
  | @other s rest rest' c c' hs _ ih =>
    obtain ⟨hids, hscope, hnext⟩ := ih hΓ
    refine ⟨⟨s.hasId_of_ne hs c.nextId, ?_⟩, ?_, ?_⟩
    · rw [s.functions_eq_zero hs]
      exact hids
    · rw [functionNames_cons hs]
      exact hscope
    · rw [hnext, functionCount, s.functions_eq_zero hs, Nat.zero_add]

/-! ## pieces of statements -/

variable {s : Scope}

theorem TargetsAccepted.lexical (h : TargetsAccepted s es es' ts) (hΓ : Agrees Γ s) :
    Expr.allWithoutTypes es' = Expr.resolveAllIn Γ es := by
  induction h with
  | nil => rfl
  | cons _ he _ _ ih => rw [Expr.allWithoutTypes, Expr.resolveAllIn, he.lexical hΓ, ih]

theorem ReturnAccepted.lexical (h : ReturnAccepted s value value') (hΓ : Agrees Γ s) :
    value'.map Expr.withoutTypes = value.map (Expr.resolveIn Γ) := by
  cases h with
  | none => rfl
  | some _ _ he _ => rw [Option.map_some, Option.map_some, he.lexical hΓ]

theorem UpdateAccepted.lexical (h : UpdateAccepted s t u u') (hΓ : Agrees Γ s) :
    Update.withoutTypes u' = Update.resolveIn Γ u := by
  cases h with
  | increment | decrement => rfl
  | increase he | decrease he => rw [Update.withoutTypes, Update.resolveIn, he.lexical hΓ]

theorem ForHead.Accepted.lexical (hh : ForHead.Accepted h c h' c') (hΓ : Agrees Γ c.scope) :
    h'.withoutTypes = (h.numbered c.nextId).resolveIn Γ ∧
      Agrees (Γ.addVariable h.index.name (some c.nextId)) c'.scope ∧ c'.nextId = c.nextId + 1 := by
  cases hh with
  | @intro init test t u c₁ b update hinit _ _ hc₁ htest hb _ hupdate =>
    subst hc₁
    have hΓ' := hΓ.declared h.index.name u (.variable false)
    have htarget : (Γ.addVariable h.index.name (some c.nextId)).visible? h.target.name
        = some b.resolution := by
      rw [hΓ'.vars, hb]
      rfl
    refine ⟨?_, hΓ', rfl⟩
    simp only [ForHead.withoutTypes, ForHead.resolveIn, ForHead.numbered, Symbol.resolveIn, htarget,
      hinit.lexical hΓ, htest.lexical hΓ', hupdate.lexical hΓ']
    rfl

theorem ClassDeclared.lexical (hh : ClassDeclared h c h' c') (hΓ : Agrees Γ c.scope) :
    { h' with parameters := h'.parameters.map Parameter.withoutTypes }
        = { h with
            id := some c.nextId
            parameters := (parametersNumbered (c.nextId + 1) h.parameters).map
              (Parameter.resolveIn (Γ.addClass h.name (some c.nextId))) } ∧
      Agrees (Γ.addClass h.name (some c.nextId)) c'.scope ∧
      c'.nextId = c.nextId + 1 + h.parameters.length := by
  cases hh with
  | @intro ps ps₁ ps₂ params s c₂ hps _ hs hps₁ hps₂ =>
    subst hs
    have hΓ' := hΓ.declaredClass h params
    obtain ⟨htree, _, hnext⟩ := parameters_lexical hΓ'
      (hΓ'.enter (some ⟨params, .classOf c.nextId h.name, false⟩) false) hps hps₁ hps₂
    refine ⟨?_, hΓ', hnext⟩
    rw [htree]

/-! ## statements -/

/-- what the walk says about the numbered statement `s` is what the check made of it -/
structure Stmt.Lexical (Γ : Levels) (f : Nat) (c : Context) (s : Stmt) (c' : Context) (s' : Stmt) :
    Prop where
  tree : s'.withoutTypes = (s.numbered f c.nextId).resolveIn Γ
  scope : Agrees ((s.numbered f c.nextId).leaves Γ) c'.scope
  next : c'.nextId = c.nextId + s.taken

structure EachLexical (Γ : Levels) (f : Nat) (c : Context) (ss : List Stmt) (c' : Context)
    (ss' : List Stmt) : Prop where
  tree : eachWithoutTypes ss' = eachResolveIn Γ (eachNumbered f c.nextId ss)
  scope : Agrees (eachLeaves (eachNumbered f c.nextId ss) Γ) c'.scope
  next : c'.nextId = c.nextId + eachTaken ss

/-- a body in the innermost scope of `Γ` -/
structure BodyLexical (Γ : Levels) (c : Context) (body : List Stmt) (c' : Context)
    (body' : List Stmt) : Prop where
  tree : eachWithoutTypes body' = bodyResolveIn Γ (bodyNumbered c.nextId body)
  scope : Agrees (eachLeaves (bodyNumbered c.nextId body)
    (Γ.declare (functionsOf (bodyNumbered c.nextId body)))) c'.scope
  next : c'.nextId = c.nextId + bodyTaken body

mutual

theorem Stmt.Accepted.lexical {c c' : Context} {s s' : Stmt} (h : Stmt.Accepted c s c' s') {Γ : Levels}
    (hΓ : Agrees Γ c.scope) (hf : s.HasId f) : Stmt.Lexical Γ f c s c' s' := by
  match h with
  | .expression he =>
    refine ⟨?_, hΓ, rfl⟩
    rw [Stmt.withoutTypes, he.lexical hΓ]
    rfl
  | .print he =>
    refine ⟨?_, hΓ, rfl⟩
    rw [Stmt.withoutTypes, he.lexical hΓ]
    rfl
  | @Stmt.Accepted.declare _ _ constant ds ds' values values' ts _ hvalues hds =>
    obtain ⟨htree, hscope, hnext⟩ := hds.lexical hΓ
    refine ⟨?_, ?_, hnext⟩
    · rw [Stmt.withoutTypes, Stmt.numbered, Stmt.resolveIn, htree, hvalues.lexical hΓ,
        map_declaratorsNumbered]
    · rw [Stmt.numbered, Stmt.leaves, names_declaratorsNumbered]
      exact hscope
  | @Stmt.Accepted.assign _ targets targets' values values' ts us _ htargets hvalues =>
    refine ⟨?_, hΓ, rfl⟩
    show Stmt.assign _ _ = Stmt.assign _ _
    rw [htargets.lexical hΓ, hvalues.lexical hΓ]
  | @Stmt.Accepted.function _ c₁ c₂ h body body' ps ps₁ ps₂ params r hps _ hps₁ hps₂ hbody =>
    obtain ⟨htree, hscope, hnext⟩ :=
      parameters_lexical hΓ (hΓ.enter (some ⟨params, r, h.async⟩) false) hps hps₁ hps₂
    have ih := hbody.lexical hscope
    have htree' : ps₂.map Parameter.withoutTypes
        = (parametersNumbered c.nextId h.parameters).map (Parameter.resolveIn Γ) := htree
    have hnext' : c₁.nextId = c.nextId + h.parameters.length := hnext
    refine ⟨?_, hΓ, ?_⟩
    · rw [Stmt.withoutTypes, ih.tree, hnext', Stmt.numbered, Stmt.resolveIn, htree', bodyResolveIn]
      rw [show h.id = some f from hf]
      rfl
    · show c₂.nextId = _
      rw [ih.next, hnext', Stmt.taken, Nat.add_assoc]
      rfl
  | @Stmt.Accepted.classDef _ c₁ c₂ h h' body body' hhead hbody =>
    obtain ⟨htree, hscope, hnext⟩ := hhead.lexical hΓ
    have ih := hbody.lexical hscope
    refine ⟨?_, ?_, ?_⟩
    · rw [Stmt.withoutTypes, ih.tree, hnext, Stmt.numbered, Stmt.resolveIn, htree]
      rfl
    · rw [Stmt.numbered, Stmt.leaves, ← hnext]
      exact ih.scope
    · rw [ih.next, hnext, Stmt.taken, Nat.add_assoc c.nextId, Nat.add_assoc c.nextId]
      rfl
  | @Stmt.Accepted.conditional _ c₁ c₂ branches branches' otherwise otherwise' hbranches hotherwise =>
    obtain ⟨htree, hscope, hnext⟩ := hbranches.lexical hΓ
    obtain ⟨htree', hscope', hnext'⟩ := hotherwise.lexical (hscope ▸ hΓ)
    refine ⟨?_, ?_, ?_⟩
    · rw [Stmt.withoutTypes, htree, htree', hnext]
      rfl
    · rw [hscope', hscope]
      exact hΓ
    · rw [hnext', hnext, Stmt.taken, Nat.add_assoc]
  | @Stmt.Accepted.whileLoop _ c₁ condition condition' body body' hcondition hbody =>
    have ih := hbody.lexical (hΓ.enter c.scope.frame.function true)
    refine ⟨?_, hΓ, ih.next⟩
    rw [Stmt.withoutTypes, hcondition.lexical hΓ, ih.tree]
    rfl
  | @Stmt.Accepted.forLoop _ c₁ c₂ h h' body body' hhead hbody =>
    obtain ⟨htree, hscope, hnext⟩ := hhead.lexical (hΓ.enter c.scope.frame.function true)
    have hnext' : c₁.nextId = c.nextId + 1 := hnext
    have ih := hbody.lexical hscope
    refine ⟨?_, hΓ, ?_⟩
    · rw [Stmt.withoutTypes, htree, ih.tree, hnext']
      rfl
    · show c₂.nextId = _
      rw [ih.next, hnext', Stmt.taken, Nat.add_assoc]
      rfl
  | @Stmt.Accepted.rangeLoop _ c₁ start start' stop stop' t u body body' hstart _ hstop _ hbody =>
    have ih := hbody.lexical (hΓ.enter c.scope.frame.function true)
    refine ⟨?_, hΓ, ih.next⟩
    rw [Stmt.withoutTypes, hstart.lexical hΓ, hstop.lexical hΓ, ih.tree]
    rfl
  | @Stmt.Accepted.switch _ c₁ c₂ scrutinee scrutinee' t cases cases' otherwise otherwise' hscrutinee
      hcases hotherwise =>
    obtain ⟨htree, hscope, hnext⟩ := hcases.lexical hΓ
    obtain ⟨htree', hscope', hnext'⟩ := hotherwise.lexical (hscope ▸ hΓ)
    refine ⟨?_, ?_, ?_⟩
    · rw [Stmt.withoutTypes, hscrutinee.lexical hΓ, htree, htree', hnext]
      rfl
    · rw [hscope', hscope]
      exact hΓ
    · rw [hnext', hnext, Stmt.taken, Nat.add_assoc]
  | .breakLoop _ => exact ⟨rfl, hΓ, rfl⟩
  | .continueLoop _ => exact ⟨rfl, hΓ, rfl⟩
  | .returnValue hvalue =>
    refine ⟨?_, hΓ, rfl⟩
    rw [Stmt.withoutTypes, hvalue.lexical hΓ]
    rfl
  | @Stmt.Accepted.block _ c₁ body body' hbody =>
    have ih := hbody.lexical (hΓ.enter c.scope.frame.function c.scope.frame.insideLoop)
    refine ⟨?_, hΓ, ih.next⟩
    rw [Stmt.withoutTypes, ih.tree]
    rfl

theorem EachAccepted.lexical {c c' : Context} (h : EachAccepted c ss c' ss') {Γ : Levels}
    (hΓ : Agrees Γ c.scope) (hf : HaveIds f ss) : EachLexical Γ f c ss c' ss' := by
  match h with
  | .nil => exact ⟨rfl, hΓ, rfl⟩
  | @EachAccepted.cons _ c₁ _ s s' ss ss' hs hss =>
    have ihs := hs.lexical hΓ hf.1
    have ihss := hss.lexical ihs.scope hf.2
    refine ⟨?_, ?_, ?_⟩
    · rw [eachWithoutTypes, eachNumbered, eachResolveIn, ihs.tree, ihss.tree, ihs.next]
    · rw [eachNumbered, eachLeaves, ← ihs.next]
      exact ihss.scope
    · rw [ihss.next, ihs.next, eachTaken, Nat.add_assoc]

theorem BodyAccepted.lexical {c c' : Context} {body body' : List Stmt} (h : BodyAccepted c body c' body')
    {Γ : Levels} (hΓ : Agrees Γ c.scope) : BodyLexical Γ c body c' body' := by
  match h with
  | @BodyAccepted.intro _ c₁ _ _ hoisted _ hhoisted heach =>
    obtain ⟨hids, hscope, hnext⟩ := hhoisted.lexical hΓ
    have hsame := hhoisted.sameNumbering
    have ih := heach.lexical hscope hids
    refine ⟨?_, ?_, ?_⟩
    · rw [ih.tree, bodyResolveIn, bodyNumbered, functionsOf_eachNumbered, hsame.numbered, hnext]
    · rw [bodyNumbered, functionsOf_eachNumbered, ← hsame.numbered, ← hnext]
      exact ih.scope
    · rw [ih.next, hnext, hsame.taken, bodyTaken, Nat.add_assoc]

theorem BranchesAccepted.lexical {c c' : Context} (h : BranchesAccepted c gs c' gs') {Γ : Levels}
    (hΓ : Agrees Γ c.scope) :
    branchesWithoutTypes gs' = branchesResolveIn Γ (branchesNumbered c.nextId gs) ∧
      c'.scope = c.scope ∧ c'.nextId = c.nextId + branchesTaken gs := by
  match h with
  | .nil => exact ⟨rfl, rfl, rfl⟩
  | @BranchesAccepted.cons _ c₁ _ guard guard' body body' gs gs' hguard hbody hgs =>
    have ihbody := hbody.lexical (hΓ.enter c.scope.frame.function c.scope.frame.insideLoop)
    obtain ⟨htree, hscope, hnext⟩ := hgs.lexical hΓ
    refine ⟨?_, hscope, ?_⟩
    · rw [branchesWithoutTypes, branchesNumbered, branchesResolveIn, hguard.lexical hΓ, ihbody.tree,
        htree, ihbody.next]
      rfl
    · rw [hnext, ihbody.next, branchesTaken, ← Nat.add_assoc]
      rfl

theorem OtherwiseAccepted.lexical {c c' : Context} (h : OtherwiseAccepted c o c' o') {Γ : Levels}
    (hΓ : Agrees Γ c.scope) :
    otherwiseWithoutTypes o' = otherwiseResolveIn Γ (otherwiseNumbered c.nextId o) ∧
      c'.scope = c.scope ∧ c'.nextId = c.nextId + otherwiseTaken o := by
  match h with
  | .none => exact ⟨rfl, rfl, rfl⟩
  | @OtherwiseAccepted.some _ c₁ body body' hbody =>
    have ihbody := hbody.lexical (hΓ.enter c.scope.frame.function c.scope.frame.insideLoop)
    refine ⟨?_, rfl, ihbody.next⟩
    rw [otherwiseWithoutTypes, ihbody.tree]
    rfl

end

end TypedScript
