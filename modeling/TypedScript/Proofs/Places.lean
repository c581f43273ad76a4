import TypedScript.Proofs.WellTypedStatements

/-!
# The places of a tree

Every statement of a finished tree stands in a list, after some statements of the list and with some
type names in sight.  A place says so, and whatever a scope of the check holds was declared at a place
of the tree or comes from the root.
-/

namespace TypedScript

open List

/-! ## type names in sight -/

/-- what type names stand for, the innermost ones first -/
abbrev Sight := List (String × Ty)

def ClassHead.sight (h : ClassHead) : Sight := h.id.toList.map fun id => (h.name, .classOf id h.name)

mutual

/-- the classes that a statement leaves in sight.  The body of a class has no scope of its own, so its
classes are among them -/
def Stmt.classes : Stmt → Sight
  | .classDef h body => bodyClasses body ++ h.sight
  | _ => []

def bodyClasses : List Stmt → Sight
  | [] => []
  | s :: ss => bodyClasses ss ++ s.classes

end

theorem bodyClasses_append (ss ss' : List Stmt) :
    bodyClasses (ss ++ ss') = bodyClasses ss' ++ bodyClasses ss := by
  induction ss with
  | nil => exact (append_nil _).symm
  | cons s ss ih => rw [cons_append, bodyClasses, bodyClasses, ih, append_assoc]

mutual

def TypeTerm.typeAt? (Γ : Sight) : TypeTerm → Option Ty
  | .named n =>
    match Generic.ofName? n with
    | some _ => none
    | none => Γ.lookup n
  | .generic n arguments =>
    match Generic.ofName? n with
    | none => none
    | some g =>
      if g.accepts arguments.length then (TypeTerm.typesAt? Γ arguments).map g.build else none
  | .nullable inner => (inner.typeAt? Γ).map .nullable

def TypeTerm.typesAt? (Γ : Sight) : List TypeTerm → Option (List Ty)
  | [] => some []
  | w :: ws => (w.typeAt? Γ).bind fun t => (TypeTerm.typesAt? Γ ws).map (t :: ·)

end

def parametersAt? (Γ : Sight) : List Parameter → Option (List (Param Ty))
  | [] => some []
  | p :: ps =>
    (p.written.typeAt? Γ).bind fun t => (parametersAt? Γ ps).map (⟨t, p.default.isSome⟩ :: ·)

def FunctionHead.returnsAt? (Γ : Sight) (h : FunctionHead) : Option Ty :=
  match h.returns with
  | none => some .none
  | some w => w.typeAt? Γ

def FunctionHead.signatureAt? (Γ : Sight) (h : FunctionHead) : Option Signature :=
  (parametersAt? Γ h.parameters).bind fun params => (h.returnsAt? Γ).map (⟨params, ·, h.async⟩)

/-! ## places -/

/-- a statement in its list; `start` is in sight where the list starts -/
structure Stmt.Place where
  start : Sight
  before : List Stmt
  statement : Stmt

/-- what is in sight where the statement stands -/
def Stmt.Place.here (P : Stmt.Place) : Sight := bodyClasses P.before ++ P.start

mutual

def Stmt.places (Γ : Sight) : Stmt → List Stmt.Place
  | .function _ body => bodyPlaces Γ [] body
  | .classDef h body => bodyPlaces (h.sight ++ Γ) [] body
  | .conditional branches otherwise => branchPlaces Γ branches ++ otherwisePlaces Γ otherwise
  | .whileLoop _ body => bodyPlaces Γ [] body
  | .forLoop _ body => bodyPlaces Γ [] body
  | .rangeLoop _ _ body => bodyPlaces Γ [] body
  | .switch _ cases otherwise => branchPlaces Γ cases ++ otherwisePlaces Γ otherwise
  | .block body => bodyPlaces Γ [] body
  | _ => []

def bodyPlaces (Γ : Sight) (before : List Stmt) : List Stmt → List Stmt.Place
  | [] => []
  | s :: ss => ⟨Γ, before, s⟩ ::
      (s.places (bodyClasses before ++ Γ) ++ bodyPlaces Γ (before ++ [s]) ss)

def branchPlaces (Γ : Sight) : List (Guarded Stmt) → List Stmt.Place
  | [] => []
  | ⟨_, body⟩ :: gs => bodyPlaces Γ [] body ++ branchPlaces Γ gs

def otherwisePlaces (Γ : Sight) : Option (List Stmt) → List Stmt.Place
  | none => []
  | some body => bodyPlaces Γ [] body

end

def Scope.sight (s : Scope) : Sight := s.frames.flatMap fun f => f.classes.map fun c => (c.1, c.2.type)

def placesOf (root : Scope) (q : Program) : List Stmt.Place := bodyPlaces root.sight [] q

theorem exists_place_of_mem {Γ : Sight} {before ss : List Stmt} {s : Stmt} (h : s ∈ ss) :
    ∃ P ∈ bodyPlaces Γ before ss, P.start = Γ ∧ P.statement = s := by
  induction ss generalizing before with
  | nil => exact nomatch h
  | cons s' ss ih =>
    rcases mem_cons.mp h with rfl | h
    · exact ⟨_, mem_cons_self, rfl, rfl⟩
    · obtain ⟨P, hP, hstart, hs⟩ := @ih (before ++ [s']) h
      exact ⟨P, mem_cons_of_mem _ (mem_append_right _ hP), hstart, hs⟩

mutual

theorem Stmt.sites_of_places {s : Stmt} (h : P ∈ s.places Γ) : ∀ d ∈ P.statement.sites, d ∈ s.sites := by
  intro d hd
  match s, h with
  | .function head body, h | .classDef head body, h =>
    exact mem_cons_of_mem _ (mem_append_right _ (bodySites_of_places h d hd))
  | .conditional branches otherwise, h | .switch scrutinee cases otherwise, h =>
    rcases mem_append.mp h with h | h
    · exact mem_append_left _ (branchSites_of_places h d hd)
    · exact mem_append_right _ (otherwiseSites_of_places h d hd)
  | .whileLoop condition body, h | .rangeLoop start stop body, h | .block body, h =>
    exact bodySites_of_places h d hd
  | .forLoop head body, h => exact mem_cons_of_mem _ (bodySites_of_places h d hd)

theorem bodySites_of_places (h : P ∈ bodyPlaces Γ before body) :
    ∀ d ∈ P.statement.sites, d ∈ bodySites body := by
  intro d hd
  match body, h with
  | s :: ss, h =>
    rcases mem_cons.mp h with rfl | h
    · exact mem_append_left _ hd
    · rcases mem_append.mp h with h | h
      · exact mem_append_left _ (Stmt.sites_of_places h d hd)
      · exact mem_append_right _ (bodySites_of_places h d hd)

theorem branchSites_of_places (h : P ∈ branchPlaces Γ gs) : ∀ d ∈ P.statement.sites, d ∈ branchSites gs := by
  intro d hd
  match gs, h with
  | ⟨_, body⟩ :: gs, h =>
    rcases mem_append.mp h with h | h
    · exact mem_append_left _ (bodySites_of_places h d hd)
    · exact mem_append_right _ (branchSites_of_places h d hd)

theorem otherwiseSites_of_places (h : P ∈ otherwisePlaces Γ o) :
    ∀ d ∈ P.statement.sites, d ∈ otherwiseSites o := by
  match o, h with
  | some _, h => exact bodySites_of_places h

end

/-! ## known scopes -/

/-- the variable `x` is declared at the place with this binding.  A function is declared where its list
starts, before any class of the list is in sight -/
inductive Stmt.Place.Declares (P : Stmt.Place) : String → Binding → Prop
  | variable {id : DeclId} : P.statement = .declare constant ds values → d ∈ ds → d.id = some id →
    d.type = some t → Declares P d.name ⟨.declared id, t, .variable constant⟩
  | index {id : DeclId} : P.statement = .forLoop h body → h.index.id = some id → h.index.type = some t →
    Declares P h.index.name ⟨.declared id, t, .variable false⟩
  | parameter {id : DeclId} : P.statement = .function h body → p ∈ h.parameters → p.id = some id →
    p.type = some t → Declares P p.name ⟨.declared id, t, .parameter⟩
  | function {h : FunctionHead} {body : List Stmt} {id : DeclId} {f : Signature} :
    P.statement = .function h body → h.id = some id → h.signatureAt? P.start = some f →
    Declares P h.name ⟨.declared id, f.type, .function⟩

inductive Stmt.Place.DeclaresClass (P : Stmt.Place) : String → ClassBinding → Prop
  | intro {id : DeclId} {params : List (Param Ty)} : P.statement = .classDef h body → h.id = some id →
    h.parameters.map Parameter.param? = params.map some → DeclaresClass P h.name (h.binding id params)

structure Scope.Known (root : Scope) (L : List Stmt.Place) (Γ : Sight) (s : Scope) : Prop where
  vars : ∀ x b, s.findVariable? x = some b → root.findVariable? x = some b ∨ ∃ P ∈ L, P.Declares x b
  classes : ∀ x b, s.findClass? x = some b → root.findClass? x = some b ∨ ∃ P ∈ L, P.DeclaresClass x b
  types : ∀ x, Γ.lookup x = (s.findClass? x).map ClassBinding.type

variable {root : Scope} {L : List Stmt.Place} {Γ : Sight}

theorem lookup_map_types (t : Table ClassBinding) (x : String) :
    (t.map fun c => (c.1, c.2.type)).lookup x = (t.find? x).map ClassBinding.type := by
  induction t with
  | nil => rfl
  | cons c t ih =>
    unfold Table.find?
    rw [map_cons, lookup_cons, lookup_cons]
    cases x == c.1 with
    | true => rfl
    | false => exact ih

theorem Scope.lookup_sight (s : Scope) (x : String) :
    s.sight.lookup x = (s.findClass? x).map ClassBinding.type := by
  unfold Scope.sight Scope.findClass?
  induction s.frames with
  | nil => rfl
  | cons f fs ih =>
    rw [flatMap_cons, lookup_append, ih, lookup_map_types, List.findSome?_cons]
    cases f.classes.find? x <;> rfl

namespace Scope.Known

variable {s : Scope}
variable {x : String}

theorem refl (root : Scope) (L : List Stmt.Place) : root.Known L root.sight root where
  vars _ _ h := .inl h
  classes _ _ h := .inl h
  types := root.lookup_sight

theorem enter (h : root.Known L Γ s) (f : Option Signature) (b : Bool) :
    root.Known L Γ (s.enter f b) where
  vars := h.vars
  classes := h.classes
  types := h.types

theorem defineVariable (h : root.Known L Γ s) (hb : ∃ P ∈ L, P.Declares x b) :
    root.Known L Γ (s.defineVariable x b) where
  vars y b' hb' := by
    rw [Scope.findVariable?_defineVariable] at hb'
    split at hb'
    · next hy =>
      cases hb'
      exact .inr (hy ▸ hb)
    · exact h.vars y b' hb'
  classes := h.classes
  types := h.types

theorem defineClass (h : root.Known L Γ s) (hb : ∃ P ∈ L, P.DeclaresClass x b) :
    root.Known L ((x, b.type) :: Γ) (s.defineClass x b) where
  vars := h.vars
  classes y b' hb' := by
    rw [Scope.findClass?_defineClass] at hb'
    split at hb'
    · next hy =>
      cases hb'
      exact .inr (hy ▸ hb)
    · exact h.classes y b' hb'
  types y := by
    rw [Scope.findClass?_defineClass, lookup_cons, h.types]
    by_cases hy : y = x
    · rw [if_pos hy, beq_iff_eq.mpr hy]
      rfl
    · rw [if_neg hy, beq_eq_false_iff_ne.mpr hy]

end Scope.Known

/-! ## signatures as written -/

variable {ps ps' : List Parameter} {params : List (Param Ty)} {s : Scope} {r : Ty} {h : FunctionHead}

theorem Signature.type_inj {f g : Signature} (h : f.type = g.type) : f = g := by
  obtain ⟨hparams, hreturns, hasync⟩ := Ty.function.inj h
  cases f
  cases g
  subst hparams hreturns hasync
  rfl

mutual

theorem TypeTerm.typeAt?_of_resolve {s : Scope}
    (hs : ∀ x, Γ.lookup x = (s.findClass? x).map ClassBinding.type) {w : TypeTerm} (h : w.resolve s = .ok t) :
    w.typeAt? Γ = some t := by
  match w, h with
  | .named n, h =>
    rw [TypeTerm.resolve] at h
    split at h
    · exact nomatch h
    · next hgeneric =>
      rw [TypeTerm.typeAt?, hgeneric]
      dsimp only
      split at h
      · next c hc =>
        cases h
        rw [hs n, hc]
        rfl
      · exact nomatch h
  | .generic n arguments, h =>
    rw [TypeTerm.resolve] at h
    split at h
    · split at h <;> exact nomatch h
    · next g hg =>
      split at h
      · next haccepts =>
        obtain ⟨ts, hts, h⟩ := exists_ok_of_bind h
        cases h
        rw [TypeTerm.typeAt?, hg]
        dsimp only
        rw [if_pos haccepts, TypeTerm.typesAt?_of_resolve hs hts]
        rfl
      · exact nomatch h
  | .nullable inner, h =>
    rw [TypeTerm.resolve] at h
    obtain ⟨u, hu, h⟩ := exists_ok_of_bind h
    cases h
    rw [TypeTerm.typeAt?, TypeTerm.typeAt?_of_resolve hs hu]
    rfl

theorem TypeTerm.typesAt?_of_resolve {s : Scope}
    (hs : ∀ x, Γ.lookup x = (s.findClass? x).map ClassBinding.type) (h : TypeTerm.resolveAll s ws = .ok ts) :
    TypeTerm.typesAt? Γ ws = some ts := by
  match ws, h with
  | [], h =>
    cases h
    rfl
  | w :: ws, h =>
    rw [TypeTerm.resolveAll] at h
    obtain ⟨u, hu, h⟩ := exists_ok_of_bind h
    obtain ⟨us, hus, h⟩ := exists_ok_of_bind h
    cases h
    rw [TypeTerm.typesAt?, TypeTerm.typeAt?_of_resolve hs hu, TypeTerm.typesAt?_of_resolve hs hus]
    rfl

end

/-- what the signature of a function or a class takes from a parameter, as it is written -/
def Parameter.outline (p : Parameter) : TypeTerm × Bool := (p.written, p.default.isSome)

theorem parametersAt?_of_outline (h : ps'.map Parameter.outline = ps.map Parameter.outline) :
    parametersAt? Γ ps' = parametersAt? Γ ps := by
  induction ps generalizing ps' with
  | nil => rw [map_eq_nil_iff.mp h]
  | cons p ps ih =>
    cases ps' with
    | nil => exact nomatch h
    | cons p' ps' =>
      obtain ⟨hp, hps⟩ := List.cons.inj h
      obtain ⟨hwritten, hdefault⟩ := Prod.mk.inj hp
      rw [parametersAt?, parametersAt?, ih hps, hwritten, hdefault]

theorem optional_of_parametersAt? (h : parametersAt? Γ ps = some params) :
    params.map Param.optional = ps.map (·.default.isSome) := by
  induction ps generalizing params with
  | nil =>
    cases h
    rfl
  | cons p ps ih =>
    obtain ⟨t, _, h⟩ := Option.bind_eq_some_iff.mp h
    obtain ⟨params, hps, rfl⟩ := Option.map_eq_some_iff.mp h
    rw [map_cons, map_cons, ih hps]

theorem ParametersResolved.outline (h : ParametersResolved s ps ps' params) :
    ps'.map Parameter.outline = ps.map Parameter.outline := by
  induction h with
  | nil => rfl
  | cons _ _ ih => exact congrArg (_ :: ·) ih

theorem DefaultsAccepted.outline (h : DefaultsAccepted s ps ps') :
    ps'.map Parameter.outline = ps.map Parameter.outline := by
  induction h with
  | nil => rfl
  | required _ _ ih => exact congrArg (_ :: ·) ih
  | optional hdefault _ _ _ _ ih =>
    rw [map_cons, map_cons, ih, Parameter.outline, Parameter.outline, hdefault]
    rfl

theorem ParametersBound.outline (h : ParametersBound ps c ps' c') :
    ps'.map Parameter.outline = ps.map Parameter.outline := by
  induction h with
  | nil => rfl
  | cons _ _ _ ih => exact congrArg (_ :: ·) ih

theorem ParametersResolved.parametersAt? (hs : ∀ x, Γ.lookup x = (s.findClass? x).map ClassBinding.type)
    (h : ParametersResolved s ps ps' params) : parametersAt? Γ ps = some params := by
  induction h with
  | nil => rfl
  | cons ht _ ih =>
    rw [TypedScript.parametersAt?, TypeTerm.typeAt?_of_resolve hs ht, ih]
    rfl

theorem FunctionHead.returnsAt?_of_returnType
    (hs : ∀ x, Γ.lookup x = (s.findClass? x).map ClassBinding.type)
    (hr : h.returnType s = .ok r) : h.returnsAt? Γ = some r := by
  unfold FunctionHead.returnType at hr
  unfold FunctionHead.returnsAt?
  cases hw : h.returns with
  | none =>
    rw [hw] at hr
    exact congrArg some (Except.ok.inj hr)
  | some w =>
    rw [hw] at hr
    exact TypeTerm.typeAt?_of_resolve hs hr

theorem FunctionHead.signatureAt?_of_resolved
    (hs : ∀ x, Γ.lookup x = (s.findClass? x).map ClassBinding.type)
    (hps : ParametersResolved s h.parameters ps params) (hr : h.returnType s = .ok r) :
    h.signatureAt? Γ = some ⟨params, r, h.async⟩ := by
  rw [FunctionHead.signatureAt?, hps.parametersAt? hs, FunctionHead.returnsAt?_of_returnType hs hr]
  rfl

/-! ## functions of a body -/

variable {body : List Stmt} {c c' : Context}

/-- two heads of one function, before and after its statement has been checked -/
structure FunctionHead.SameText (h h' : FunctionHead) : Prop where
  name : h'.name = h.name
  id : h'.id = h.id
  async : h'.async = h.async
  returns : h'.returns = h.returns
  outline : h'.parameters.map Parameter.outline = h.parameters.map Parameter.outline

theorem FunctionHead.SameText.signatureAt? (hh : h.SameText h') : h'.signatureAt? Γ = h.signatureAt? Γ := by
  unfold FunctionHead.signatureAt? FunctionHead.returnsAt?
  rw [parametersAt?_of_outline hh.outline, hh.returns, hh.async]

theorem EachAccepted.texts (h : EachAccepted c ss c' ss') {head : FunctionHead}
    (hmem : .function head body ∈ ss) : ∃ head' body', .function head' body' ∈ ss' ∧ head.SameText head' := by
  induction ss generalizing c ss' with
  | nil => exact nomatch hmem
  | cons s ss ih =>
    cases h with
    | @cons _ _ _ _ s' _ ss' hs hss =>
      rcases mem_cons.mp hmem with rfl | hmem
      · cases hs with
        | @function _ _ _ _ _ body' ps ps₁ ps₂ params _ hps _ hps₁ hps₂ _ =>
          have houtline := hps₂.outline.trans (hps₁.outline.trans hps.outline)
          exact ⟨_, body', mem_cons_self, rfl, rfl, rfl, rfl, houtline⟩
      · obtain ⟨head', body', hmem', hsame⟩ := ih hss hmem
        exact ⟨head', body', mem_cons_of_mem s' hmem', hsame⟩

theorem Hoisted.known {hoisted : List Stmt} (h : Hoisted body c hoisted c')
    (hc : root.Known L Γ c.scope)
    (hL : ∀ head inner, .function head inner ∈ hoisted → ∃ P ∈ L, ∃ head' inner', P.start = Γ ∧
      P.statement = .function head' inner' ∧ head.SameText head') :
    root.Known L Γ c'.scope := by
  induction h with
  | nil => exact hc
  | @function head body rest rest' c c' ps params r hps hr _ _ ih =>
    obtain ⟨P, hP, head', inner', hstart, hstatement, hsame⟩ := hL _ _ mem_cons_self
    -- the hoisted head has the resolved types on its parameters; its text is the one of `head`
    have hsignature : head'.signatureAt? P.start = some ⟨params, r, head.async⟩ := by
      have hresolved := FunctionHead.signatureAt?_of_resolved hc.types hps hr
      rw [hstart, hsame.signatureAt?, ← hresolved]
      unfold FunctionHead.signatureAt?
      rw [parametersAt?_of_outline hps.outline]
      rfl
    have hdeclares := Stmt.Place.Declares.function hstatement hsame.id hsignature
    rw [hsame.name] at hdeclares
    exact ih (hc.defineVariable ⟨P, hP, hdeclares⟩)
      fun head inner hmem => hL head inner (mem_cons_of_mem _ hmem)
  | other _ _ ih => exact ih hc fun head inner hmem => hL head inner (mem_cons_of_mem _ hmem)

/-! ## declarations -/

variable {P : Stmt.Place}

theorem DeclaratorsBound.known {constant : Bool} {ds ds' : List Declarator} {ts : List Ty}
    (h : DeclaratorsBound constant ds ts c ds' c') (hc : root.Known L Γ c.scope)
    (hL : ∀ d id t, d ∈ ds' → d.id = some id → d.type = some t →
      ∃ P ∈ L, P.Declares d.name ⟨.declared id, t, .variable constant⟩) :
    root.Known L Γ c'.scope := by
  induction h with
  | nil => exact hc
  | @cons d _ _ _ c _ t _ _ _ ih =>
    exact ih (hc.defineVariable (hL (d.recorded c.nextId t) _ _ mem_cons_self rfl rfl))
      fun d id t hd => hL d id t (mem_cons_of_mem _ hd)

theorem ParametersBound.known
    (h : ParametersBound ps c ps' c') (hc : root.Known L Γ c.scope)
    (hL : ∀ p id t, p ∈ ps' → p.id = some id → p.type = some t →
      ∃ P ∈ L, P.Declares p.name ⟨.declared id, t, .parameter⟩) :
    root.Known L Γ c'.scope := by
  induction h with
  | nil => exact hc
  | @cons p _ _ c _ t _ _ _ ih =>
    exact ih (hc.defineVariable (hL (p.recorded c.nextId t) _ _ mem_cons_self rfl rfl))
      fun p id t hp => hL p id t (mem_cons_of_mem _ hp)

theorem ClassDeclared.known {h h' : ClassHead} (hh : ClassDeclared h c h' c') (hc : root.Known L Γ c.scope)
    (hP : P ∈ L) (hstatement : P.statement = .classDef h' body) : root.Known L (h'.sight ++ Γ) c'.scope := by
  cases hh with
  | @intro ps ps₁ ps₂ params s c₂ hps _ hs hps₁ hps₂ =>
    subst hs
    have hparams := hps₂.params (hps₁.params.trans hps.params)
    exact hc.defineClass ⟨P, hP, .intro hstatement rfl hparams⟩

theorem ForHead.Accepted.known {h h' : ForHead} (hh : ForHead.Accepted h c h' c')
    (hc : root.Known L Γ c.scope) (hP : P ∈ L)
    (hstatement : P.statement = .forLoop h' body) : root.Known L Γ c'.scope := by
  cases hh with
  | intro _ _ _ hc₁ _ _ _ _ =>
    subst hc₁
    have hdeclares := Stmt.Place.Declares.index hstatement rfl rfl
    exact hc.defineVariable ⟨P, hP, hdeclares⟩

theorem Scope.Known.records (h : Scope.root.Known (placesOf Scope.root q) Γ s) : s.Records (bodySites q) where
  vars x b hb := by
    rcases h.vars x b hb with hb | ⟨P, hP, hdeclares⟩
    · exact records_root.vars x b hb
    · have hsites := bodySites_of_places hP
      cases hdeclares with
      | «variable» hs hd hid ht =>
        rw [hs] at hsites
        exact .variable (hsites _ (mem_map.mpr ⟨_, hd, rfl⟩)) rfl hid ht
      | index hs hid ht =>
        rw [hs] at hsites
        exact .variable (hsites _ mem_cons_self) rfl hid ht
      | parameter hs hp hid ht =>
        rw [hs] at hsites
        have hmem := mem_map_of_mem (f := Site.parameter) hp
        exact .parameter (hsites _ (mem_cons_of_mem _ (mem_append_left _ hmem))) rfl hid ht
      | @function head _ id f hs hid hf =>
        rw [hs] at hsites
        obtain ⟨params, hparams, hf⟩ := Option.bind_eq_some_iff.mp hf
        obtain ⟨r, _, rfl⟩ := Option.map_eq_some_iff.mp hf
        exact .function (hsites _ mem_cons_self) rfl hid (optional_of_parametersAt? hparams)
  classes x b hb := by
    rcases h.classes x b hb with hb | ⟨P, hP, hdeclares⟩
    · exact records_root.classes x b hb
    · have hsites := bodySites_of_places hP
      cases hdeclares with
      | intro hs hid hparams =>
        rw [hs] at hsites
        exact .declared (hsites _ mem_cons_self) rfl hid hparams

end TypedScript
