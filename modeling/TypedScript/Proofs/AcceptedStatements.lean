import TypedScript.Check.Statements
import TypedScript.Proofs.AcceptedExpressions

/-!
# Statements that pass the check

The rules of successful checks go on with declarations and statements: `Stmt.Accepted c s c' s'` says
that the check of `s` in the context `c` succeeds, annotates it as `s'` and leaves the context `c'`.
A body is hoisted first and then accepted statement by statement.
-/

namespace TypedScript

/-! ## successful parts -/

namespace Step

variable {α β : Type} {x : Step α}
variable {b : β} {c : Context}

theorem andThen_eq_ok {wrap : α → β} {next : α → Context → Step β}
    (h : x.andThen wrap next = .ok c b) : ∃ c₁ a, x = .ok c₁ a ∧ next a c₁ = .ok c b := by
  obtain ⟨c₁, a, failure⟩ := x
  cases failure with
  | none => exact ⟨c₁, a, rfl, h⟩
  | some e => exact nomatch congrArg Step.failure h

theorem map_eq_ok {f : α → β} (h : x.map f = .ok c b) : ∃ a, x = .ok c a ∧ b = f a := by
  obtain ⟨c₁, a, failure⟩ := x
  cases h
  exact ⟨a, rfl, rfl⟩

end Step

theorem Checked.step_eq_ok {α β γ : Type} {x : Checked α β} {wrap : α → γ} {next : α → β → Step γ} {d : γ}
    (h : x.step c wrap next = .ok c' d) : ∃ a b, x = ⟨a, .ok b⟩ ∧ next a b = .ok c' d := by
  obtain ⟨a, result⟩ := x
  cases result with
  | ok b => exact ⟨a, b, rfl, h⟩
  | error e => exact nomatch congrArg Step.failure h

namespace Context

variable {x : String} {c c' : Context}

/-- the context after a variable is declared with the next identity -/
def declared (c : Context) (x : String) (t : Ty) (kind : BindingKind) : Context :=
  ⟨c.scope.defineVariable x ⟨.declared c.nextId, t, kind⟩, c.nextId + 1⟩

/-- the name is not declared in the innermost frame -/
def Lacks (c : Context) (x : String) : Prop := c.scope.frame.vars.find? x = none

theorem bind_eq_ok {id : DeclId} (h : c.bind x t kind = (c', .ok id)) :
    id = c.nextId ∧ c.Lacks x ∧ c' = c.declared x t kind := by
  unfold Context.bind Context.fresh at h
  dsimp only at h
  rw [Scope.declareVariable_eq] at h
  cases hfind : c.scope.frame.vars.find? x with
  | some b =>
    rw [hfind] at h
    exact nomatch congrArg Prod.snd h
  | none =>
    rw [hfind] at h
    cases h
    exact ⟨rfl, hfind, rfl⟩

theorem Lacks.bind (h : c.Lacks x) (t : Ty) (kind : BindingKind) :
    c.bind x t kind = (c.declared x t kind, .ok c.nextId) := by
  unfold Lacks at h
  simp only [Context.bind, fresh, Scope.declareVariable_eq, h, declared]

theorem inside_eq_ok {α : Type} {part : Context → Step α} {a : α} (h : c.inside s part = .ok c' a) :
    ∃ c₁, part ⟨s, c.nextId⟩ = .ok c₁ a ∧ c' = ⟨c.scope, c₁.nextId⟩ := by
  unfold Context.inside at h
  cases hpart : part ⟨s, c.nextId⟩ with
  | mk c₁ a' failure =>
    rw [hpart] at h
    cases h
    exact ⟨c₁, rfl, rfl⟩

end Context

/-! ## variables -/

variable {c c' : Context} {constant : Bool}

def Declarator.recorded (d : Declarator) (id : DeclId) (t : Ty) : Declarator :=
  { d with id := some id, type := some t }

inductive DeclaratorsBound (constant : Bool) :
    List Declarator → List Ty → Context → List Declarator → Context → Prop
  | nil {c : Context} : DeclaratorsBound constant [] ts c [] c
  | cons {d : Declarator} {ds ds' : List Declarator} {ts : List Ty} {c c' : Context} {t : Ty} :
    declaredType c.scope d.name d.written ts.head? = .ok t → c.Lacks d.name →
    DeclaratorsBound constant ds ts.tail (c.declared d.name t (.variable constant)) ds' c' →
    DeclaratorsBound constant (d :: ds) ts c (d.recorded c.nextId t :: ds') c'

theorem Declarator.bind_eq_ok {d d' : Declarator} (h : d.bind constant value c = .ok c' d') :
    ∃ t, declaredType c.scope d.name d.written value = .ok t ∧ c.Lacks d.name ∧
      c' = c.declared d.name t (.variable constant) ∧ d' = d.recorded c.nextId t := by
  unfold Declarator.bind at h
  split at h
  · exact nomatch congrArg Step.failure h
  · next t ht =>
    split at h
    · next c₁ id hbind =>
      obtain ⟨rfl, hlacks, rfl⟩ := Context.bind_eq_ok hbind
      cases h
      exact ⟨t, ht, hlacks, rfl, rfl⟩
    · exact nomatch congrArg Step.failure h

theorem declaratorsBound_of_bind (h : bindDeclarators constant ds ts c = .ok c' ds') :
    DeclaratorsBound constant ds ts c ds' c' := by
  induction ds generalizing ts c ds' with
  | nil =>
    cases h
    exact .nil
  | cons d ds ih =>
    obtain ⟨c₁, d', hd, h⟩ := Step.andThen_eq_ok h
    obtain ⟨ds', hds, rfl⟩ := Step.map_eq_ok h
    obtain ⟨t, ht, hlacks, rfl, rfl⟩ := Declarator.bind_eq_ok hd
    exact .cons ht hlacks (ih hds)

/-! ## assignments -/

/-- what is wrong with an assignment to a variable, named alone or as a member -/
def writableFault? (s : Scope) (x : String) : Option Cause :=
  match s.lookupVariable x with
  | .ok b => if b.writable then none else some (.constantAssignment x)
  | .error e => some e

inductive TargetsAccepted (s : Scope) : List Expr → List Expr → List Ty → Prop
  | nil : TargetsAccepted s [] [] []
  | cons {e e' : Expr} {es es' : List Expr} {t : Ty} {ts : List Ty} :
    targetFault? s e = none → Expr.Accepted s e e' t → memberFault? s e' = none →
    TargetsAccepted s es es' ts → TargetsAccepted s (e :: es) (e' :: es') (t :: ts)

theorem targetsAccepted_of_check (h : checkTargets s es = ⟨es', .ok ts⟩) : TargetsAccepted s es es' ts := by
  induction es generalizing es' ts with
  | nil =>
    cases h
    exact .nil
  | cons e es ih =>
    unfold checkTargets at h
    split at h
    · exact nomatch congrArg Checked.result h
    · next htarget =>
      obtain ⟨e', t, he, h⟩ := Checked.andThen_eq_ok h
      split at h
      · exact nomatch congrArg Checked.result h
      · next hmember =>
        obtain ⟨es', ts, hes, rfl, rfl⟩ := Checked.map_eq_ok h
        exact .cons htarget (Expr.accepted_of_check he) hmember (ih hes)

/-! ## parameters -/

variable {ps ps' : List Parameter} {s : Scope}

inductive ParametersResolved (s : Scope) : List Parameter → List Parameter → List (Param Ty) → Prop
  | nil : ParametersResolved s [] [] []
  | cons {p : Parameter} {ps ps' : List Parameter} {t : Ty} {params : List (Param Ty)} :
    p.written.resolve s = .ok t → ParametersResolved s ps ps' params →
    ParametersResolved s (p :: ps) ({ p with type := some t } :: ps')
      (⟨t, p.default.isSome⟩ :: params)

theorem parametersResolved_of_resolve (h : resolveParameters s ps = ⟨ps', .ok params⟩) :
    ParametersResolved s ps ps' params := by
  induction ps generalizing ps' params with
  | nil =>
    cases h
    exact .nil
  | cons p ps ih =>
    unfold resolveParameters at h
    split at h
    · exact nomatch congrArg Checked.result h
    · next t ht =>
      obtain ⟨ps', params, hps, rfl, rfl⟩ := Checked.map_eq_ok h
      exact .cons ht (ih hps)

inductive DefaultsAccepted (s : Scope) : List Parameter → List Parameter → Prop
  | nil : DefaultsAccepted s [] []
  | required {p : Parameter} {ps ps' : List Parameter} : p.default = none →
    DefaultsAccepted s ps ps' → DefaultsAccepted s (p :: ps) (p :: ps')
  | optional {p : Parameter} {ps ps' : List Parameter} {e e' : Expr} {expected t : Ty} :
    p.default = some e → p.typeIn s = .ok expected → Expr.Accepted s e e' t →
    t.assignable expected = true → DefaultsAccepted s ps ps' →
    DefaultsAccepted s (p :: ps) ({ p with default := some e' } :: ps')

theorem defaultsAccepted_of_check (h : checkDefaults s ps = ⟨ps', .ok ()⟩) : DefaultsAccepted s ps ps' := by
  induction ps generalizing ps' with
  | nil =>
    cases h
    exact .nil
  | cons p ps ih =>
    obtain ⟨p', u, hp, h⟩ := Checked.andThen_eq_ok h
    obtain ⟨ps', u', hps, rfl, _⟩ := Checked.map_eq_ok h
    have hrest := ih hps
    unfold Parameter.checkDefault at hp
    split at hp
    · exact nomatch congrArg Checked.result hp
    · next expected hexpected =>
      split at hp
      · next hdefault =>
        cases hp
        exact .required hdefault hrest
      · next e hdefault =>
        obtain ⟨e', t, he, hp⟩ := Checked.andThen_eq_ok hp
        split at hp
        · next hfits =>
          cases hp
          exact .optional hdefault hexpected (Expr.accepted_of_check he) hfits hrest
        · exact nomatch congrArg Checked.result hp

def Parameter.recorded (p : Parameter) (id : DeclId) (t : Ty) : Parameter :=
  { p with id := some id, type := some t }

inductive ParametersBound : List Parameter → Context → List Parameter → Context → Prop
  | nil {c : Context} : ParametersBound [] c [] c
  | cons {p : Parameter} {ps ps' : List Parameter} {c c' : Context} {t : Ty} :
    p.typeIn c.scope = .ok t → c.Lacks p.name →
    ParametersBound ps (c.declared p.name t .parameter) ps' c' →
    ParametersBound (p :: ps) c (p.recorded c.nextId t :: ps') c'

theorem parametersBound_of_bind (h : bindParameters ps c = .ok c' ps') : ParametersBound ps c ps' c' := by
  induction ps generalizing c ps' with
  | nil =>
    cases h
    exact .nil
  | cons p ps ih =>
    obtain ⟨c₁, p', hp, h⟩ := Step.andThen_eq_ok h
    obtain ⟨ps', hps, rfl⟩ := Step.map_eq_ok h
    unfold Parameter.bind at hp
    split at hp
    · exact nomatch congrArg Step.failure hp
    · next t ht =>
      split at hp
      · next c₂ id hbind =>
        obtain ⟨rfl, hlacks, rfl⟩ := Context.bind_eq_ok hbind
        cases hp
        exact .cons ht hlacks (ih hps)
      · exact nomatch congrArg Step.failure hp

/-! ## functions -/

theorem FunctionHead.signature_eq_ok {h h' : FunctionHead} (hok : h.signature s = ⟨h', .ok f⟩) :
    ∃ ps params r, ParametersResolved s h.parameters ps params ∧ h.returnType s = .ok r ∧
      h' = { h with parameters := ps } ∧ f = ⟨params, r, h.async⟩ := by
  obtain ⟨ps, params, hps, hok⟩ := Checked.andThen_eq_ok hok
  cases hr : h.returnType s with
  | error c =>
    rw [hr] at hok
    exact nomatch congrArg Checked.result hok
  | ok r =>
    rw [hr] at hok
    cases hok
    exact ⟨ps, params, r, parametersResolved_of_resolve hps, rfl, rfl, rfl⟩

inductive Hoisted : List Stmt → Context → List Stmt → Context → Prop
  | nil {c : Context} : Hoisted [] c [] c
  | function {h : FunctionHead} {body rest rest' : List Stmt} {c c' : Context}
    {ps : List Parameter} {params : List (Param Ty)} {r : Ty} :
    ParametersResolved c.scope h.parameters ps params → h.returnType c.scope = .ok r →
    c.Lacks h.name →
    Hoisted rest (c.declared h.name (.function params r h.async) .function) rest' c' →
    Hoisted (.function h body :: rest) c
      (.function { h with parameters := ps, id := some c.nextId } body :: rest') c'
  | other {s : Stmt} {rest rest' : List Stmt} {c c' : Context} :
    (∀ h body, s ≠ .function h body) → Hoisted rest c rest' c' →
    Hoisted (s :: rest) c (s :: rest') c'

theorem hoisted_of_hoist (h : hoist body c = .ok c' body') : Hoisted body c body' c' := by
  induction body generalizing c body' with
  | nil =>
    cases h
    exact .nil
  | cons s rest ih =>
    by_cases hfunction : ∃ head inner, s = .function head inner
    · obtain ⟨head, inner, rfl⟩ := hfunction
      obtain ⟨c₁, head', hhead, h⟩ := Step.andThen_eq_ok h
      obtain ⟨rest', hrest, rfl⟩ := Step.map_eq_ok h
      obtain ⟨head₁, f, hsig, hhead⟩ := Checked.step_eq_ok hhead
      obtain ⟨ps, params, r, hps, hr, rfl, rfl⟩ := FunctionHead.signature_eq_ok hsig
      split at hhead
      · next c₂ id hbind =>
        obtain ⟨rfl, hlacks, rfl⟩ := Context.bind_eq_ok hbind
        cases hhead
        exact .function hps hr hlacks (ih hrest)
      · exact nomatch congrArg Step.failure hhead
    · have hother : ∀ head inner, s ≠ .function head inner :=
        fun head inner hs => hfunction ⟨head, inner, hs⟩
      rw [hoist] at h
      · obtain ⟨rest', hrest, rfl⟩ := Step.map_eq_ok h
        exact .other hother (ih hrest)
      · exact hother

/-! ## classes -/

def ClassHead.binding (h : ClassHead) (id : DeclId) (params : List (Param Ty)) : ClassBinding :=
  ⟨.declared id, .classOf id h.name, some ⟨params, .classOf id h.name, false⟩⟩

inductive ClassDeclared (h : ClassHead) (c : Context) : ClassHead → Context → Prop
  | intro {ps ps₁ ps₂ : List Parameter} {params : List (Param Ty)} {s : Scope} {c₂ : Context} :
    ParametersResolved c.scope h.parameters ps params → c.scope.frame.classes.find? h.name = none →
    s = c.scope.defineClass h.name (h.binding c.nextId params) → DefaultsAccepted s ps ps₁ →
    ParametersBound ps₁ ⟨s.enterFunction ⟨params, .classOf c.nextId h.name, false⟩, c.nextId + 1⟩
      ps₂ c₂ →
    ClassDeclared h c { h with id := some c.nextId, parameters := ps₂ } ⟨s, c₂.nextId⟩

theorem classDeclared_of_declare {h h' : ClassHead}
    (hok : h.declare c = .ok c' h') : ClassDeclared h c h' c' := by
  unfold ClassHead.declare Context.fresh at hok
  dsimp only at hok
  obtain ⟨ps, params, hps, hok⟩ := Checked.step_eq_ok hok
  split at hok
  · exact nomatch congrArg Step.failure hok
  · next s hs =>
    obtain ⟨ps₁, u, hps₁, hok⟩ := Checked.step_eq_ok hok
    obtain ⟨ps₂, hps₂, rfl⟩ := Step.map_eq_ok hok
    obtain ⟨c₂, hbind, rfl⟩ := Context.inside_eq_ok hps₂
    unfold Scope.declareClass at hs
    split at hs
    · exact nomatch hs
    · next hlacks =>
      cases hs
      exact .intro (parametersResolved_of_resolve hps) hlacks rfl (defaultsAccepted_of_check hps₁)
        (parametersBound_of_bind hbind)

/-! ## conditions and loops -/

variable {e e' : Expr} {u : Update Expr} {target : Ty}

theorem accepted_of_checkCondition (h : checkCondition s construct e = ⟨e', .ok ()⟩) :
    Expr.Accepted s e e' .bool := by
  obtain ⟨e₁, t, he, h⟩ := Checked.andThen_eq_ok h
  split at h
  · next ht =>
    cases h
    subst ht
    exact Expr.accepted_of_check he
  · exact nomatch congrArg Checked.result h

theorem accepted_of_checkBound (h : checkBound s e = ⟨e', .ok ()⟩) :
    ∃ t, Expr.Accepted s e e' t ∧ t.isIntegral = true := by
  obtain ⟨e₁, t, he, h⟩ := Checked.andThen_eq_ok h
  split at h
  · next ht =>
    cases h
    exact ⟨t, Expr.accepted_of_check he, ht⟩
  · exact nomatch congrArg Checked.result h

inductive UpdateAccepted (s : Scope) (target : Ty) : Update Expr → Update Expr → Prop
  | increment : UpdateAccepted s target .increment .increment
  | decrement : UpdateAccepted s target .decrement .decrement
  | increase {e e' : Expr} : Expr.Accepted s e e' target →
    UpdateAccepted s target (.increase e) (.increase e')
  | decrease {e e' : Expr} : Expr.Accepted s e e' target →
    UpdateAccepted s target (.decrease e) (.decrease e')

theorem checkStep_eq_ok (h : checkUpdate.checkStep s target step wrap = ⟨u, .ok ()⟩) :
    ∃ e', Expr.Accepted s step e' target ∧ u = wrap e' := by
  obtain ⟨e', t, he, h⟩ := Checked.andThen_eq_ok h
  split at h
  · next ht =>
    cases h
    subst ht
    exact ⟨e', Expr.accepted_of_check he, rfl⟩
  · exact nomatch congrArg Checked.result h

theorem updateAccepted_of_check (h : checkUpdate s target u = ⟨u', .ok ()⟩) :
    UpdateAccepted s target u u' := by
  cases u with
  | increment => cases h; exact .increment
  | decrement => cases h; exact .decrement
  | increase step =>
    obtain ⟨e', he, rfl⟩ := checkStep_eq_ok h
    exact .increase he
  | decrease step =>
    obtain ⟨e', he, rfl⟩ := checkStep_eq_ok h
    exact .decrease he

inductive ForHead.Accepted (h : ForHead) (c : Context) : ForHead → Context → Prop
  | intro {init test : Expr} {t u : Ty} {c₁ : Context} {b : Binding} {update : Update Expr} :
    Expr.Accepted c.scope h.init init t →
    declaredType c.scope h.index.name h.index.written (some t) = .ok u → c.Lacks h.index.name →
    c₁ = c.declared h.index.name u (.variable false) → Expr.Accepted c₁.scope h.test test .bool →
    c₁.scope.findVariable? h.target.name = some b → b.type.isIntegral = true →
    UpdateAccepted c₁.scope b.type h.update update →
    ForHead.Accepted h c
      ⟨h.index.recorded c.nextId u, init, test, h.target.resolved b.resolution, update⟩ c₁

theorem ForHead.accepted_of_check {h h' : ForHead} (hok : h.check c = .ok c' h') :
    ForHead.Accepted h c h' c' := by
  obtain ⟨init, t, hinit, hok⟩ := Checked.step_eq_ok hok
  obtain ⟨c₁, index, hindex, hok⟩ := Step.andThen_eq_ok hok
  obtain ⟨u, hu, hlacks, rfl, rfl⟩ := Declarator.bind_eq_ok hindex
  obtain ⟨test, _, htest, hok⟩ := Checked.step_eq_ok hok
  dsimp only at hok
  split at hok
  · exact nomatch congrArg Step.failure hok
  · next b hb =>
    split at hok
    · next hintegral =>
      obtain ⟨update, _, hupdate, hok⟩ := Checked.step_eq_ok hok
      cases hok
      exact .intro (Expr.accepted_of_check hinit) hu hlacks rfl (accepted_of_checkCondition htest)
        (Scope.lookupVariable_eq_ok hb) hintegral (updateAccepted_of_check hupdate)
    · exact nomatch congrArg Step.failure hok

inductive ReturnAccepted (s : Scope) : Option Expr → Option Expr → Prop
  | none : s.frame.function = some f → Ty.none.assignable f.returns = true → ReturnAccepted s none none
  | some {f : Signature} {e e' : Expr} {t : Ty} : s.frame.function = some f → f.returns ≠ .none →
    Expr.Accepted s e e' t → t.assignable f.returns = true → ReturnAccepted s (some e) (some e')

theorem returnAccepted_of_check (h : checkReturn s value = ⟨value', .ok ()⟩) :
    ReturnAccepted s value value' := by
  unfold checkReturn at h
  split at h
  · exact nomatch congrArg Checked.result h
  · next f hf =>
    split at h
    · split at h
      · next hfits =>
        cases h
        exact .none hf hfits
      · exact nomatch congrArg Checked.result h
    · split at h
      · exact nomatch congrArg Checked.result h
      · next e hreturns =>
        obtain ⟨e', t, he, h⟩ := Checked.andThen_eq_ok h
        split at h
        · next hfits =>
          cases h
          exact .some hf hreturns (Expr.accepted_of_check he) hfits
        · exact nomatch congrArg Checked.result h

/-! ## statements -/

mutual

inductive Stmt.Accepted : Context → Stmt → Context → Stmt → Prop
  | expression {c : Context} {e e' : Expr} {t : Ty} : Expr.Accepted c.scope e e' t →
    Stmt.Accepted c (.expression e) c (.expression e')
  | print {c : Context} {e e' : Expr} {t : Ty} : Expr.Accepted c.scope e e' t →
    Stmt.Accepted c (.print e) c (.print e')
  | declare {c c' : Context} {constant : Bool} {ds ds' : List Declarator} {values values' : List Expr}
    {ts : List Ty} : declarationFault? constant ds values = none →
    Expr.AcceptedAll c.scope (fun _ _ => .ok ()) [] values values' ts →
    DeclaratorsBound constant ds ts c ds' c' →
    Stmt.Accepted c (.declare constant ds values) c' (.declare constant ds' values')
  | assign {c : Context} {targets targets' values values' : List Expr} {ts us : List Ty} :
    targets.length = values.length → TargetsAccepted c.scope targets targets' ts →
    Expr.AcceptedAll c.scope (assignedTest ts) [] values values' us →
    Stmt.Accepted c (.assign targets values) c (.assign targets' values')
  | function {c c₁ c₂ : Context} {h : FunctionHead} {body body' : List Stmt}
    {ps ps₁ ps₂ : List Parameter} {params : List (Param Ty)} {r : Ty} :
    ParametersResolved c.scope h.parameters ps params → h.returnType c.scope = .ok r →
    DefaultsAccepted c.scope ps ps₁ →
    ParametersBound ps₁ ⟨c.scope.enterFunction ⟨params, r, h.async⟩, c.nextId⟩ ps₂ c₁ →
    BodyAccepted c₁ body c₂ body' →
    Stmt.Accepted c (.function h body) ⟨c.scope, c₂.nextId⟩ (.function { h with parameters := ps₂ } body')
  | classDef {c c₁ c₂ : Context} {h h' : ClassHead} {body body' : List Stmt} :
    ClassDeclared h c h' c₁ → BodyAccepted c₁ body c₂ body' →
    Stmt.Accepted c (.classDef h body) c₂ (.classDef h' body')
  | conditional {c c₁ c₂ : Context} {branches branches' : List (Guarded Stmt)}
    {otherwise otherwise' : Option (List Stmt)} : BranchesAccepted c branches c₁ branches' →
    OtherwiseAccepted c₁ otherwise c₂ otherwise' →
    Stmt.Accepted c (.conditional branches otherwise) c₂ (.conditional branches' otherwise')
  | whileLoop {c c₁ : Context} {condition condition' : Expr} {body body' : List Stmt} :
    Expr.Accepted c.scope condition condition' .bool →
    BodyAccepted ⟨c.scope.enterLoop, c.nextId⟩ body c₁ body' →
    Stmt.Accepted c (.whileLoop condition body) ⟨c.scope, c₁.nextId⟩ (.whileLoop condition' body')
  | forLoop {c c₁ c₂ : Context} {h h' : ForHead} {body body' : List Stmt} :
    ForHead.Accepted h ⟨c.scope.enterLoop, c.nextId⟩ h' c₁ → BodyAccepted c₁ body c₂ body' →
    Stmt.Accepted c (.forLoop h body) ⟨c.scope, c₂.nextId⟩ (.forLoop h' body')
  | rangeLoop {c c₁ : Context} {start start' stop stop' : Expr} {t u : Ty} {body body' : List Stmt} :
    Expr.Accepted c.scope start start' t → t.isIntegral = true →
    Expr.Accepted c.scope stop stop' u → u.isIntegral = true →
    BodyAccepted ⟨c.scope.enterLoop, c.nextId⟩ body c₁ body' →
    Stmt.Accepted c (.rangeLoop start stop body) ⟨c.scope, c₁.nextId⟩ (.rangeLoop start' stop' body')
  | switch {c c₁ c₂ : Context} {scrutinee scrutinee' : Expr} {t : Ty}
    {cases cases' : List (Guarded Stmt)} {otherwise otherwise' : Option (List Stmt)} :
    Expr.Accepted c.scope scrutinee scrutinee' t → BranchesAccepted c cases c₁ cases' →
    OtherwiseAccepted c₁ otherwise c₂ otherwise' →
    Stmt.Accepted c (.switch scrutinee cases otherwise) c₂ (.switch scrutinee' cases' otherwise')
  | breakLoop {c : Context} : c.scope.frame.insideLoop = true → Stmt.Accepted c .breakLoop c .breakLoop
  | continueLoop {c : Context} : c.scope.frame.insideLoop = true →
    Stmt.Accepted c .continueLoop c .continueLoop
  | returnValue {c : Context} {value value' : Option Expr} : ReturnAccepted c.scope value value' →
    Stmt.Accepted c (.returnValue value) c (.returnValue value')
  | block {c c₁ : Context} {body body' : List Stmt} :
    BodyAccepted ⟨c.scope.enterBlock, c.nextId⟩ body c₁ body' →
    Stmt.Accepted c (.block body) ⟨c.scope, c₁.nextId⟩ (.block body')

inductive EachAccepted : Context → List Stmt → Context → List Stmt → Prop
  | nil {c : Context} : EachAccepted c [] c []
  | cons {c c₁ c₂ : Context} {s s' : Stmt} {ss ss' : List Stmt} : Stmt.Accepted c s c₁ s' →
    EachAccepted c₁ ss c₂ ss' → EachAccepted c (s :: ss) c₂ (s' :: ss')

inductive BodyAccepted : Context → List Stmt → Context → List Stmt → Prop
  | intro {c c₁ c₂ : Context} {body hoisted body' : List Stmt} : Hoisted body c hoisted c₁ →
    EachAccepted c₁ hoisted c₂ body' → BodyAccepted c body c₂ body'

inductive BranchesAccepted : Context → List (Guarded Stmt) → Context → List (Guarded Stmt) → Prop
  | nil {c : Context} : BranchesAccepted c [] c []
  | cons {c c₁ c₂ : Context} {guard guard' : Expr} {body body' : List Stmt}
    {gs gs' : List (Guarded Stmt)} : Expr.Accepted c.scope guard guard' .bool →
    BodyAccepted ⟨c.scope.enterBlock, c.nextId⟩ body c₁ body' →
    BranchesAccepted ⟨c.scope, c₁.nextId⟩ gs c₂ gs' →
    BranchesAccepted c (⟨guard, body⟩ :: gs) c₂ (⟨guard', body'⟩ :: gs')

inductive OtherwiseAccepted : Context → Option (List Stmt) → Context → Option (List Stmt) → Prop
  | none {c : Context} : OtherwiseAccepted c none c none
  | some {c c₁ : Context} {body body' : List Stmt} :
    BodyAccepted ⟨c.scope.enterBlock, c.nextId⟩ body c₁ body' →
    OtherwiseAccepted c (some body) ⟨c.scope, c₁.nextId⟩ (some body')

end

/-! ## checks that succeed -/

mutual

theorem Stmt.accepted_of_check {s s' : Stmt} {c c' : Context} (h : s.check c = .ok c' s') :
    Stmt.Accepted c s c' s' := by
  match s, h with
  | .expression e, h =>
    rw [Stmt.check] at h
    obtain ⟨e', t, he, h⟩ := Checked.step_eq_ok h
    cases h
    exact .expression (Expr.accepted_of_check he)
  | .print e, h =>
    rw [Stmt.check] at h
    obtain ⟨e', t, he, h⟩ := Checked.step_eq_ok h
    cases h
    exact .print (Expr.accepted_of_check he)
  | .declare constant ds values, h =>
    rw [Stmt.check] at h
    split at h
    · exact nomatch congrArg Step.failure h
    · next hfault =>
      obtain ⟨values', ts, hvalues, h⟩ := Checked.step_eq_ok h
      obtain ⟨ds', hds, rfl⟩ := Step.map_eq_ok h
      exact .declare hfault (Expr.acceptedAll_of_check hvalues) (declaratorsBound_of_bind hds)
  | .assign targets values, h =>
    rw [Stmt.check] at h
    split at h
    · exact nomatch congrArg Step.failure h
    · next hlength =>
      obtain ⟨targets', ts, htargets, h⟩ := Checked.step_eq_ok h
      obtain ⟨values', us, hvalues, h⟩ := Checked.step_eq_ok h
      cases h
      exact .assign (Decidable.not_not.mp hlength) (targetsAccepted_of_check htargets)
        (Expr.acceptedAll_of_check hvalues)
  | .function head body, h =>
    rw [Stmt.check] at h
    obtain ⟨head', f, hsig, h⟩ := Checked.step_eq_ok h
    obtain ⟨ps, params, r, hps, hr, rfl, rfl⟩ := FunctionHead.signature_eq_ok hsig
    obtain ⟨ps₁, _, hps₁, h⟩ := Checked.step_eq_ok h
    obtain ⟨c₂, hinside, rfl⟩ := Context.inside_eq_ok h
    obtain ⟨c₁, ps₂, hps₂, hinside⟩ := Step.andThen_eq_ok hinside
    obtain ⟨body', hbody, rfl⟩ := Step.map_eq_ok hinside
    exact .function hps hr (defaultsAccepted_of_check hps₁) (parametersBound_of_bind hps₂)
      (bodyAccepted_of_check hbody)
  | .classDef head body, h =>
    rw [Stmt.check] at h
    obtain ⟨c₁, head', hhead, h⟩ := Step.andThen_eq_ok h
    obtain ⟨body', hbody, rfl⟩ := Step.map_eq_ok h
    exact .classDef (classDeclared_of_declare hhead) (bodyAccepted_of_check hbody)
  | .conditional branches none, h =>
    rw [Stmt.check] at h
    obtain ⟨branches', hbranches, rfl⟩ := Step.map_eq_ok h
    exact .conditional (branchesAccepted_of_check hbranches) .none
  | .conditional branches (some body), h =>
    rw [Stmt.check] at h
    obtain ⟨c₁, branches', hbranches, h⟩ := Step.andThen_eq_ok h
    obtain ⟨body', hbody, rfl⟩ := Step.map_eq_ok h
    obtain ⟨c₂, hinner, rfl⟩ := Context.inside_eq_ok hbody
    exact .conditional (branchesAccepted_of_check hbranches) (.some (bodyAccepted_of_check hinner))
  | .whileLoop condition body, h =>
    rw [Stmt.check] at h
    obtain ⟨condition', _, hcondition, h⟩ := Checked.step_eq_ok h
    obtain ⟨body', hbody, rfl⟩ := Step.map_eq_ok h
    obtain ⟨c₁, hinner, rfl⟩ := Context.inside_eq_ok hbody
    exact .whileLoop (accepted_of_checkCondition hcondition) (bodyAccepted_of_check hinner)
  | .forLoop head body, h =>
    rw [Stmt.check] at h
    obtain ⟨c₂, hinside, rfl⟩ := Context.inside_eq_ok h
    obtain ⟨c₁, head', hhead, hinside⟩ := Step.andThen_eq_ok hinside
    obtain ⟨body', hbody, rfl⟩ := Step.map_eq_ok hinside
    exact .forLoop (ForHead.accepted_of_check hhead) (bodyAccepted_of_check hbody)
  | .rangeLoop start stop body, h =>
    rw [Stmt.check] at h
    obtain ⟨start', _, hstart, h⟩ := Checked.step_eq_ok h
    obtain ⟨stop', _, hstop, h⟩ := Checked.step_eq_ok h
    obtain ⟨body', hbody, rfl⟩ := Step.map_eq_ok h
    obtain ⟨c₁, hinner, rfl⟩ := Context.inside_eq_ok hbody
    obtain ⟨t, hstart, ht⟩ := accepted_of_checkBound hstart
    obtain ⟨u, hstop, hu⟩ := accepted_of_checkBound hstop
    exact .rangeLoop hstart ht hstop hu (bodyAccepted_of_check hinner)
  | .switch scrutinee cases none, h =>
    rw [Stmt.check] at h
    obtain ⟨scrutinee', t, hscrutinee, h⟩ := Checked.step_eq_ok h
    obtain ⟨cases', hcases, rfl⟩ := Step.map_eq_ok h
    exact .switch (Expr.accepted_of_check hscrutinee) (branchesAccepted_of_check hcases) .none
  | .switch scrutinee cases (some body), h =>
    rw [Stmt.check] at h
    obtain ⟨scrutinee', t, hscrutinee, h⟩ := Checked.step_eq_ok h
    obtain ⟨c₁, cases', hcases, h⟩ := Step.andThen_eq_ok h
    obtain ⟨body', hbody, rfl⟩ := Step.map_eq_ok h
    obtain ⟨c₂, hinner, rfl⟩ := Context.inside_eq_ok hbody
    exact .switch (Expr.accepted_of_check hscrutinee) (branchesAccepted_of_check hcases)
      (.some (bodyAccepted_of_check hinner))
  | .breakLoop, h =>
    rw [Stmt.check] at h
    split at h
    · next hloop =>
      cases h
      exact .breakLoop hloop
    · exact nomatch congrArg Step.failure h
  | .continueLoop, h =>
    rw [Stmt.check] at h
    split at h
    · next hloop =>
      cases h
      exact .continueLoop hloop
    · exact nomatch congrArg Step.failure h
  | .returnValue value, h =>
    rw [Stmt.check] at h
    obtain ⟨value', _, hvalue, h⟩ := Checked.step_eq_ok h
    cases h
    exact .returnValue (returnAccepted_of_check hvalue)
  | .block body, h =>
    rw [Stmt.check] at h
    obtain ⟨body', hbody, rfl⟩ := Step.map_eq_ok h
    obtain ⟨c₁, hinner, rfl⟩ := Context.inside_eq_ok hbody
    exact .block (bodyAccepted_of_check hinner)
termination_by 2 * s.size
decreasing_by all_goals simp only [Stmt.size]; omega

theorem eachAccepted_of_check {c c' : Context} (h : checkEach ss c = .ok c' ss') :
    EachAccepted c ss c' ss' := by
  match ss, h with
  | [], h =>
    rw [checkEach] at h
    cases h
    exact .nil
  | s :: ss, h =>
    rw [checkEach] at h
    obtain ⟨c₁, s', hs, h⟩ := Step.andThen_eq_ok h
    obtain ⟨ss', hss, rfl⟩ := Step.map_eq_ok h
    exact .cons (Stmt.accepted_of_check hs) (eachAccepted_of_check hss)
termination_by 2 * bodySize ss
decreasing_by all_goals simp only [bodySize]; omega

theorem bodyAccepted_of_check {c c' : Context} (h : checkBody body c = .ok c' body') :
    BodyAccepted c body c' body' := by
  rw [checkBody_eq] at h
  obtain ⟨c₁, hoisted, hhoist, h⟩ := Step.andThen_eq_ok h
  exact .intro (hoisted_of_hoist hhoist) (eachAccepted_of_check h)
termination_by 2 * bodySize body + 1
decreasing_by
  have hsize := bodySize_hoist body c
  rw [hhoist] at hsize
  simp only [Step.ok] at hsize
  omega

theorem branchesAccepted_of_check {c c' : Context} (h : checkBranches construct gs c = .ok c' gs') :
    BranchesAccepted c gs c' gs' := by
  match gs, h with
  | [], h =>
    rw [checkBranches] at h
    cases h
    exact .nil
  | ⟨guard, body⟩ :: gs, h =>
    rw [checkBranches] at h
    obtain ⟨guard', _, hguard, h⟩ := Checked.step_eq_ok h
    obtain ⟨c₁, body', hbody, h⟩ := Step.andThen_eq_ok h
    obtain ⟨gs', hgs, rfl⟩ := Step.map_eq_ok h
    obtain ⟨c₂, hinner, rfl⟩ := Context.inside_eq_ok hbody
    exact .cons (accepted_of_checkCondition hguard) (bodyAccepted_of_check hinner)
      (branchesAccepted_of_check hgs)
termination_by 2 * branchesSize gs
decreasing_by all_goals simp only [branchesSize]; omega

end

theorem accepted_of_analyse (h : analyse root p = .ok q) : ∃ c, BodyAccepted ⟨root.enterBlock, 1⟩ p c q := by
  unfold analyse checkProgram at h
  cases hcheck : checkBody p ⟨root.enterBlock, 1⟩ with
  | mk c tree failure =>
    rw [hcheck] at h
    cases failure with
    | some e => exact nomatch h
    | none =>
      cases h
      exact ⟨c, bodyAccepted_of_check hcheck⟩

end TypedScript
