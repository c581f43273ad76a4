import TypedScript.Proofs.UnchangedTrees

/-!
# A function put into a list of statements

The signature of a function is resolved twice: with those of the other functions of its list, before
anything else, and where the function stands.  So a function may be put into an accepted list if its
written types have a meaning at both places.  It is not enough that they have one where it stands: the
classes of the list itself are not yet known when the list starts.
-/

namespace TypedScript

open List

/-! ## the written types of a function -/

variable {h : FunctionHead} {s s' : Scope}

/-- the written types of a function stand for types -/
structure FunctionHead.Resolves (s : Scope) (h : FunctionHead) : Prop where
  parameters : ∀ p ∈ h.parameters, ∃ t, p.written.resolve s = .ok t
  returns : ∀ w ∈ h.returns, ∃ t, w.resolve s = .ok t

theorem FunctionHead.resolves_congr (hs : ∀ x, s'.findClass? x = s.findClass? x) :
    h.Resolves s' ↔ h.Resolves s := by
  have hresolve : ∀ w : TypeTerm, w.resolve s' = w.resolve s := TypeTerm.resolve_congr hs
  constructor
  · exact fun hh => ⟨fun p hp => hresolve p.written ▸ hh.parameters p hp,
      fun w hw => hresolve w ▸ hh.returns w hw⟩
  · exact fun hh => ⟨fun p hp => (hresolve p.written).symm ▸ hh.parameters p hp,
      fun w hw => (hresolve w).symm ▸ hh.returns w hw⟩

theorem FunctionHead.Resolves.changed {P : String → Prop} {K : Counterparts (keeping P)}
    (hs : s.Changed K s') (hh : h.Resolves s) : h.Resolves s' := by
  have hresolve : ∀ w : TypeTerm, (∃ t, w.resolve s = .ok t) → ∃ t, w.resolve s' = .ok t := by
    rintro w ⟨t, ht⟩
    have htwin := w.twin_resolve hs
    rw [w.change_keeping] at htwin
    rcases htwin.or with ⟨_, t', _, ht', _⟩ | ⟨e, _, he, _⟩
    · exact ⟨t', ht'⟩
    · cases ht.symm.trans he
  exact ⟨fun p hp => hresolve p.written (hh.parameters p hp), fun w hw => hresolve w (hh.returns w hw)⟩

/-! ## lists in two parts -/

variable {α β γ : Type}

theorem Step.andThen_andThen (x : Step α) (wrap : α → β) (next : α → Context → Step β)
    (wrap' : β → γ) (next' : β → Context → Step γ) :
    (x.andThen wrap next).andThen wrap' next'
      = x.andThen (fun a => wrap' (wrap a)) fun a c => (next a c).andThen wrap' next' := by
  obtain ⟨c, a, failure⟩ := x
  cases failure <;> rfl

theorem Step.map_andThen (x : Step α) (f : α → β) (wrap : β → γ) (next : β → Context → Step γ) :
    (x.map f).andThen wrap next = x.andThen (fun a => wrap (f a)) fun a c => next (f a) c := by
  obtain ⟨c, a, failure⟩ := x
  cases failure <;> rfl

theorem hoist_append (pre post : List Stmt) (c : Context) :
    hoist (pre ++ post) c = (hoist pre c).andThen (· ++ post) fun pre' c' =>
      (hoist post c').map (pre' ++ ·) := by
  induction pre generalizing c with
  | nil => rfl
  | cons s pre ih =>
    cases s with
    | function h body =>
      rw [cons_append, hoist, hoist, Step.andThen_andThen]
      congr 1
      funext h' c'
      rw [ih, Step.map_of_andThen, Step.map_andThen]
      rfl
    | _ =>
      show (hoist (pre ++ post) c).map _ = ((hoist pre c).map _).andThen _ _
      rw [ih, Step.map_of_andThen, Step.map_andThen]
      rfl

theorem checkEach_append (pre post : List Stmt) (c : Context) :
    checkEach (pre ++ post) c = (checkEach pre c).andThen (· ++ post) fun pre' c' =>
      (checkEach post c').map (pre' ++ ·) := by
  induction pre generalizing c with
  | nil =>
    rw [nil_append, checkEach]
    rfl
  | cons s pre ih =>
    rw [cons_append, checkEach, checkEach, Step.andThen_andThen]
    congr 1
    funext s' c'
    rw [ih, Step.map_of_andThen, Step.map_andThen]
    rfl

/-- the context behind `pre` in a check of `pre` and `post` -/
def contextAfter (pre post : List Stmt) (c : Context) : Context :=
  let hoisted := hoist (pre ++ post) c
  (checkEach (hoisted.tree.take pre.length) hoisted.context).context

/-! ## functions without body and defaults -/

variable {ps ps' : List Parameter}

/-- no parameter has a default, and no two have one name -/
structure FunctionHead.Plain (h : FunctionHead) : Prop where
  defaults : ∀ p ∈ h.parameters, p.default = none
  distinct : (h.parameters.map Parameter.name).Nodup

/-- a parameter whose type is written on it -/
def Parameter.Recorded (p p' : Parameter) : Prop := ∃ t, p' = { p with type := some t }

abbrev ParametersRecorded : List Parameter → List Parameter → Prop := List.Forall₂ Parameter.Recorded

theorem ParametersRecorded.map_eq {β : Type} (h : ParametersRecorded ps ps')
    {g : Parameter → β} (hg : ∀ p t, g { p with type := some t } = g p) : ps'.map g = ps.map g := by
  induction h with
  | nil => rfl
  | @cons p _ _ _ hp _ ih =>
    obtain ⟨t, rfl⟩ := hp
    exact congrArg₂ List.cons (hg p t) ih

theorem ParametersRecorded.forall_mem {β : Type} (h : ParametersRecorded ps ps')
    {g : Parameter → β} (hg : ∀ p t, g { p with type := some t } = g p) {P : β → Prop}
    (hP : ∀ p ∈ ps, P (g p)) : ∀ p ∈ ps', P (g p) := by
  have hmap := forall_mem_map.mpr hP
  rw [← h.map_eq hg] at hmap
  exact forall_mem_map.mp hmap

theorem ParametersRecorded.typed (h : ParametersRecorded ps ps') : ∀ p ∈ ps', ∃ t, p.type = some t := by
  induction h with
  | nil => exact nofun
  | cons hp _ ih =>
    obtain ⟨t, rfl⟩ := hp
    exact forall_mem_cons.mpr ⟨⟨t, rfl⟩, ih⟩

theorem resolveParameters_eq_ok (h : ∀ p ∈ ps, ∃ t, p.written.resolve s = .ok t) :
    ∃ ps' params, resolveParameters s ps = ⟨ps', .ok params⟩ ∧ ParametersRecorded ps ps' := by
  induction ps with
  | nil => exact ⟨[], [], rfl, .nil⟩
  | cons p ps ih =>
    obtain ⟨⟨t, ht⟩, hps⟩ := forall_mem_cons.mp h
    obtain ⟨ps', params, hok, hrecorded⟩ := ih hps
    refine ⟨_, ⟨t, p.default.isSome⟩ :: params, ?_, .cons ⟨t, rfl⟩ hrecorded⟩
    rw [resolveParameters, ht, hok]
    rfl

theorem FunctionHead.signature_eq_ok_of_resolves (hh : h.Resolves s) :
    ∃ ps f, h.signature s = ⟨{ h with parameters := ps }, .ok f⟩ ∧ ParametersRecorded h.parameters ps := by
  obtain ⟨ps, params, hps, hrecorded⟩ := resolveParameters_eq_ok hh.parameters
  obtain ⟨r, hr⟩ : ∃ r, h.returnType s = .ok r := by
    unfold FunctionHead.returnType
    cases hreturns : h.returns with
    | none => exact ⟨_, rfl⟩
    | some w => exact hh.returns w hreturns
  refine ⟨ps, ⟨params, r, h.async⟩, ?_, hrecorded⟩
  rw [FunctionHead.signature, hps, hr]
  rfl

section

variable {h h' : FunctionHead} (hps : ParametersRecorded h.parameters h'.parameters)

include hps

theorem FunctionHead.Plain.recorded (hh : h.Plain) : h'.Plain :=
  ⟨hps.forall_mem (g := Parameter.default) (P := (· = none)) (fun _ _ => rfl) hh.defaults,
    hps.map_eq (g := Parameter.name) (fun _ _ => rfl) ▸ hh.distinct⟩

theorem FunctionHead.Resolves.recorded (hh : h.Resolves s) (hreturns : h'.returns = h.returns) :
    h'.Resolves s :=
  ⟨hps.forall_mem (g := Parameter.written) (P := fun w => ∃ t, w.resolve s = .ok t) (fun _ _ => rfl)
      hh.parameters, hreturns ▸ hh.returns⟩

end

variable {c : Context}

theorem checkDefaults_eq_ok (htyped : ∀ p ∈ ps, ∃ t, p.type = some t)
    (hdefaults : ∀ p ∈ ps, p.default = none) : checkDefaults s ps = ⟨ps, .ok ()⟩ := by
  induction ps with
  | nil => rfl
  | cons p ps ih =>
    obtain ⟨⟨t, ht⟩, htyped⟩ := forall_mem_cons.mp htyped
    obtain ⟨hdefault, hdefaults⟩ := forall_mem_cons.mp hdefaults
    have hp : p.checkDefault s = ⟨p, .ok ()⟩ := by
      unfold Parameter.checkDefault Parameter.typeIn
      rw [ht, hdefault]
    rw [checkDefaults, hp, Checked.andThen_ok rfl, ih htyped hdefaults]
    rfl

theorem bindParameters_eq_ok (htyped : ∀ p ∈ ps, ∃ t, p.type = some t)
    (hdistinct : (ps.map Parameter.name).Nodup) (hlacks : ∀ p ∈ ps, c.Lacks p.name) :
    ∃ s ps', bindParameters ps c = .ok ⟨s, c.nextId + ps.length⟩ ps' := by
  induction ps generalizing c with
  | nil => exact ⟨c.scope, [], rfl⟩
  | cons p ps ih =>
    obtain ⟨⟨t, ht⟩, htyped⟩ := forall_mem_cons.mp htyped
    obtain ⟨hnew, hdistinct⟩ := nodup_cons.mp hdistinct
    obtain ⟨hfree, hlacks⟩ := forall_mem_cons.mp hlacks
    have hbound : p.bind c = .ok (c.declared p.name t .parameter)
        { p with id := some c.nextId, type := some t } := by
      simp only [Parameter.bind, Parameter.typeIn, ht, hfree.bind]
    have hrest : ∀ q ∈ ps, (c.declared p.name t .parameter).Lacks q.name := by
      intro q hq
      have hne : q.name ≠ p.name := fun heq => hnew (heq ▸ mem_map_of_mem hq)
      show (c.scope.frame.vars.put p.name _).find? q.name = none
      rw [Variables.find?_put, if_neg hne]
      exact hlacks q hq
    obtain ⟨s, ps', hok⟩ := ih htyped hdistinct hrest
    refine ⟨s, { p with id := some c.nextId, type := some t } :: ps', ?_⟩
    rw [bindParameters, hbound, Step.andThen_none rfl]
    dsimp only [Step.ok]
    rw [hok, length_cons, Nat.add_comm ps.length 1, ← Nat.add_assoc]
    rfl

theorem checkBody_nil (c : Context) : checkBody [] c = .ok c [] := by
  rw [checkBody_eq, hoist, Step.andThen_none rfl]
  show checkEach [] c = _
  rw [checkEach]

theorem check_plainFunction (hh : h.Plain) (hresolves : h.Resolves c.scope) :
    ∃ s, (Stmt.function h []).check c = .ok ⟨c.scope, c.nextId + h.parameters.length⟩ s := by
  obtain ⟨ps, f, hsignature, hps⟩ := FunctionHead.signature_eq_ok_of_resolves hresolves
  have hplain : FunctionHead.Plain { h with parameters := ps } := hh.recorded hps
  obtain ⟨s, ps', hbound⟩ := bindParameters_eq_ok (c := ⟨c.scope.enterFunction f, c.nextId⟩) hps.typed
    hplain.distinct fun _ _ => rfl
  refine ⟨.function { h with parameters := ps' } [], ?_⟩
  rw [Stmt.check, hsignature]
  simp only [Checked.step, checkDefaults_eq_ok hps.typed hplain.defaults]
  unfold Context.inside
  dsimp only
  rw [hbound, Step.andThen_none rfl, checkBody_nil, hps.length_eq]
  rfl

theorem FunctionHead.declare_eq_ok_of_resolves (hh : h.Resolves c.scope) (hlacks : c.Lacks h.name) :
    ∃ ps t, h.declare c = .ok (c.declared h.name t .function)
        { h with parameters := ps, id := some c.nextId } ∧ ParametersRecorded h.parameters ps := by
  obtain ⟨ps, f, hsignature, hps⟩ := FunctionHead.signature_eq_ok_of_resolves hh
  refine ⟨ps, f.type, ?_, hps⟩
  simp only [FunctionHead.declare, hsignature, Checked.step, hlacks.bind]

/-! ## what hoisting leaves -/

theorem ParametersResolved.resolves {params : List (Param Ty)}
    (h : ParametersResolved s ps ps' params) : ∀ p ∈ ps, ∃ t, p.written.resolve s = .ok t := by
  induction h with
  | nil => exact nofun
  | cons ht _ ih => exact forall_mem_cons.mpr ⟨⟨_, ht⟩, ih⟩

namespace Hoisted

variable {body body' : List Stmt} {c c' : Context}

theorem length_eq (h : Hoisted body c body' c') : body'.length = body.length := by
  induction h with
  | nil => rfl
  | function _ _ _ _ ih | other _ _ ih => exact congrArg Nat.succ ih

theorem findClass?_eq (h : Hoisted body c body' c') (y : String) :
    c'.scope.findClass? y = c.scope.findClass? y := by
  induction h with
  | nil => rfl
  | function _ _ _ _ ih | other _ _ ih => exact ih

theorem lacks (h : Hoisted body c body' c') (hx : ∀ d ∈ bodySites body, d.name ≠ x) (hlacks : c.Lacks x) :
    c'.Lacks x := by
  induction h with
  | nil => exact hlacks
  | @function h _ _ _ _ _ _ _ _ _ _ _ _ ih =>
    obtain ⟨hfirst, hrest⟩ := forall_mem_append.mp hx
    refine ih hrest ?_
    have hne : x ≠ h.name := fun heq => hfirst _ mem_cons_self heq.symm
    show (Variables.put _ h.name _).find? x = none
    rw [Variables.find?_put, if_neg hne]
    exact hlacks
  | other _ _ ih => exact ih (forall_mem_append.mp hx).2 hlacks

theorem resolves (hh : Hoisted (.function h [] :: body) c body' c') : h.Resolves c.scope := by
  cases hh with
  | function hps hr _ _ =>
    refine ⟨hps.resolves, fun w hw => ?_⟩
    rw [FunctionHead.returnType, hw] at hr
    exact ⟨_, hr⟩
  | other hother _ => exact absurd rfl (hother h [])

end Hoisted

/-! ## the passes over a list in two parts -/

/-- a check of `pre` and `post` that succeeds: both are hoisted, then both are checked -/
structure Passes (pre post : List Stmt) (c c₁ c₀ c₂ : Context) (pre' post' : List Stmt) : Prop where
  hoistPre : hoist pre c = .ok c₁ pre'
  hoistPost : hoist post c₁ = .ok c₀ post'
  checkPre : ∃ t, checkEach pre' c₀ = .ok c₂ t
  checkPost : ∃ c₃ t, checkEach post' c₂ = .ok c₃ t

section

variable {pre post pre' post' : List Stmt} {c c₁ c₀ c₂ : Context}

theorem exists_passes (h : (checkBody (pre ++ post) c).failure = none) :
    ∃ c₁ c₀ c₂ pre' post', Passes pre post c c₁ c₀ c₂ pre' post' := by
  have hok := Step.eq_ok h
  rw [checkBody_eq, hoist_append] at hok
  obtain ⟨c₀, hoisted, hhoist, hcheck⟩ := Step.andThen_eq_ok hok
  obtain ⟨c₁, pre', hpre, hrest⟩ := Step.andThen_eq_ok hhoist
  obtain ⟨post', hpost, rfl⟩ := Step.map_eq_ok hrest
  rw [checkEach_append] at hcheck
  obtain ⟨c₂, t, hcheckPre, hcheckPost⟩ := Step.andThen_eq_ok hcheck
  obtain ⟨t', hcheckPost, _⟩ := Step.map_eq_ok hcheckPost
  exact ⟨c₁, c₀, c₂, pre', post', hpre, hpost, ⟨t, hcheckPre⟩, ⟨_, t', hcheckPost⟩⟩

namespace Passes

theorem hoist_eq (h : Passes pre post c c₁ c₀ c₂ pre' post') :
    hoist (pre ++ post) c = .ok c₀ (pre' ++ post') := by
  rw [hoist_append, h.hoistPre, Step.andThen_none rfl]
  exact congrArg (Step.map · (pre' ++ ·)) h.hoistPost

theorem accepted (h : Passes pre post c c₁ c₀ c₂ pre' post') :
    (checkBody (pre ++ post) c).failure = none := by
  obtain ⟨t, hpre⟩ := h.checkPre
  obtain ⟨c₃, t', hpost⟩ := h.checkPost
  have hcheck : checkEach (pre' ++ post') c₀ = (checkEach post' c₂).map (t ++ ·) := by
    rw [checkEach_append, hpre, Step.andThen_none rfl]
    rfl
  rw [checkBody_eq, h.hoist_eq, Step.andThen_none rfl]
  show (checkEach (pre' ++ post') c₀).failure = none
  rw [hcheck, hpost]
  rfl

theorem contextAfter_eq (h : Passes pre post c c₁ c₀ c₂ pre' post') : contextAfter pre post c = c₂ := by
  have hlength : pre'.length = pre.length := (hoisted_of_hoist h.hoistPre).length_eq
  obtain ⟨t, hpre⟩ := h.checkPre
  unfold contextAfter
  rw [h.hoist_eq]
  dsimp only [Step.ok]
  rw [← hlength, take_left, hpre]
  rfl

end Passes

end

/-! ## names that do not occur -/

variable {x : String}

/-- nothing is declared as `x`, and nothing is called `x` -/
structure Avoids (x : String) (sites : List Site) (uses : List Symbol) : Prop where
  sites : ∀ d ∈ sites, d.name ≠ x
  uses : ∀ y ∈ uses, y.name ≠ x

theorem Avoids.body_append (h : Avoids x (bodySites (pre ++ post)) (bodyUses (pre ++ post))) :
    Avoids x (bodySites pre) (bodyUses pre) ∧ Avoids x (bodySites post) (bodyUses post) := by
  induction pre with
  | nil => exact ⟨⟨nofun, nofun⟩, h⟩
  | cons s pre ih =>
    obtain ⟨hsites, hrestSites⟩ := forall_mem_append.mp h.sites
    obtain ⟨huses, hrestUses⟩ := forall_mem_append.mp h.uses
    obtain ⟨hpre, hpost⟩ := ih ⟨hrestSites, hrestUses⟩
    exact ⟨⟨forall_mem_append.mpr ⟨hsites, hpre.sites⟩,
      forall_mem_append.mpr ⟨huses, hpre.uses⟩⟩, hpost⟩

/-- no change, for trees in which `x` does not occur -/
abbrev without (x : String) : Change := keeping (· ≠ x)

theorem Scope.Changed.defineOther {K : Counterparts (without x)}
    (h : s.Changed K s') (b : Binding) : s.Changed K (s'.defineVariable x b) where
  vars y hy := by
    have hne : (without x).name y ≠ x := hy
    rw [Scope.findVariable?_defineVariable, if_neg hne]
    exact h.vars y hy
  classes := h.classes
  ownVars y hy := by
    show ((s'.frame.vars.put x b).find? y).isSome = _
    rw [Variables.find?_put, if_neg hy]
    exact h.ownVars y hy
  ownClasses := h.ownClasses
  function := h.function
  insideLoop := h.insideLoop

/-! ## the condition -/

section

variable {K : Roster} {c : Context} {pre post : List Stmt} {f : FunctionHead}

/-- a function whose types have a meaning at the start of the list and behind `pre` -/
theorem checkBody_accepts_function (hc : c.Within K)
    (haccepted : (checkBody (pre ++ post) c).failure = none) (hf : f.Plain) (hlacks : c.Lacks f.name)
    (hnowhere : Avoids f.name (bodySites (pre ++ post)) (bodyUses (pre ++ post)))
    (hstart : f.Resolves c.scope) (hafter : f.Resolves (contextAfter pre post c).scope) :
    (checkBody (pre ++ .function f [] :: post) c).failure = none := by
  obtain ⟨c₁, c₀, c₂, pre₁, post₁, hpasses⟩ := exists_passes haccepted
  obtain ⟨hpre, hpost⟩ := hnowhere.body_append
  rw [hpasses.contextAfter_eq] at hafter
  have hhoisted := hoisted_of_hoist hpasses.hoistPre
  -- the function is declared behind the functions of `pre`
  obtain ⟨ps, t, hdeclare, hps⟩ := FunctionHead.declare_eq_ok_of_resolves
    ((FunctionHead.resolves_congr hhoisted.findClass?_eq).mpr hstart) (hhoisted.lacks hpre.sites hlacks)
  obtain ⟨K₁, _, _, hsame, hc₁, halikePre⟩ :=
    ((bodyAlike_self (P := (· ≠ f.name)) pre hpre.sites hpre.uses).hoist hc.changed).exists_ok
      hpasses.hoistPre
  cases hpasses.hoistPre.symm.trans hsame
  have hdeclared : c₁.Changed K₁ (c₁.declared f.name t .function) :=
    ⟨hc₁.scope.defineOther _, hc₁.known.mono (Nat.le_refl _) (Nat.le_succ _) False.elim⟩
  obtain ⟨K₀, c₀', post₁', hhoistPost, hc₀, halike⟩ :=
    ((bodyAlike_self (P := (· ≠ f.name)) post hpost.sites hpost.uses).hoist hdeclared).exists_ok
      hpasses.hoistPost
  -- the statements of `pre` are the same ones in a larger context
  obtain ⟨_, hcheckPre⟩ := hpasses.checkPre
  obtain ⟨K₂, c₂', pre₂', hcheckPre', hc₂, _⟩ := (halikePre.checkEach hc₀).exists_ok hcheckPre
  -- the function statement takes identities for its parameters
  obtain ⟨s, hcheck⟩ := check_plainFunction (h := { f with parameters := ps, id := some c₁.nextId })
    (hf.recorded hps) ((hafter.changed hc₂.scope).recorded hps rfl)
  have hafterFunction : c₂.Changed K₂ ⟨c₂'.scope, c₂'.nextId + ps.length⟩ :=
    ⟨hc₂.scope, hc₂.known.mono (Nat.le_refl _) (Nat.le_add_right _ _) False.elim⟩
  obtain ⟨c₃, post₂, hcheckPost⟩ := hpasses.checkPost
  obtain ⟨_, c₃', post₂', hcheckPost', _, _⟩ := (halike.checkEach hafterFunction).exists_ok hcheckPost
  have hpasses' : Passes pre (.function f [] :: post) c c₁ c₀' c₂' pre₁
      (.function { f with parameters := ps, id := some c₁.nextId } [] :: post₁') := by
    refine ⟨hpasses.hoistPre, ?_, ⟨pre₂', hcheckPre'⟩, c₃', s :: post₂', ?_⟩
    · rw [hoist, hdeclare, Step.andThen_none rfl]
      exact congrArg (Step.map · _) hhoistPost
    · rw [checkEach, hcheck, Step.andThen_none rfl]
      exact congrArg (Step.map · _) hcheckPost'
  exact hpasses'.accepted

/-- where the types of `f` have a meaning behind `pre`, `f` may stand there if and only if they have one
at the start of the list, too -/
theorem checkBody_accepts_function_iff (hc : c.Within K)
    (haccepted : (checkBody (pre ++ post) c).failure = none) (hf : f.Plain) (hlacks : c.Lacks f.name)
    (hnowhere : Avoids f.name (bodySites (pre ++ post)) (bodyUses (pre ++ post)))
    (hafter : f.Resolves (contextAfter pre post c).scope) :
    (checkBody (pre ++ .function f [] :: post) c).failure = none ↔ f.Resolves c.scope := by
  constructor
  · intro h
    obtain ⟨c₁, c₀, c₂, pre₁, post₁, hpasses⟩ := exists_passes h
    have hpre := hoisted_of_hoist hpasses.hoistPre
    have hpost := hoisted_of_hoist hpasses.hoistPost
    exact (FunctionHead.resolves_congr hpre.findClass?_eq).mp hpost.resolves
  · exact fun hstart => checkBody_accepts_function hc haccepted hf hlacks hnowhere hstart hafter

end

/-- `class A { } let a: A = A();` with `fn f(xs: array<int>, n: int?) -> string { }` in the middle: the class
has another identity then -/
theorem checkBody_accepts_function_iff_numbers : let c : Context := ⟨Scope.root.enterBlock, 1⟩
    let pre : List Stmt := [.classDef ⟨"A", none, []⟩ []]
    let post : List Stmt :=
      [.declare false [⟨"a", some (.named "A"), none, none⟩]
        [.call (.name (.ofName "A") none) [] false false none]]
    let f : FunctionHead :=
      ⟨"f", none, [⟨"xs", .generic "array" [.named "int"], none, none, none⟩,
        ⟨"n", .nullable (.named "int"), none, none, none⟩], some (.named "string"), false⟩
    (checkBody (pre ++ post) c).failure = none ∧ f.Resolves c.scope ∧
      (checkBody (pre ++ .function f [] :: post) c).failure = none := by
  intro c pre post f
  have haccepted : (checkBody (pre ++ post) c).failure = none := by cbv
  have hstart : f.Resolves c.scope :=
    ⟨forall_mem_cons.mpr ⟨⟨_, rfl⟩, forall_mem_singleton.mpr ⟨_, rfl⟩⟩,
      fun w hw => Option.some.inj hw ▸ ⟨_, rfl⟩⟩
  have hafter : f.Resolves (contextAfter pre post c).scope :=
    ⟨forall_mem_cons.mpr ⟨⟨.array .int, by cbv⟩, forall_mem_singleton.mpr ⟨.nullable .int, by cbv⟩⟩,
      fun w hw => Option.some.inj hw ▸ ⟨.string, by cbv⟩⟩
  have hiff := checkBody_accepts_function_iff (K := .empty)
    ⟨Scope.within_root.enterBlock, fun _ _ => False.elim⟩
    haccepted
    ⟨by decide, by decide⟩ rfl ⟨by decide, by decide⟩ hafter
  exact ⟨haccepted, hstart, hiff.mpr hstart⟩

/-- `class A { } fn f(x: A) { }` is refused, although `A` has a meaning where `f` stands -/
theorem checkBody_refuses_class_of_list : let c : Context := ⟨Scope.root.enterBlock, 1⟩
    let pre : List Stmt := [.classDef ⟨"A", none, []⟩ []]
    let f : FunctionHead := ⟨"f", none, [⟨"x", .named "A", none, none, none⟩], none, false⟩
    (checkBody (pre ++ []) c).failure = none ∧ f.Plain ∧ c.Lacks f.name ∧
      Avoids f.name (bodySites (pre ++ [])) (bodyUses (pre ++ [])) ∧
      f.Resolves (contextAfter pre [] c).scope ∧
      (checkBody (pre ++ [.function f []]) c).failure = some (.unknownType "A") := by
  intro c pre f
  have hafter : f.Resolves (contextAfter pre [] c).scope :=
    ⟨forall_mem_singleton.mpr ⟨.classOf 1 "A", by cbv⟩, fun w hw => absurd hw (Option.not_mem_none w)⟩
  exact ⟨by cbv, ⟨by decide, by decide⟩, rfl, ⟨by decide, by decide⟩, hafter, by cbv⟩

end TypedScript
