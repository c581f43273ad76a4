import Mathlib
import TypedScript.Proofs.Identities
import TypedScript.Proofs.WellTypedExpressions

/-!
# Accepted programs are well typed node by node

From expressions to statements: every declaration that the check makes is written on the tree, so the
scopes stay recorded (`Scope.Records`), and the function around a statement asks for one type.

* `Stmt.Accepted.typed`, `BodyAccepted.typed`: statements and bodies;
* `bodyTyped_of_analyse`: programs.
-/

namespace TypedScript

open List

variable {M : Prop} {D : List Site}

structure Keeps (D : List Site) (c c' : Context) : Prop where
  records : c'.scope.Records D
  around : c'.scope.frame.function = c.scope.frame.function

/-! ## variables -/

variable {t : Ty} {s : Scope} {c c' : Context} {ts : List Ty} {ds ds' : List Declarator} {constant : Bool}

theorem declaredType_eq_ok (h : declaredType s x written value = .ok t) :
    (∀ w, written = some w → w.resolve s = .ok t) ∧
      (∀ v, value = some v → v.assignable t = true ∧ (written = none → v = t)) ∧
      (value = none → written.isSome = true) := by
  unfold declaredType at h
  split at h
  · next w v =>
    obtain ⟨u, hu, h⟩ := exists_ok_of_bind h
    split at h
    · next hfits =>
      cases h
      exact ⟨fun w' hw => by cases hw; exact hu, fun v' hv => by cases hv; exact ⟨hfits, nofun⟩,
        fun _ => rfl⟩
    · exact nomatch h
  · next w => exact ⟨fun w' hw => by cases hw; exact h, nofun, fun _ => rfl⟩
  · next v =>
    cases h
    exact ⟨nofun, fun v' hv => by cases hv; exact ⟨t.assignable_self, fun _ => rfl⟩, nofun⟩
  · exact nomatch h

theorem Declarator.typed_recorded (hs : s.Records D) {d : Declarator} {id : DeclId}
    {value : Option Expr} {v : Option Ty} (hvalue : value.map Expr.type = v.map some)
    (h : declaredType s d.name d.written v = .ok t) : (d.recorded id t).Typed D value := by
  obtain ⟨hwritten, hfits, hsome⟩ := declaredType_eq_ok h
  refine ⟨t, rfl, fun w hw => TypeTerm.denotes_of_resolve hs (hwritten w hw), ?_, ?_⟩
  · rintro e rfl
    cases v with
    | none => exact nomatch hvalue
    | some u =>
      have he : e.type = some u := Option.some.inj hvalue
      obtain ⟨hassignable, hsame⟩ := hfits u rfl
      exact ⟨⟨u, he, hassignable⟩, fun hnone => he.trans (congrArg some (hsame hnone))⟩
  · rintro rfl
    cases v with
    | none => exact hsome rfl
    | some u => exact nomatch hvalue

theorem DeclaratorsBound.length (h : DeclaratorsBound constant ds ts c ds' c') : ds'.length = ds.length := by
  induction h with
  | nil => rfl
  | cons _ _ _ ih => exact congrArg (· + 1) ih

theorem DeclaratorsBound.typed (h : DeclaratorsBound constant ds ts c ds' c') (hc : c.scope.Records D)
    (hD : ∀ d ∈ ds', .variable constant d ∈ D) {values : List Expr}
    (hvalues : values.map Expr.type = ts.map some) : declaratorsTyped D ds' values ∧ Keeps D c c' := by
  induction h generalizing values with
  | nil => exact ⟨trivial, hc, rfl⟩
  | @cons d ds ds' ts c c' t ht _ _ ih =>
    have hsite : .variable constant (d.recorded c.nextId t) ∈ D := hD _ mem_cons_self
    have hhead : values.head?.map Expr.type = ts.head?.map some := by
      rw [← List.head?_map, hvalues, List.head?_map]
    have htail : values.tail.map Expr.type = ts.tail.map some := by
      rw [map_tail, hvalues, map_tail]
    obtain ⟨hds, hkeeps⟩ := ih (hc.defineVariable (.variable hsite rfl rfl rfl))
      (fun d' hd' => hD d' (mem_cons_of_mem _ hd')) htail
    exact ⟨⟨Declarator.typed_recorded hc hhead ht, hds⟩, hkeeps.records, hkeeps.around⟩

/-! ## parameters -/

variable {ps ps' : List Parameter}

/-- what the parameters of a function or a class contribute to its signature is on the finished tree -/
theorem ParametersResolved.params {params : List (Param Ty)}
    (h : ParametersResolved s ps ps' params) : ps'.map Parameter.param? = params.map some := by
  induction h with
  | nil => rfl
  | cons _ _ ih =>
    rw [map_cons, map_cons, ih]
    rfl

theorem DefaultsAccepted.params (h : DefaultsAccepted s ps ps') :
    ps'.map Parameter.param? = ps.map Parameter.param? := by
  induction h with
  | nil => rfl
  | required _ _ ih => rw [map_cons, map_cons, ih]
  | optional hdefault _ _ _ _ ih =>
    rw [map_cons, map_cons, ih, Parameter.param?, Parameter.param?, hdefault]
    rfl

theorem ParametersBound.params {params : List (Param Ty)} (h : ParametersBound ps c ps' c')
    (hps : ps.map Parameter.param? = params.map some) : ps'.map Parameter.param? = params.map some := by
  induction h generalizing params with
  | nil => exact hps
  | @cons p ps ps' c c' t ht _ _ ih =>
    cases params with
    | nil => exact nomatch hps
    | cons q params =>
      rw [map_cons, map_cons, List.cons.injEq] at hps
      rw [map_cons, map_cons, ih hps.2, ← hps.1]
      congr 1
      cases hu : p.type with
      | none =>
        have hq := hps.1
        rw [Parameter.param?, hu] at hq
        exact nomatch hq
      | some u =>
        rw [Parameter.typeIn, hu] at ht
        cases ht
        rw [Parameter.param?, Parameter.param?, hu]
        rfl

def Parameter.Resolved (D : List Site) (p : Parameter) : Prop :=
  ∃ t, p.type = some t ∧ p.written.Denotes D t

theorem ParametersResolved.resolved {params : List (Param Ty)}
    (h : ParametersResolved s ps ps' params) (hs : s.Records D) : ∀ p ∈ ps', p.Resolved D := by
  induction h with
  | nil => exact nofun
  | @cons p ps ps' t params ht _ ih =>
    intro p' hp'
    rcases mem_cons.mp hp' with rfl | hp'
    · exact ⟨t, rfl, TypeTerm.denotes_of_resolve hs ht⟩
    · exact ih p' hp'

theorem ParametersResolved.unmarked {params : List (Param Ty)}
    (h : ParametersResolved s ps ps' params) (hm : ∀ p ∈ ps, p.Unmarked) : ∀ p ∈ ps', p.Unmarked := by
  induction h with
  | nil => exact nofun
  | @cons p ps ps' t params _ _ ih =>
    intro p' hp'
    rcases mem_cons.mp hp' with rfl | hp'
    · exact hm p mem_cons_self
    · exact ih (fun p' hp' => hm p' (mem_cons_of_mem p hp')) p' hp'

theorem DefaultsAccepted.typed (h : DefaultsAccepted s ps ps') (hs : s.Records D)
    (hps : ∀ p ∈ ps, p.Resolved D) (hm : M ∨ ∀ p ∈ ps, p.Unmarked) : ∀ p ∈ ps', p.Typed M D := by
  induction h with
  | nil => exact nofun
  | @required p ps ps' hdefault _ ih =>
    obtain ⟨t, ht, hwritten⟩ := hps p mem_cons_self
    intro p' hp'
    rcases mem_cons.mp hp' with rfl | hp'
    · exact ⟨t, ht, hwritten, fun e he => nomatch hdefault.symm.trans he⟩
    · exact ih (fun p' hp' => hps p' (mem_cons_of_mem p hp'))
        (hm.imp_right fun hm p' hp' => hm p' (mem_cons_of_mem p hp')) p' hp'
  | @optional p ps ps' e e' expected u hdefault hexpected he hfits _ ih =>
    obtain ⟨t, ht, hwritten⟩ := hps p mem_cons_self
    rw [Parameter.typeIn, ht] at hexpected
    cases hexpected
    intro p' hp'
    rcases mem_cons.mp hp' with rfl | hp'
    · refine ⟨expected, ht, hwritten, fun e₀ he₀ => ?_⟩
      cases he₀
      exact ⟨he.typed hs (hm.imp_right fun hm => hm p mem_cons_self e hdefault), u, he.type, hfits⟩
    · exact ih (fun p' hp' => hps p' (mem_cons_of_mem p hp'))
        (hm.imp_right fun hm p' hp' => hm p' (mem_cons_of_mem p hp')) p' hp'

theorem ParametersBound.typed
    (h : ParametersBound ps c ps' c') (hc : c.scope.Records D) (hD : ∀ p ∈ ps', .parameter p ∈ D)
    (hps : ∀ p ∈ ps, p.Typed M D) : (∀ p ∈ ps', p.Typed M D) ∧ Keeps D c c' := by
  induction h with
  | nil => exact ⟨nofun, hc, rfl⟩
  | @cons p ps ps' c c' t ht _ _ ih =>
    have hsite : .parameter (p.recorded c.nextId t) ∈ D := hD _ mem_cons_self
    obtain ⟨htyped, hkeeps⟩ := ih (hc.defineVariable (.parameter hsite rfl rfl rfl))
      (fun p' hp' => hD p' (mem_cons_of_mem _ hp'))
      (fun p' hp' => hps p' (mem_cons_of_mem p hp'))
    obtain ⟨u, hu, hrest⟩ := hps p mem_cons_self
    rw [Parameter.typeIn, hu] at ht
    cases ht
    refine ⟨fun p' hp' => ?_, hkeeps.records, hkeeps.around⟩
    rcases mem_cons.mp hp' with rfl | hp'
    · exact ⟨t, rfl, hrest⟩
    · exact htyped p' hp'

theorem parameters_typed {s₀ : Scope} {params : List (Param Ty)} (hs₀ : s₀.Records D) (hs : s.Records D)
    (hc : c.scope.Records D) (hresolved : ParametersResolved s₀ ps ps₁ params)
    (hdefaults : DefaultsAccepted s ps₁ ps₂) (hbound : ParametersBound ps₂ c ps₃ c')
    (hD : ∀ p ∈ ps₃, .parameter p ∈ D) (hm : M ∨ ∀ p ∈ ps, p.Unmarked) :
    (∀ p ∈ ps₃, p.Typed M D) ∧ Keeps D c c' := by
  have htyped := hdefaults.typed hs (hresolved.resolved hs₀) (hm.imp_right hresolved.unmarked)
  exact hbound.typed hc hD htyped

theorem ClassDeclared.typed (hh : ClassDeclared h c h' c') (hc : c.scope.Records D) (hD : .classDef h' ∈ D)
    (hD' : ∀ p ∈ h'.parameters, .parameter p ∈ D) (hm : M ∨ ∀ p ∈ h.parameters, p.Unmarked) :
    (∀ p ∈ h'.parameters, p.Typed M D) ∧ Keeps D c c' := by
  cases hh with
  | @intro ps ps₁ ps₂ params s c₂ hps _ hs hps₁ hps₂ =>
    subst hs
    have hparams := hps₂.params (hps₁.params.trans hps.params)
    have hc' := hc.defineClass (ClassBinding.At.declared hD rfl rfl hparams)
    obtain ⟨htyped, _⟩ := parameters_typed hc hc'
      (hc'.enter (some ⟨params, .classOf c.nextId h.name, false⟩) false) hps hps₁ hps₂ hD' hm
    exact ⟨htyped, hc', rfl⟩

/-! ## functions of a body -/

variable {body hoisted : List Stmt}

/-- two heads of one function, before and after its statement has been checked -/
structure FunctionHead.SameName (h h' : FunctionHead) : Prop where
  name : h'.name = h.name
  id : h'.id = h.id
  async : h'.async = h.async
  optional : h'.parameters.map (·.default.isSome) = h.parameters.map (·.default.isSome)

/-- the defaults of parameters can be read off what they contribute -/
theorem optional_of_params {params : List (Param Ty)} (h : ps.map Parameter.param? = params.map some) :
    params.map Param.optional = ps.map (·.default.isSome) := by
  induction ps generalizing params with
  | nil =>
    cases params with
    | nil => rfl
    | cons q params => exact nomatch h
  | cons p ps ih =>
    cases params with
    | nil => exact nomatch h
    | cons q params =>
      rw [map_cons, map_cons, List.cons.injEq] at h
      rw [map_cons, map_cons, ih h.2]
      cases ht : p.type with
      | none =>
        have hq := h.1
        rw [Parameter.param?, ht] at hq
        exact nomatch hq
      | some t =>
        have hq := h.1
        rw [Parameter.param?, ht] at hq
        rw [← Option.some.inj hq]

theorem ParametersResolved.optional {params : List (Param Ty)} (h : ParametersResolved s ps ps' params) :
    params.map Param.optional = ps.map (·.default.isSome) := by
  induction h with
  | nil => rfl
  | cons _ _ ih => rw [map_cons, map_cons, ih]

theorem EachAccepted.functions (h : EachAccepted c ss c' ss') {head : FunctionHead}
    (hmem : .function head body ∈ ss) : ∃ head' body', .function head' body' ∈ ss' ∧ head.SameName head' := by
  induction ss generalizing c ss' with
  | nil => exact nomatch hmem
  | cons s ss ih =>
    cases h with
    | @cons _ _ _ _ s' _ ss' hs hss =>
      rcases mem_cons.mp hmem with rfl | hmem
      · cases hs with
        | @function _ _ _ _ _ body' ps ps₁ ps₂ params _ hps _ hps₁ hps₂ _ =>
          refine ⟨_, body', mem_cons_self, rfl, rfl, rfl, ?_⟩
          show ps₂.map _ = _
          rw [← optional_of_params (hps₂.params (hps₁.params.trans hps.params)), hps.optional]
      · obtain ⟨head', body', hmem', hsame⟩ := ih hss hmem
        exact ⟨head', body', mem_cons_of_mem s' hmem', hsame⟩

/-- hoisting keeps the scope recorded if the functions have their sites -/
theorem Hoisted.keeps (h : Hoisted body c hoisted c') (hc : c.scope.Records D)
    (hD : ∀ head inner, .function head inner ∈ hoisted → ∃ head', .function head' ∈ D ∧ head.SameName head') :
    Keeps D c c' := by
  induction h with
  | nil => exact ⟨hc, rfl⟩
  | @function head body rest rest' c c' ps params r hps _ _ _ ih =>
    obtain ⟨head', hsite, hsame⟩ := hD _ _ mem_cons_self
    have hoptional : params.map Param.optional = head'.parameters.map (·.default.isSome) :=
      (optional_of_params hps.params).trans hsame.optional.symm
    have hat : Binding.At D head.name ⟨.declared c.nextId, .function params r head.async, .function⟩ :=
      hsame.async ▸ .function hsite hsame.name hsame.id hoptional
    have hkeeps := ih (hc.defineVariable hat)
      (fun head inner hmem => hD head inner (mem_cons_of_mem _ hmem))
    exact ⟨hkeeps.records, hkeeps.around⟩
  | @other s rest rest' c c' hs _ ih =>
    exact ih hc fun head inner hmem => hD head inner (mem_cons_of_mem _ hmem)

theorem Hoisted.unmarked (h : Hoisted body c hoisted c') (hm : bodyUnmarked body) : bodyUnmarked hoisted := by
  induction h with
  | nil => trivial
  | function hps _ _ _ ih => exact ⟨⟨hps.unmarked hm.1.1, hm.1.2⟩, ih hm.2⟩
  | other _ _ ih => exact ⟨hm.1, ih hm.2⟩

/-! ## pieces of statements -/

theorem TargetsAccepted.typed (hs : s.Records D) (h : TargetsAccepted s es es' ts)
    (hm : M ∨ Expr.allUnmarked es) :
    Expr.allTyped M D es' ∧ es'.map Expr.type = ts.map some ∧ es'.length = es.length := by
  induction h with
  | nil => exact ⟨trivial, rfl, rfl⟩
  | cons _ he _ _ ih =>
    obtain ⟨htyped, htypes, hlength⟩ := ih (hm.imp_right And.right)
    refine ⟨⟨he.typed hs (hm.imp_right And.left), htyped⟩, ?_, congrArg (· + 1) hlength⟩
    rw [map_cons, map_cons, he.type, htypes]

theorem UpdateAccepted.typed (hs : s.Records D) (h : UpdateAccepted s t u u') (hm : M ∨ Update.Unmarked u) :
    Update.Typed M D t u' := by
  cases h with
  | increment | decrement => trivial
  | increase he | decrease he => exact ⟨he.typed hs hm, he.type⟩

theorem ForHead.Accepted.typed (hh : ForHead.Accepted h c h' c') (hc : c.scope.Records D)
    (hD : .variable false h'.index ∈ D) (hm : M ∨ h.Unmarked) : h'.Typed M D ∧ Keeps D c c' := by
  cases hh with
  | @intro init test t u c₁ b update hinit hu _ hc₁ htest hb hintegral hupdate =>
    subst hc₁
    have hc' := hc.defineVariable (Binding.At.variable hD rfl rfl rfl)
    refine ⟨⟨hinit.typed hc (hm.imp_right And.left), ?_, htest.typed hc' (hm.imp_right (·.2.1)),
      htest.type, ?_⟩, hc', rfl⟩
    · have hvalue : (some init).map Expr.type = (some t).map some := congrArg some hinit.type
      exact Declarator.typed_recorded hc hvalue hu
    · exact ⟨b.type, (hc'.vars _ _ hb).refers, hintegral, hupdate.typed hc' (hm.imp_right (·.2.2))⟩

theorem ReturnAccepted.typed (hs : s.Records D) (h : ReturnAccepted s value value')
    (hm : M ∨ ∀ e : Expr, value = .some e → e.Unmarked) :
    returnTyped M D (s.frame.function.map Signature.returns) value' := by
  cases h with
  | none hf hfits =>
    rw [hf]
    exact ⟨_, rfl, hfits⟩
  | some hf hne he hfits =>
    rw [hf]
    exact ⟨_, rfl, hne, he.typed hs (hm.imp_right fun hm => hm _ rfl), _, he.type, hfits⟩

theorem FunctionHead.returns_of_returnType (hs : s.Records D) {h : FunctionHead} {r : Ty}
    (hr : h.returnType s = .ok r) : h.Returns D r := by
  unfold FunctionHead.returnType at hr
  unfold FunctionHead.Returns
  cases hw : h.returns with
  | none =>
    rw [hw] at hr
    exact (Except.ok.inj hr).symm
  | some w =>
    rw [hw] at hr
    exact TypeTerm.denotes_of_resolve hs hr

theorem declarationFault?_eq_none
    {values values' : List Expr} (h : declarationFault? constant ds values = none)
    (hds : ds'.length = ds.length) (hvalues : values'.length = values.length) :
    values' = [] ∧ (constant = true → ds' = []) ∨ values'.length = ds'.length := by
  unfold declarationFault? at h
  split at h
  · next hempty =>
    rw [List.isEmpty_iff.mp hempty, length_nil] at hvalues
    refine .inl ⟨eq_nil_of_length_eq_zero hvalues, ?_⟩
    rintro rfl
    cases ds with
    | nil => exact eq_nil_of_length_eq_zero hds
    | cons d ds => exact nomatch h
  · split at h
    · exact nomatch h
    · next hlength => exact .inr (hvalues.trans ((Decidable.not_not.mp hlength).trans hds.symm))

/-! ## statements -/

mutual

theorem Stmt.Accepted.typed {c c' : Context} {s s' : Stmt} (h : Stmt.Accepted c s c' s')
    (hc : c.scope.Records D) (hD : ∀ d ∈ s'.sites, d ∈ D) (hm : M ∨ s.Unmarked) :
    s'.Typed M D (c.scope.frame.function.map Signature.returns) ∧ Keeps D c c' := by
  match h with
  | .expression he => exact ⟨he.typed hc hm, hc, rfl⟩
  | .print he => exact ⟨he.typed hc hm, hc, rfl⟩
  | @Stmt.Accepted.declare _ _ constant ds ds' values values' ts hfault hvalues hds =>
    obtain ⟨us, hus, htypes⟩ := hvalues.types
    rw [nil_append] at hus
    subst hus
    have hsites : ∀ d ∈ ds', .variable constant d ∈ D :=
      fun d hd => hD _ (mem_map.mpr ⟨d, hd, rfl⟩)
    obtain ⟨hdeclared, hkeeps⟩ := hds.typed hc hsites htypes
    have hlengths := declarationFault?_eq_none hfault hds.length hvalues.length
    exact ⟨⟨hvalues.typed hc hm, hlengths, hdeclared⟩, hkeeps⟩
  | @Stmt.Accepted.assign _ targets targets' values values' ts us hlength htargets hvalues =>
    obtain ⟨htyped, htypes, hlength'⟩ := htargets.typed hc (hm.imp_right And.left)
    refine ⟨⟨htyped, hvalues.typed hc (hm.imp_right And.right), ?_⟩, hc, rfl⟩
    exact hvalues.valuesFit htypes (by rw [length_nil, Nat.zero_add, hlength', hlength])
  | @Stmt.Accepted.function _ c₁ c₂ h body body' ps ps₁ ps₂ params r hps hr hps₁ hps₂ hbody =>
    have hD' : ∀ d ∈ ps₂.map Site.parameter ++ bodySites body', d ∈ D :=
      fun d hd => hD d (mem_cons_of_mem _ hd)
    have hsites : ∀ p ∈ ps₂, .parameter p ∈ D :=
      fun p hp => hD' _ (mem_append_left _ (mem_map.mpr ⟨p, hp, rfl⟩))
    obtain ⟨hparameters, hkeeps⟩ := parameters_typed hc hc
      (hc.enter (some ⟨params, r, h.async⟩) false) hps hps₁ hps₂ hsites (hm.imp_right And.left)
    obtain ⟨htyped, _⟩ := hbody.typed hkeeps.records
      (fun d hd => hD' d (mem_append_right _ hd)) (hm.imp_right And.right)
    rw [hkeeps.around] at htyped
    exact ⟨⟨hparameters, r, FunctionHead.returns_of_returnType hc hr, htyped⟩, hc, rfl⟩
  | @Stmt.Accepted.classDef _ c₁ c₂ h h' body body' hhead hbody =>
    have hD' : ∀ d ∈ h'.parameters.map Site.parameter ++ bodySites body', d ∈ D :=
      fun d hd => hD d (mem_cons_of_mem _ hd)
    have hsites : ∀ p ∈ h'.parameters, .parameter p ∈ D :=
      fun p hp => hD' _ (mem_append_left _ (mem_map.mpr ⟨p, hp, rfl⟩))
    obtain ⟨hparameters, hkeeps⟩ := hhead.typed hc (hD _ mem_cons_self) hsites
      (hm.imp_right And.left)
    obtain ⟨htyped, hkeeps'⟩ := hbody.typed hkeeps.records
      (fun d hd => hD' d (mem_append_right _ hd)) (hm.imp_right And.right)
    rw [hkeeps.around] at htyped
    exact ⟨⟨hparameters, htyped⟩, hkeeps'.records, hkeeps'.around.trans hkeeps.around⟩
  | @Stmt.Accepted.conditional _ c₁ c₂ branches branches' otherwise otherwise' hbranches hotherwise =>
    obtain ⟨htyped, hkeeps⟩ := hbranches.typed hc (fun d hd => hD d (mem_append_left _ hd))
      (hm.imp_right And.left)
    obtain ⟨htyped', hkeeps'⟩ := hotherwise.typed hkeeps.records
      (fun d hd => hD d (mem_append_right _ hd)) (hm.imp_right And.right)
    rw [hkeeps.around] at htyped'
    exact ⟨⟨htyped, htyped'⟩, hkeeps'.records, hkeeps'.around.trans hkeeps.around⟩
  | @Stmt.Accepted.whileLoop _ c₁ condition condition' body body' hcondition hbody =>
    obtain ⟨htyped, _⟩ := hbody.typed (hc.enter c.scope.frame.function true) hD
      (hm.imp_right And.right)
    exact ⟨⟨hcondition.typed hc (hm.imp_right And.left), hcondition.type, htyped⟩, hc, rfl⟩
  | @Stmt.Accepted.forLoop _ c₁ c₂ h h' body body' hhead hbody =>
    obtain ⟨hhead', hkeeps⟩ := hhead.typed (hc.enter c.scope.frame.function true)
      (hD _ mem_cons_self) (hm.imp_right And.left)
    obtain ⟨htyped, _⟩ := hbody.typed hkeeps.records (fun d hd => hD d (mem_cons_of_mem _ hd))
      (hm.imp_right And.right)
    rw [hkeeps.around] at htyped
    exact ⟨⟨hhead', htyped⟩, hc, rfl⟩
  | @Stmt.Accepted.rangeLoop _ c₁ start start' stop stop' t u body body' hstart ht hstop hu hbody =>
    obtain ⟨htyped, _⟩ := hbody.typed (hc.enter c.scope.frame.function true) hD
      (hm.imp_right (·.2.2))
    exact ⟨⟨hstart.typed hc (hm.imp_right And.left), ⟨t, hstart.type, ht⟩,
      hstop.typed hc (hm.imp_right (·.2.1)), ⟨u, hstop.type, hu⟩, htyped⟩, hc, rfl⟩
  | @Stmt.Accepted.switch _ c₁ c₂ scrutinee scrutinee' t cases cases' otherwise otherwise' hscrutinee
      hcases hotherwise =>
    obtain ⟨htyped, hkeeps⟩ := hcases.typed hc (fun d hd => hD d (mem_append_left _ hd))
      (hm.imp_right (·.2.1))
    obtain ⟨htyped', hkeeps'⟩ := hotherwise.typed hkeeps.records
      (fun d hd => hD d (mem_append_right _ hd)) (hm.imp_right (·.2.2))
    rw [hkeeps.around] at htyped'
    exact ⟨⟨hscrutinee.typed hc (hm.imp_right And.left), htyped, htyped'⟩, hkeeps'.records,
      hkeeps'.around.trans hkeeps.around⟩
  | .breakLoop _ => exact ⟨trivial, hc, rfl⟩
  | .continueLoop _ => exact ⟨trivial, hc, rfl⟩
  | .returnValue hvalue => exact ⟨hvalue.typed hc hm, hc, rfl⟩
  | @Stmt.Accepted.block _ c₁ body body' hbody =>
    obtain ⟨htyped, _⟩ := hbody.typed
      (hc.enter c.scope.frame.function c.scope.frame.insideLoop) hD hm
    exact ⟨htyped, hc, rfl⟩

theorem EachAccepted.typed {c c' : Context} (h : EachAccepted c ss c' ss') (hc : c.scope.Records D)
    (hD : ∀ d ∈ bodySites ss', d ∈ D) (hm : M ∨ bodyUnmarked ss) :
    bodyTyped M D (c.scope.frame.function.map Signature.returns) ss' ∧ Keeps D c c' := by
  match h with
  | .nil => exact ⟨trivial, hc, rfl⟩
  | @EachAccepted.cons _ c₁ _ s s' ss ss' hs hss =>
    obtain ⟨htyped, hkeeps⟩ := hs.typed hc (fun d hd => hD d (mem_append_left _ hd))
      (hm.imp_right And.left)
    obtain ⟨htyped', hkeeps'⟩ := hss.typed hkeeps.records
      (fun d hd => hD d (mem_append_right _ hd)) (hm.imp_right And.right)
    exact ⟨⟨htyped, hkeeps.around ▸ htyped'⟩, hkeeps'.records, hkeeps'.around.trans hkeeps.around⟩

theorem BodyAccepted.typed {c c' : Context} {body body' : List Stmt} (h : BodyAccepted c body c' body')
    (hc : c.scope.Records D) (hD : ∀ d ∈ bodySites body', d ∈ D) (hm : M ∨ bodyUnmarked body) :
    bodyTyped M D (c.scope.frame.function.map Signature.returns) body' ∧ Keeps D c c' := by
  match h with
  | @BodyAccepted.intro _ c₁ _ _ hoisted _ hhoisted heach =>
    -- a function that is hoisted has its site in the finished body
    have hsites : ∀ head inner, .function head inner ∈ hoisted →
        ∃ head', .function head' ∈ D ∧ head.SameName head' := by
      intro head inner hmem
      obtain ⟨head', inner', hmem', hsame⟩ := heach.functions hmem
      exact ⟨head', hD _ (mem_bodySites.mpr ⟨_, hmem', mem_cons_self⟩), hsame⟩
    have hkeeps := hhoisted.keeps hc hsites
    obtain ⟨htyped, hkeeps'⟩ := heach.typed hkeeps.records hD (hm.imp_right hhoisted.unmarked)
    exact ⟨hkeeps.around ▸ htyped, hkeeps'.records, hkeeps'.around.trans hkeeps.around⟩

theorem BranchesAccepted.typed {c c' : Context} (h : BranchesAccepted c gs c' gs') (hc : c.scope.Records D)
    (hD : ∀ d ∈ branchSites gs', d ∈ D) (hm : M ∨ branchesUnmarked gs) :
    branchesTyped M D (c.scope.frame.function.map Signature.returns) gs' ∧ Keeps D c c' := by
  match h with
  | .nil => exact ⟨trivial, hc, rfl⟩
  | @BranchesAccepted.cons _ c₁ _ guard guard' body body' gs gs' hguard hbody hgs =>
    obtain ⟨htyped, _⟩ := hbody.typed (hc.enter c.scope.frame.function c.scope.frame.insideLoop)
      (fun d hd => hD d (mem_append_left _ hd)) (hm.imp_right (·.2.1))
    obtain ⟨htyped', hkeeps⟩ := hgs.typed hc (fun d hd => hD d (mem_append_right _ hd))
      (hm.imp_right (·.2.2))
    exact ⟨⟨hguard.typed hc (hm.imp_right And.left), hguard.type, htyped, htyped'⟩, hkeeps.records,
      hkeeps.around⟩

theorem OtherwiseAccepted.typed {c c' : Context} (h : OtherwiseAccepted c o c' o') (hc : c.scope.Records D)
    (hD : ∀ d ∈ otherwiseSites o', d ∈ D) (hm : M ∨ otherwiseUnmarked o) :
    otherwiseTyped M D (c.scope.frame.function.map Signature.returns) o' ∧ Keeps D c c' := by
  match h with
  | .none => exact ⟨trivial, hc, rfl⟩
  | .some hbody =>
    obtain ⟨htyped, _⟩ := hbody.typed
      (hc.enter c.scope.frame.function c.scope.frame.insideLoop) hD hm
    exact ⟨htyped, hc, rfl⟩

end

/-! ## programs -/

theorem bodyTyped_of_analyse (h : analyse Scope.root p = .ok q) (hm : M ∨ bodyUnmarked p) :
    bodyTyped M (bodySites q) none q := by
  obtain ⟨c, hbody⟩ := accepted_of_analyse h
  exact (hbody.typed (records_root.enter none false) (fun _ hd => hd) hm).1

/-- Accepted trees are well typed node by node, judged from their annotations alone, and no two sites
share an identity. -/
theorem analyse_types_every_node {p q : Program} (h : analyse Scope.root p = .ok q) :
    (siteIds q).Nodup ∧ bodyTyped (¬ bodyUnmarked p) (bodySites q) none q :=
  ⟨nodup_siteIds_of_analyse h, bodyTyped_of_analyse h (Classical.em _).symm⟩

/-- `class P(a: int?) { } { let x: int? = [2, 2][2]; f(2); fn f(n: int) -> P { return P(n); } }`: a value
in a nullable place, and a function that is called before its statement and returns an object -/
theorem analyse_types_every_node_class : let int := TypeTerm.named "int"
    let use (x : String) := Expr.name (.ofName x) none
    let ref (x : String) (id : DeclId) (t : Ty) := Expr.name ⟨x, some (.declared id)⟩ (some t)
    let two := fun t => Expr.literal (.integer 2) t
    let p : Program :=
      [.classDef ⟨"P", none, [⟨"a", .nullable int, none, none, none⟩]⟩ [],
       .block
         [.declare false [⟨"x", some (.nullable int), none, none⟩]
            [.subscript (.collection .array [two none, two none] none) (two none) none],
          .expression (.call (use "f") [two none] false false none),
          .function ⟨"f", none, [⟨"n", int, none, none, none⟩], some (.named "P"), false⟩
            [.returnValue (some (.call (use "P") [use "n"] false false none))]]]
    let q : Program :=
      [.classDef ⟨"P", some 1, [⟨"a", .nullable int, none, some 2, some (.nullable .int)⟩]⟩ [],
       .block
         [.declare false [⟨"x", some (.nullable int), some 4, some (.nullable .int)⟩]
            [.subscript (.collection .array [two (some .int), two (some .int)] (some (.array .int)))
              (two (some .int)) (some .int)],
          .expression (.call (ref "f" 3 (.function [⟨.int, false⟩] (.classOf 1 "P") false))
            [two (some .int)] false false (some (.classOf 1 "P"))),
          .function ⟨"f", some 3, [⟨"n", int, none, some 5, some .int⟩], some (.named "P"), false⟩
            [.returnValue (some (.call (ref "P" 1 (.classOf 1 "P")) [ref "n" 5 .int] false true
              (some (.classOf 1 "P"))))]]]
    analyse Scope.root p = .ok q ∧ (siteIds q).Nodup ∧ bodyTyped False (bodySites q) none q := by
  intro int use ref two p q
  have h : analyse Scope.root p = .ok q := by cbv
  have hp : bodyUnmarked p := by simp [p, use, two, bodyUnmarked, Stmt.Unmarked, Expr.Unmarked,
    Expr.allUnmarked, Parameter.Unmarked]
  obtain ⟨hids, htyped⟩ := analyse_types_every_node h
  rw [eq_false (not_not_intro hp)] at htyped
  exact ⟨h, hids, htyped⟩

end TypedScript
