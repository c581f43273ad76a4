import TypedScript.Proofs.InsertedFunctions

/-!
# Checking a tree again

What a successful check writes on a tree is what the next check writes there, so that the next check
succeeds and changes nothing.  The types of the parameters of a function are written twice, first when the
function is hoisted and then where it stands, and in between a class may have taken the name of another one:
the second time, hoisting can replace types by those that it found the first time (`Stmt.Retyped`).
-/

namespace TypedScript

/-! ## expressions -/

variable {s : Scope} {f : Signature}

theorem Scope.lookupVariable_of_find (h : s.findVariable? x = some b) : s.lookupVariable x = .ok b := by
  rw [Scope.lookupVariable, h]

theorem Signature.Allows.checkApplied {arguments arguments' : List Expr}
    (hf : f.Allows arguments.length awaited s.frame.function)
    (hall : Expr.checkAll s (argumentTest f.params) [] arguments = ⟨arguments', .ok ts⟩) (x : String)
    (slot : Option Ty) (callee : Expr) (constructs : Bool) :
    Expr.checkApplied s arguments awaited slot callee constructs ⟨x, f⟩
      = ⟨.call callee arguments' awaited constructs (some f.returns), .ok f.returns⟩ := by
  have hawait : Callee.awaitTest ⟨x, f⟩ awaited s.frame.function = .ok () := by
    unfold Callee.awaitTest
    rw [if_neg (not_not.mpr hf.awaits), if_neg]
    intro h
    rw [Bool.and_eq_true, Bool.not_eq_true'] at h
    exact absurd (hf.inside h.1) (Bool.not_eq_true _ ▸ h.2)
  simp only [Expr.checkApplied, Signature.arityTest_eq_ok_iff.mpr ⟨hf.enough, hf.notMore⟩, hall,
    Checked.andThen, hawait, Except.map, settle]

theorem Expr.Accepted.recheckCallee (h : Expr.Accepted s e e' t) (hcheck : e'.check s = ⟨e', .ok t⟩)
    (hf : t.signature? = some f) (constructs : Bool) :
    ∃ x, Expr.checkCallee s constructs e' = ⟨(e', constructs), .ok ⟨x, f⟩⟩ := by
  by_cases hname : ∃ x slot, e' = .name x slot
  · obtain ⟨x, slot, rfl⟩ := hname
    cases h with
    | @name x _ b hb => exact ⟨x.name, by simp only [Expr.checkCallee, Scope.callee, Symbol.resolved, hb, hf]⟩
  · exact ⟨e'.describe, by simp only [Expr.checkCallee_of_not_name hname, hcheck, Checked.andThen, hf]⟩

mutual

theorem Expr.Accepted.recheck {s : Scope} (h : Expr.Accepted s e e' t) : e'.check s = ⟨e', .ok t⟩ := by
  match h with
  | .literal => rw [Expr.check]
  | .name hb => simp only [Expr.check, Symbol.resolved, Scope.lookupVariable_of_find hb]
  | .binary hleft hright hresult =>
    simp only [Expr.check, hleft.recheck, hright.recheck, Checked.andThen, hresult, settle]
  | .unary hoperand hresult => simp only [Expr.check, hoperand.recheck, Checked.andThen, hresult, settle]
  | @Expr.Accepted.call _ callee callee' as as' awaited constructs slot t f ts hcallee hsig hf has =>
    obtain ⟨x, hx⟩ := hcallee.recheckCallee hcallee.recheck hsig constructs
    rw [Expr.check_call, hx]
    exact Signature.Allows.checkApplied (has.length ▸ hf) has.recheck x _ callee' constructs
  | @Expr.Accepted.construct _ x as as' awaited constructs slot slot' b f ts hnone hb hsig hf has =>
    have hx : Expr.checkCallee s true (.name (x.resolved b.resolution) (some b.type))
        = ⟨(.name (x.resolved b.resolution) (some b.type), true), .ok ⟨x.name, f⟩⟩ := by
      simp only [Expr.checkCallee, Scope.callee, Symbol.resolved, hnone, hb, hsig]
    rw [Expr.check_call, hx]
    exact Signature.Allows.checkApplied (has.length ▸ hf) has.recheck x.name _ _ true
  | .subscript hbase hindex hresult =>
    simp only [Expr.check, hbase.recheck, hindex.recheck, Checked.andThen, hresult, settle]
  | .member hobject hb =>
    simp only [Expr.check, hobject.recheck, Checked.andThen, Symbol.resolved, Scope.lookupVariable_of_find hb]
  | .collection hes | .dict hes => simp only [Expr.check, hes.recheck, Checked.andThen, settle]

theorem Expr.AcceptedAll.recheck {s : Scope} (h : Expr.AcceptedAll s test seen es es' ts) :
    Expr.checkAll s test seen es' = ⟨es', .ok ts⟩ := by
  match h with
  | .nil => rw [Expr.checkAll]
  | .cons he htest hes =>
    simp only [Expr.checkAll, he.recheck, Checked.andThen, htest, hes.recheck, Checked.map, Except.map, id]

theorem Expr.AcceptedEntries.recheck {s : Scope} (h : Expr.AcceptedEntries s first es es' last) :
    Expr.checkEntries s first es' = ⟨es', .ok last⟩ := by
  match h with
  | .nil => rw [Expr.checkEntries]
  | .cons hkey hvalue htest hes =>
    simp only [Expr.checkEntries, hkey.recheck, hvalue.recheck, Checked.andThen, htest, hes.recheck,
      Checked.map, Except.map, id]

end

/-! ## declarations -/

variable {c c' : Context} {constant : Bool} {ts : List Ty} {ds ds' : List Declarator}

theorem Declarator.rebind {d : Declarator} (ht : declaredType c.scope d.name d.written value = .ok t)
    (h : c.Lacks d.name) :
    (d.recorded c.nextId t).bind constant value c
      = .ok (c.declared d.name t (.variable constant)) (d.recorded c.nextId t) := by
  simp only [Declarator.recorded, Declarator.bind, ht, h.bind]

theorem DeclaratorsBound.rebind
    (h : DeclaratorsBound constant ds ts c ds' c') : bindDeclarators constant ds' ts c = .ok c' ds' := by
  induction h with
  | nil => rfl
  | cons ht hlacks _ ih =>
    simp only [bindDeclarators, Declarator.rebind ht hlacks, Step.andThen, Step.ok, ih, Step.map]

theorem DeclaratorsBound.declarationFault? (h : DeclaratorsBound constant ds ts c ds' c')
    {values values' : List Expr} (hlength : values'.length = values.length) :
    declarationFault? constant ds' values' = declarationFault? constant ds values := by
  have hfind (f : Declarator → Option Cause) (hf : ∀ d id t, f (d.recorded id t) = f d) :
      ds'.findSome? f = ds.findSome? f := by
    induction h with
    | nil => rfl
    | cons _ _ _ ih => rw [List.findSome?_cons, List.findSome?_cons, hf, ih]
  unfold TypedScript.declarationFault?
  rw [hfind _ fun _ _ _ => rfl]
  simp only [List.isEmpty_iff_length_eq_zero, hlength, h.length]

theorem TargetsAccepted.recheck (h : TargetsAccepted s es es' ts) :
    checkTargets s es' = ⟨es', .ok ts⟩ ∧ es'.length = es.length := by
  induction h with
  | nil => exact ⟨rfl, rfl⟩
  | @cons e e' es es' t ts htarget he hmember _ ih =>
    have hagain : targetFault? s e' = none := by
      cases he <;> first | exact htarget | exact nomatch htarget
    refine ⟨?_, congrArg Nat.succ ih.2⟩
    simp only [checkTargets, hagain, he.recheck, Checked.andThen, hmember, ih.1, Checked.map, Except.map]

/-! ## parameters -/

variable {ps ps' : List Parameter}

/-- the type and the default of a parameter are those of `q`, and both stay if they are found again -/
structure Parameter.Kept (s s' : Scope) (p : Parameter) (q : Param Ty) : Prop where
  resolves : p.written.resolve s = .ok q.type
  type : p.type = some q.type
  optional : p.default.isSome = q.optional
  default : ∀ e, p.default = some e → ∃ u, e.check s' = ⟨e, .ok u⟩ ∧ u.assignable q.type = true

theorem ParametersResolved.kept {params : List (Param Ty)} (h : ParametersResolved s ps ps' params)
    (h₁ : DefaultsAccepted s' ps' ps₁) (h₂ : ParametersBound ps₁ c ps₂ c') :
    List.Forall₂ (Parameter.Kept s s') ps₂ params := by
  induction h generalizing ps₁ ps₂ c with
  | nil =>
    cases h₁
    cases h₂
    exact .nil
  | cons ht _ ih =>
    cases h₁ with
    | required hdefault h₁ =>
      cases h₂ with
      | cons htype _ h₂ =>
        cases htype
        exact .cons ⟨ht, rfl, rfl, fun e he => nomatch hdefault.symm.trans he⟩ (ih h₁ h₂)
    | optional hdefault hexpected he hfits h₁ =>
      cases h₂ with
      | cons htype _ h₂ =>
        cases htype
        cases hexpected
        refine .cons ⟨ht, rfl, (congrArg Option.isSome hdefault).symm, fun e he' => ?_⟩ (ih h₁ h₂)
        cases he'
        exact ⟨_, he.recheck, hfits⟩

theorem ParametersBound.rebind (h : ParametersBound ps c ps' c') : bindParameters ps' c = .ok c' ps' := by
  induction h with
  | nil => rfl
  | cons ht hlacks _ ih =>
    simp only [bindParameters, Parameter.recorded, Parameter.bind, Parameter.typeIn, hlacks.bind,
      Step.andThen,
      Step.ok, ih, Step.map]

section

variable {s s' : Scope} {ps ps' qs : List Parameter} {params : List (Param Ty)}

theorem ParametersResolved.recorded (h : ParametersResolved s ps ps' params)
    (hqs : ParametersRecorded ps qs) :
    resolveParameters s qs = ⟨ps', .ok params⟩ := by
  induction h generalizing qs with
  | nil =>
    cases hqs
    rfl
  | cons ht _ ih =>
    cases hqs with
    | cons hq hqs =>
      obtain ⟨u, rfl⟩ := hq
      simp only [resolveParameters, ht, ih hqs, Checked.map, Except.map]

theorem ParametersResolved.again (h : ParametersResolved s ps ps' params)
    (hqs : qs.map Parameter.outline = ps.map Parameter.outline) :
    ∃ qs', resolveParameters s qs = ⟨qs', .ok params⟩ ∧ ParametersRecorded qs qs' := by
  induction h generalizing qs with
  | nil =>
    cases List.map_eq_nil_iff.mp hqs
    exact ⟨[], rfl, .nil⟩
  | @cons p ps ps' t params ht _ ih =>
    obtain ⟨q, qs, rfl, hq, hqs⟩ := List.map_eq_cons_iff.mp hqs
    obtain ⟨qs', hok, hrecorded⟩ := ih hqs
    obtain ⟨hwritten, hdefault⟩ := Prod.mk.inj hq
    refine ⟨_, ?_, .cons ⟨t, rfl⟩ hrecorded⟩
    simp only [resolveParameters, hwritten, ht, hok, Checked.map, Except.map, hdefault]

theorem resolveParameters_kept (h : List.Forall₂ (Parameter.Kept s s') ps params) :
    resolveParameters s ps = ⟨ps, .ok params⟩ := by
  induction h with
  | nil => rfl
  | cons hp _ ih =>
    simp only [resolveParameters, hp.resolves, ih, Checked.map, Except.map, ← hp.type, hp.optional]

theorem checkDefaults_kept (h : List.Forall₂ (Parameter.Kept s s') ps params) :
    checkDefaults s' ps = ⟨ps, .ok ()⟩ := by
  induction h with
  | nil => rfl
  | @cons p q ps params hp _ ih =>
    have hcheck : p.checkDefault s' = ⟨p, .ok ()⟩ := by
      have htype : p.typeIn s' = .ok q.type := by rw [Parameter.typeIn, hp.type]
      rw [Parameter.checkDefault, htype]
      cases hdefault : p.default with
      | none => rfl
      | some e =>
        obtain ⟨u, he, hfits⟩ := hp.default e hdefault
        simp only [he, Checked.andThen, if_pos hfits, ← hdefault]
    simp only [checkDefaults, hcheck, Checked.andThen, ih, Checked.map, Except.map, id]

end

theorem ClassDeclared.redeclare (hh : ClassDeclared h c h' c') : h'.declare c = .ok c' h' := by
  cases hh with
  | intro hps hlacks hs hps₁ hps₂ =>
    have hkept := hps.kept hps₁ hps₂
    subst hs
    unfold ClassHead.binding at *
    simp only [ClassHead.declare, Context.fresh, resolveParameters_kept hkept, Checked.step,
      Scope.declareClass, hlacks, checkDefaults_kept hkept, Context.inside, hps₂.rebind, Step.ok, Step.map]

/-! ## loops and returns -/

variable {e e' : Expr} {t : Ty}

theorem Expr.Accepted.recheckCondition (h : Expr.Accepted s e e' .bool)
    (construct : String) : checkCondition s construct e' = ⟨e', .ok ()⟩ := by
  simp only [checkCondition, h.recheck, Checked.andThen, if_pos]

theorem Expr.Accepted.recheckBound (h : Expr.Accepted s e e' t)
    (ht : t.isIntegral = true) : checkBound s e' = ⟨e', .ok ()⟩ := by
  simp only [checkBound, h.recheck, Checked.andThen, if_pos ht]

theorem UpdateAccepted.recheck (h : UpdateAccepted s t u u') : checkUpdate s t u' = ⟨u', .ok ()⟩ := by
  cases h with
  | increment | decrement => rfl
  | increase he | decrease he =>
    simp only [checkUpdate, checkUpdate.checkStep, he.recheck, Checked.andThen, if_pos]

theorem ForHead.Accepted.recheck (hh : ForHead.Accepted h c h' c') : h'.check c = .ok c' h' := by
  cases hh with
  | intro hinit hu hlacks hc htest hb hintegral hupdate =>
    subst hc
    simp only [ForHead.check, hinit.recheck, Checked.step, Declarator.rebind hu hlacks, Step.andThen, Step.ok,
      htest.recheckCondition, Symbol.resolved, Scope.lookupVariable_of_find hb, if_pos hintegral,
      hupdate.recheck]

theorem ReturnAccepted.recheck (h : ReturnAccepted s value value') :
    checkReturn s value' = ⟨value', .ok ()⟩ := by
  cases h with
  | none hf hfits => simp only [checkReturn, hf, if_pos hfits]
  | some hf hreturns he hfits =>
    simp only [checkReturn, hf, if_neg hreturns, he.recheck, Checked.andThen, if_pos hfits]

/-! ## statements -/

variable {s' : Stmt}

/-- the same statement up to the types of the parameters, if it is a function -/
inductive Stmt.Retyped : Stmt → Stmt → Prop
  | refl {s : Stmt} : Stmt.Retyped s s
  | function {h : FunctionHead} {ps : List Parameter} {body : List Stmt} :
    ParametersRecorded h.parameters ps →
    Stmt.Retyped (.function h body) (.function { h with parameters := ps } body)

theorem Stmt.Accepted.not_function {s : Stmt} (hs : Stmt.Accepted c s c' s')
    (h : ∀ head body, s ≠ .function head body) : ∀ head body, s' ≠ .function head body := by
  cases hs with
  | function => exact absurd rfl (h _ _)
  | _ =>
    intro _ _ heq
    cases heq

theorem Hoisted.rehoist (h : Hoisted body c hoisted c₁) (heach : EachAccepted c₂ hoisted c₃ body') :
    ∃ hoisted', hoist body' c = .ok c₁ hoisted' ∧ List.Forall₂ Stmt.Retyped body' hoisted' := by
  induction h generalizing c₂ body' with
  | nil =>
    cases heach
    exact ⟨[], rfl, .nil⟩
  | @function head body rest rest' c c' ps params r hps hr hlacks _ ih =>
    cases heach with
    | cons hs hss =>
      cases hs with
      | @function _ _ _ _ _ body' ps' ps₁ ps₂ params' r' hps' hr' hps₁ hps₂ hbody =>
        obtain ⟨hoisted', hrest, hretyped⟩ := ih hss
        have houtline := (hps₂.outline.trans (hps₁.outline.trans hps'.outline)).trans hps.outline
        obtain ⟨qs, hqs, hrecorded⟩ := hps.again houtline
        refine ⟨_, ?_, .cons (.function hrecorded) hretyped⟩
        unfold FunctionHead.returnType at hr
        simp only [hoist, FunctionHead.declare, FunctionHead.signature, hqs, Checked.andThen,
          FunctionHead.returnType, hr, Except.map, Checked.step, Signature.type, hlacks.bind, Step.ok,
          Step.andThen, hrest, Step.map]
  | other hs _ ih =>
    cases heach with
    | cons hs' hss =>
      obtain ⟨hoisted', hrest, hretyped⟩ := ih hss
      refine ⟨_ :: hoisted', ?_, .cons .refl hretyped⟩
      rw [hoist, hrest]
      · rfl
      · exact hs'.not_function hs

theorem Stmt.Retyped.check {s s₂ : Stmt} (h : Stmt.Retyped s s₂)
    (hs : s.check c = .ok c' s') : s₂.check c = .ok c' s' := by
  cases h with
  | refl => exact hs
  | @function head ps body hrecorded =>
    rw [Stmt.check] at hs ⊢
    obtain ⟨_, _, hsig, _⟩ := Checked.step_eq_ok hs
    obtain ⟨ps', params, hps, _⟩ := Checked.andThen_eq_ok hsig
    have hagain := (parametersResolved_of_resolve hps).recorded hrecorded
    simp only [FunctionHead.signature, hps, hagain] at hs ⊢
    exact hs

mutual

theorem Stmt.Accepted.recheck {c c' : Context} {s s' : Stmt} (h : Stmt.Accepted c s c' s')
    (hs : s'.Retyped s₂) : s₂.check c = .ok c' s' := by
  refine hs.check ?_
  match h with
  | .expression he | .print he => simp only [Stmt.check, he.recheck, Checked.step]
  | .declare hfault hvalues hds =>
    simp only [Stmt.check, (hds.declarationFault? hvalues.length).trans hfault, Expr.checkEach,
      hvalues.recheck,
      Checked.step, hds.rebind, Step.map, Step.ok]
  | .assign hlength htargets hvalues =>
    obtain ⟨hcheck, hsame⟩ := htargets.recheck
    simp only [Stmt.check, if_neg (not_not.mpr (hsame.trans (hlength.trans hvalues.length.symm))), hcheck,
      hvalues.recheck, Checked.step]
  | @Stmt.Accepted.function _ c₁ c₂ head body body' ps ps₁ ps₂ params r hps hr hps₁ hps₂ hbody =>
    have hkept := hps.kept hps₁ hps₂
    unfold FunctionHead.returnType at hr
    simp only [Stmt.check, FunctionHead.signature, resolveParameters_kept hkept, Checked.andThen,
      FunctionHead.returnType, hr, Except.map, Checked.step, checkDefaults_kept hkept, Context.inside,
      hps₂.rebind, Step.andThen, Step.ok, hbody.recheck, Step.map]
  | .classDef hhead hbody =>
    simp only [Stmt.check, hhead.redeclare, Step.andThen, Step.ok, hbody.recheck, Step.map]
  | .conditional hbranches .none => simp only [Stmt.check, hbranches.recheck, Step.ok, Step.map]
  | .conditional hbranches (.some hbody) =>
    simp only [Stmt.check, hbranches.recheck, Step.andThen, Step.ok, Context.inside, hbody.recheck, Step.map,
      Function.comp]
  | .whileLoop he hbody =>
    simp only [Stmt.check, he.recheckCondition, Checked.step, Context.inside, hbody.recheck,
      Step.ok, Step.map]
  | .forLoop hhead hbody =>
    simp only [Stmt.check, Context.inside, hhead.recheck, Step.andThen, Step.ok, hbody.recheck, Step.map]
  | .rangeLoop hstart ht hstop hu hbody =>
    simp only [Stmt.check, hstart.recheckBound ht, hstop.recheckBound hu, Checked.step, Context.inside,
      hbody.recheck, Step.ok, Step.map]
  | .switch he hcases .none =>
    simp only [Stmt.check, he.recheck, Checked.step, hcases.recheck, Step.ok, Step.map]
  | .switch he hcases (.some hbody) =>
    simp only [Stmt.check, he.recheck, Checked.step, hcases.recheck, Step.andThen, Step.ok, Context.inside,
      hbody.recheck, Step.map, Function.comp]
  | .breakLoop hloop | .continueLoop hloop => simp only [Stmt.check, if_pos hloop]
  | .returnValue hvalue => simp only [Stmt.check, hvalue.recheck, Checked.step]
  | .block hbody => simp only [Stmt.check, Context.inside, hbody.recheck, Step.ok, Step.map]

theorem EachAccepted.recheck {c c' : Context} (h : EachAccepted c ss c' ss')
    (hss : List.Forall₂ Stmt.Retyped ss' ss₂) : checkEach ss₂ c = .ok c' ss' := by
  match h, hss with
  | .nil, .nil => rw [checkEach]
  | .cons hs hss, .cons hr hrs =>
    simp only [checkEach, hs.recheck hr, Step.andThen, Step.ok, hss.recheck hrs, Step.map]

theorem BodyAccepted.recheck {c c' : Context} (h : BodyAccepted c body c' body') :
    checkBody body' c = .ok c' body' := by
  match h with
  | .intro hhoisted heach =>
    obtain ⟨hoisted, hhoist, hretyped⟩ := hhoisted.rehoist heach
    rw [checkBody_eq, hhoist]
    exact heach.recheck hretyped

theorem BranchesAccepted.recheck {c c' : Context} (h : BranchesAccepted c gs c' gs') :
    checkBranches construct gs' c = .ok c' gs' := by
  match h with
  | .nil => rw [checkBranches]
  | .cons he hbody hgs =>
    simp only [checkBranches, he.recheckCondition, Checked.step, Context.inside, hbody.recheck, Step.andThen,
      Step.ok, hgs.recheck, Step.map]

end

/-- Checking an analysed program again in the same root succeeds and leaves the tree exactly as it is. -/
theorem analyse_idempotent {root : Scope} {p q : Program} (h : analyse root p = .ok q) :
    analyse root q = .ok q := by
  obtain ⟨c, hbody⟩ := accepted_of_analyse h
  rw [analyse, checkProgram, hbody.recheck]
  rfl

/-- `class A { } { class A { } fn f(a: A) { } }`: when `f` is hoisted, the inner class is not yet declared -/
theorem analyse_idempotent_hidden : let inner := Ty.classOf 3 "A"
    let p : Program := [.classDef ⟨"A", none, []⟩ [],
      .block [.classDef ⟨"A", none, []⟩ [],
        .function ⟨"f", none, [⟨"a", .named "A", none, none, none⟩], none, false⟩ []]]
    let q : Program := [.classDef ⟨"A", some 1, []⟩ [],
      .block [.classDef ⟨"A", some 3, []⟩ [],
        .function ⟨"f", some 2, [⟨"a", .named "A", none, some 4, some inner⟩], none, false⟩ []]]
    analyse Scope.root p = .ok q ∧ analyse Scope.root q = .ok q := by
  intro inner p q
  have h : analyse Scope.root p = .ok q := by cbv
  exact ⟨h, analyse_idempotent h⟩

end TypedScript
