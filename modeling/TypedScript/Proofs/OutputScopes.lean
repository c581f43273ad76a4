import TypedScript.Proofs.LoweredWords

/-!
# Scopes of compiled programs

The blocks of a script are not those of its program: the cases of a switch share one, the body of a class
has none, and the functions of a block are seen from its start.  Still a place in the script sees all
that the check finds at that place, and a place that may wait lies in the body of an asynchronous
function.
-/

namespace TypedScript

open Script (View Occurrence Region AllSound bodyOccurrences bodyBinds declaredFunctions)
open List

variable {ν : DeclId → String}

/-! ## seen scopes -/

/-- all that the scope finds is in scope at a place, and if the scope may wait, the place lies in the
body of an asynchronous function -/
structure Scope.SeenFrom (ν : DeclId → String) (v : View) (s : Scope) : Prop where
  covered : s.Covered ν v.scope
  async : s.frame.function.any (·.async) = true → v.around.head? = some (.body true)

namespace Scope

variable {s : Scope} {v v' : View}
variable {r : Resolution} {x : String}

theorem finds_defineVariable (h : (s.defineVariable x b).Finds r) : r = b.resolution ∨ s.Finds r := by
  rcases h with ⟨y, b', hb', rfl⟩ | hclass
  · rw [findVariable?_defineVariable] at hb'
    split at hb'
    · cases hb'
      exact .inl rfl
    · exact .inr (finds_variable hb')
  · exact .inr (.inr hclass)

theorem finds_defineClass (h : (s.defineClass x b).Finds r) : r = b.resolution ∨ s.Finds r := by
  rcases h with hvariable | ⟨y, b', hb', rfl⟩
  · exact .inr (.inl hvariable)
  · rw [findClass?_defineClass] at hb'
    split at hb'
    · cases hb'
      exact .inl rfl
    · exact .inr (.inr ⟨y, b', hb', rfl⟩)

namespace SeenFrom

variable {id : DeclId}

theorem mayAwait (h : s.SeenFrom ν v) : s.frame.function.any (·.async) = true → MayAwait v.around :=
  fun hasync => .inl (h.async hasync)

theorem mayAwait_params (h : s.SeenFrom ν v) (a : Bool) (hasync : s.frame.function.any (·.async) = true) :
    MayAwait (v.inside (.params a)).around := by
  have hbody := h.async hasync
  refine .inr ⟨a, ?_⟩
  show (Region.params a :: v.around).take 2 = _
  cases haround : v.around with
  | nil => rw [haround] at hbody; exact nomatch hbody
  | cons r rs =>
    rw [haround] at hbody
    cases hbody
    rfl

theorem mono (h : s.SeenFrom ν v) (hscope : v.scope ⊆ v'.scope) (haround : v'.around = v.around) :
    s.SeenFrom ν v' :=
  ⟨h.covered.mono hscope, haround ▸ h.async⟩

theorem bind (h : s.SeenFrom ν v) (x : String) : s.SeenFrom ν (v.bind x) :=
  h.mono (subset_cons_self x v.scope) rfl

theorem bindAll (h : s.SeenFrom ν v) (xs : List String) : s.SeenFrom ν (v.bindAll xs) :=
  h.mono (subset_append_right _ _) rfl

theorem block (h : s.SeenFrom ν v) (functions : List String) : s.SeenFrom ν (v.block functions) :=
  h.mono (subset_append_right _ _) rfl

theorem enterBlock (h : s.SeenFrom ν v) : s.enterBlock.SeenFrom ν v := ⟨h.covered, h.async⟩

theorem enterLoop (h : s.SeenFrom ν v) : s.enterLoop.SeenFrom ν v := ⟨h.covered, h.async⟩

theorem enterFunction (h : s.SeenFrom ν v) (f : Signature) :
    (s.enterFunction f).SeenFrom ν (v.inside (.body f.async)) :=
  ⟨h.covered, fun hasync => congrArg (fun a => some (Region.body a)) hasync⟩

theorem defineVariable (h : s.SeenFrom ν v) (hid : ν id ∈ v.scope) (x : String) (t : Ty)
    (kind : BindingKind) : (s.defineVariable x ⟨.declared id, t, kind⟩).SeenFrom ν v := by
  refine ⟨fun r hr hunderscore => ?_, h.async⟩
  rcases finds_defineVariable hr with rfl | hr
  · exact hid
  · exact h.covered r hr hunderscore

theorem defineClass (h : s.SeenFrom ν v) (hid : ν id ∈ v.scope) (head : ClassHead)
    (params : List (Param Ty)) : (s.defineClass head.name (head.binding id params)).SeenFrom ν v := by
  refine ⟨fun r hr hunderscore => ?_, h.async⟩
  rcases finds_defineClass hr with rfl | hr
  · exact hid
  · exact h.covered r hr hunderscore

theorem declared {c : Context} (h : c.scope.SeenFrom ν v) (x : String) (t : Ty) (kind : BindingKind) :
    (c.declared x t kind).scope.SeenFrom ν (v.bind (ν c.nextId)) :=
  (h.bind (ν c.nextId)).defineVariable mem_cons_self x t kind

end SeenFrom

theorem seenFrom_root (v : View) : Scope.root.SeenFrom ν v := by
  refine ⟨fun r hr hunderscore => ?_, nofun⟩
  rcases hr with ⟨x, b, hb, rfl⟩ | ⟨x, b, hb, rfl⟩
  · cases (records_root (D := [])).vars x b hb with
    | «variable» hd | parameter hd | function hd => exact nomatch hd
    | @builtin b hmem _ =>
      have hnatives : ∀ b ∈ builtins, '_' ∉ b.native.toList := by decide
      exact absurd hunderscore (hnatives b hmem)
  · cases (records_root (D := [])).classes x b hb with
    | declared hd => exact nomatch hd
    | primitive hmem =>
      have hprimitives : ∀ p ∈ primitives, '_' ∉ p.1.toList := by decide
      exact absurd hunderscore (hprimitives _ hmem)

end Scope

/-! ## expressions -/

section

variable {s : Scope} {v : View}

theorem Expr.Accepted.soundFrom (h : Expr.Accepted s e e' t) (hseen : s.SeenFrom ν v)
    (hlegible : (e'.named ν).Legible) : AllSound (v.at (e'.named ν).words) :=
  h.sound hseen.covered hseen.mayAwait hlegible

theorem Expr.AcceptedAll.soundFrom (h : Expr.AcceptedAll s test seen es es' ts) (hseen : s.SeenFrom ν v)
    (hlegible : Script.Expr.AllLegible (Expr.allNamed ν es')) :
    AllSound (v.at (Script.Expr.allWords (Expr.allNamed ν es'))) :=
  h.sound hseen.covered hseen.mayAwait hlegible

end

/-! ## declarations -/

variable {v : View}
variable {c c' : Context} {ps ps' : List Parameter} {s : Scope}

theorem DeclaratorsBound.seenFrom (h : DeclaratorsBound constant ds ts c ds' c')
    (hseen : c.scope.SeenFrom ν v) : c'.scope.SeenFrom ν (v.bindAll (ds'.map (Declarator.label ν))) := by
  induction h generalizing v with
  | nil => exact hseen.bindAll []
  | cons _ _ _ ih =>
    rw [map_cons, View.bindAll_cons]
    exact ih (hseen.declared _ _ _)

theorem ParametersBound.seenFrom (h : ParametersBound ps c ps' c') (hseen : c.scope.SeenFrom ν v) :
    c'.scope.SeenFrom ν (v.bindAll ((ps'.map (Parameter.named ν)).map Script.Param.name)) := by
  induction h generalizing v with
  | nil => exact hseen.bindAll []
  | cons _ _ _ ih =>
    rw [map_cons, map_cons, View.bindAll_cons]
    exact ih (hseen.declared _ _ _)

theorem DefaultsAccepted.accepted (h : DefaultsAccepted s ps ps') :
    ∀ p ∈ ps', ∀ e ∈ p.default, ∃ e₀ t, Expr.Accepted s e₀ e t := by
  induction h with
  | nil => exact nofun
  | required hdefault _ ih =>
    refine forall_mem_cons.mpr ⟨fun e he => ?_, ih⟩
    rw [hdefault] at he
    exact nomatch he
  | optional _ _ haccepted _ _ ih =>
    refine forall_mem_cons.mpr ⟨?_, ih⟩
    rintro e ⟨⟩
    exact ⟨_, _, haccepted⟩

theorem ParametersBound.default_eq
    (h : ParametersBound ps c ps' c') : ps'.map Parameter.default = ps.map Parameter.default := by
  induction h with
  | nil => rfl
  | cons _ _ _ ih => exact congrArg (_ :: ·) ih

theorem sound_params (h : ∀ p ∈ ps, ∀ e ∈ p.default, ∃ e₀ t, Expr.Accepted s e₀ e t)
    (hlegible : ∀ p ∈ ps.map (Parameter.named ν), p.Legible) (hcovered : s.Covered ν v.scope)
    (hasync : s.frame.function.any (·.async) = true → MayAwait v.around) :
    AllSound (Script.paramOccurrences v (ps.map (Parameter.named ν))) := by
  induction ps generalizing v with
  | nil => exact Script.allSound_nil
  | cons p ps ih =>
    obtain ⟨hp, hps⟩ := forall_mem_cons.mp h
    obtain ⟨hlegible, hrest⟩ := forall_mem_cons.mp hlegible
    have hbound : s.Covered ν (v.bind (p.named ν).name).scope :=
      hcovered.mono (subset_cons_self _ _)
    have hdefault : AllSound ((v.bind (p.named ν).name).at
        ((p.named ν).default.elim [] Script.Expr.words)) := by
      have hdefaultLegible := hlegible.default
      unfold Parameter.named at hdefaultLegible ⊢
      cases hd : p.default with
      | none => exact Script.allSound_nil
      | some e =>
        rw [hd] at hdefaultLegible
        obtain ⟨e₀, t, he⟩ := hp e hd
        exact he.sound hbound hasync (hdefaultLegible _ rfl)
    exact hdefault.append (ih hps hrest hbound hasync)

theorem parameters_sound (hdefaults : DefaultsAccepted s ps ps₁) (hbound : ParametersBound ps₁ c ps₂ c')
    (hseen : s.SeenFrom ν v) (hlegible : ∀ p ∈ ps₂.map (Parameter.named ν), p.Legible) (async : Bool) :
    AllSound (Script.paramOccurrences (v.inside (.params async)) (ps₂.map (Parameter.named ν))) := by
  refine sound_params (fun p hp => ?_) hlegible hseen.covered (hseen.mayAwait_params async)
  have hmem : p.default ∈ ps₁.map Parameter.default :=
    hbound.default_eq ▸ mem_map_of_mem hp
  obtain ⟨p₁, hp₁, hdefault⟩ := mem_map.mp hmem
  exact hdefault ▸ hdefaults.accepted p₁ hp₁

/-! ## functions of a body -/

variable {body ss ss' : List Stmt}

theorem Hoisted.seenFrom (h : Hoisted body c hoisted c') (hseen : c.scope.SeenFrom ν v)
    (hfunctions : methodLabels ν hoisted ⊆ v.scope) : c'.scope.SeenFrom ν v := by
  induction h with
  | nil => exact hseen
  | function _ _ _ _ ih =>
    obtain ⟨hfirst, hrest⟩ := cons_subset.mp hfunctions
    exact ih (hseen.defineVariable hfirst _ _ _) hrest
  | @other s rest rest' c c' hs _ ih =>
    refine ih hseen ?_
    cases s with
    | function head inner => exact absurd rfl (hs head inner)
    | _ => exact hfunctions

theorem Stmt.Accepted.methodLabels_cons {s s' : Stmt} (h : Stmt.Accepted c s c' s')
    (hrest : methodLabels ν ss' = methodLabels ν ss) :
    methodLabels ν (s' :: ss') = methodLabels ν (s :: ss) := by
  cases h with
  | function => exact congrArg (_ :: ·) hrest
  | _ => exact hrest

theorem EachAccepted.methodLabels_eq
    (h : EachAccepted c ss c' ss') : methodLabels ν ss' = methodLabels ν ss := by
  induction ss generalizing c ss' with
  | nil =>
    cases h
    rfl
  | cons s ss ih =>
    cases h with
    | cons hs hss => exact hs.methodLabels_cons (ih hss)

theorem BodyLowers.methodLabels_subset {ss : List Script.Stmt}
    (h : BodyLowers ν body ss) : methodLabels ν body ⊆ declaredFunctions ss := by
  induction body generalizing ss with
  | nil => exact nil_subset _
  | cons s body ih =>
    cases h with
    | cons hs hbody =>
      have hrest := ih hbody
      rw [Script.declaredFunctions_append]
      cases hs with
      | function _ => exact cons_subset_cons _ hrest
      | _ => exact subset_append_of_subset_right _ hrest

theorem BodyLowers.fieldLabels_subset {ss : List Script.Stmt}
    (h : BodyLowers ν body ss) : fieldLabels ν body ⊆ bodyBinds ss := by
  induction body generalizing ss with
  | nil => exact nil_subset _
  | cons s body ih =>
    cases h with
    | cons hs hbody =>
      have hrest := ih hbody
      unfold bodyBinds
      rw [flatMap_append]
      cases hs with
      | declare =>
        exact append_subset.mpr
          ⟨subset_append_of_subset_left _ (subset_append_left _ _),
            subset_append_of_subset_right _ hrest⟩
      | _ => exact subset_append_of_subset_right _ hrest

/-! ## lists of statements -/

theorem Script.bodyOccurrences_append (v : View) (ss ts : List Script.Stmt) :
    bodyOccurrences v (ss ++ ts) = bodyOccurrences v ss ++ bodyOccurrences (v.bindAll (bodyBinds ss)) ts := by
  induction ss generalizing v with
  | nil => rfl
  | cons s ss ih =>
    have hbinds : bodyBinds (s :: ss) = s.binds ++ bodyBinds ss := flatMap_cons
    rw [cons_append, Script.bodyOccurrences, Script.bodyOccurrences, ih, hbinds, View.bindAll_append,
      append_assoc]

/-- the words of the statements are sound at a place, and behind them the scope is seen -/
structure Leads (ν : DeclId → String) (v : View) (ss : List Script.Stmt) (s : Scope) : Prop where
  sound : AllSound (bodyOccurrences v ss)
  after : s.SeenFrom ν (v.bindAll (bodyBinds ss))

theorem Leads.append {ss ts : List Script.Stmt} (h : Leads ν v ss s)
    (h' : Leads ν (v.bindAll (bodyBinds ss)) ts s') : Leads ν v (ss ++ ts) s' := by
  have hbinds : bodyBinds (ss ++ ts) = bodyBinds ss ++ bodyBinds ts := flatMap_append
  refine ⟨?_, ?_⟩
  · rw [Script.bodyOccurrences_append]
    exact h.sound.append h'.sound
  · rw [hbinds, View.bindAll_append]
    exact h'.after

theorem Leads.nil (h : s.SeenFrom ν v) : Leads ν v [] s := ⟨Script.allSound_nil, h.bindAll []⟩

theorem Leads.one {t : Script.Stmt} (hsound : AllSound (t.occurrences v))
    (hafter : s.SeenFrom ν v) : Leads ν v [t] s := by
  refine ⟨?_, hafter.bindAll _⟩
  rw [Script.bodyOccurrences, Script.bodyOccurrences, append_nil]
  exact hsound

/-! ## parts of statements -/

variable {ws : List String}

theorem Script.AllSound.fixed (h : AllSound (v.at ws))
    (hw : w ∉ Script.keywords ∧ w ≠ "await" ∧ '_' ∉ w.toList) : AllSound (v.at (w :: ws)) :=
  .word (Occurrence.sound_inert ⟨hw.1, hw.2.1, hw.2.2⟩) h

theorem Script.AllSound.name {w : String} (h : AllSound (v.at ws))
    (hname : Script.IsName w) (hw : w ∈ v.scope) : AllSound (v.at (w :: ws)) :=
  .word (Occurrence.sound_name hname fun _ => hw) h

theorem UpdateAccepted.sound (h : UpdateAccepted s t u u') (hseen : s.SeenFrom ν v)
    (hlegible : Script.updateLegible (Update.named ν u')) (htarget : Occurrence.Sound ⟨v, target⟩) :
    AllSound (v.at (Script.updateWords target (Update.named ν u'))) := by
  cases h with
  | increment | decrement => exact .word htarget (Script.allSound_at_nil v)
  | increase he | decrease he => exact .word htarget (he.soundFrom hseen hlegible)

theorem ReturnAccepted.sound (h : ReturnAccepted s value value') (hseen : s.SeenFrom ν v)
    (hlegible : ∀ e ∈ value'.map (Expr.named ν), e.Legible) :
    AllSound ((Script.Stmt.returnValue (value'.map (Expr.named ν))).occurrences v) := by
  cases h with
  | none => exact (Script.allSound_at_nil v).fixed (by decide)
  | some _ _ he _ => exact (he.soundFrom hseen (hlegible _ rfl)).fixed (by decide)

theorem ForHead.Accepted.sound {h h' : ForHead} (hh : ForHead.Accepted h c h' c')
    (hseen : c.scope.SeenFrom ν v) (hinit : (h'.init.named ν).Legible) (htest : (h'.test.named ν).Legible)
    (htarget : Script.IsName (h'.target.label ν))
    (hupdate : Script.updateLegible (Update.named ν h'.update)) :
    AllSound ((v.bind (h'.index.label ν)).at ((h'.init.named ν).words ++ ((h'.test.named ν).words ++
      Script.updateWords (h'.target.label ν) (Update.named ν h'.update)))) ∧
    c'.scope.SeenFrom ν (v.bind (h'.index.label ν)) := by
  cases hh with
  | @intro init test t u c₁ b update hinitAccepted _ _ hc₁ htestAccepted hb _ hupdateAccepted =>
    subst hc₁
    have hinside := hseen.declared h.index.name u (.variable false)
    have houtside := hseen.bind (ν c.nextId)
    refine ⟨.words (hinitAccepted.soundFrom houtside hinit)
      (.words (htestAccepted.soundFrom hinside htest)
        (hupdateAccepted.sound hinside hupdate ?_)), hinside⟩
    exact Occurrence.sound_name htarget (hinside.covered.symbol rfl (Scope.finds_variable hb))

theorem sound_members {fields methods : List String}
    (hparams : AllSound (Script.paramOccurrences (v.inside (.params false)) params))
    (hlegible : Script.BodyLegible (.constructor name params fields :: methods.map (.attach name)))
    (hname : name ∈ v.scope) (hfields : fields ⊆ v.scope) (hmethods : methods ⊆ v.scope) :
    AllSound (bodyOccurrences v (.constructor name params fields :: methods.map (.attach name))) := by
  obtain ⟨⟨hisName, _, hfieldNames⟩, hattached⟩ := hlegible
  have hthis : ∀ w : View, (∀ f ∈ fields, f ∈ w.scope) →
      AllSound (w.at (fields.flatMap fun f => ["this", f, f])) := by
    intro w hw
    clear hfields
    induction fields with
    | nil => exact Script.allSound_nil
    | cons f fields ih =>
      obtain ⟨hf, hfs⟩ := forall_mem_cons.mp hw
      obtain ⟨hfName, hfsNames⟩ := forall_mem_cons.mp hfieldNames
      have hrest := ih hfsNames hfs
      exact ((hrest.name hfName hf).name hfName hf).fixed (by decide)
  refine (hparams.append (hthis _ fun f hf => mem_append_right _ (hfields hf))).append ?_
  clear hthis
  induction methods with
  | nil => exact Script.allSound_nil
  | cons m methods ih =>
    obtain ⟨hm, hms⟩ := cons_subset.mp hmethods
    have hattach : AllSound (v.at [name, "prototype", m, m]) :=
      ((((Script.allSound_at_nil v).name hattached.1.2 hm).name hattached.1.2 hm).fixed (by decide)).name
        hisName hname
    exact hattach.append (ih hms hattached.2)

theorem ClassDeclared.seenFrom (hh : ClassDeclared h c h' c') (hseen : c.scope.SeenFrom ν v)
    (hname : h'.label ν ∈ v.scope) (hlegible : ∀ p ∈ h'.parameters.map (Parameter.named ν), p.Legible) :
    c'.scope.SeenFrom ν v ∧ ∀ w : View, v.scope ⊆ w.scope → w.around = v.around →
      AllSound (Script.paramOccurrences (w.inside (.params false))
        (h'.parameters.map (Parameter.named ν))) := by
  cases hh with
  | @intro ps ps₁ ps₂ params s c₂ _ _ hs hdefaults hbound =>
    subst hs
    have hinside := hseen.defineClass hname h params
    exact ⟨hinside, fun w hscope haround =>
      parameters_sound hdefaults hbound (hinside.mono hscope haround) hlegible false⟩

/-! ## statements -/

theorem bodyLegible_split {ss ts : List Script.Stmt} (h : Script.BodyLegible (ss ++ ts)) :
    Script.BodyLegible ss ∧ Script.BodyLegible ts := by
  induction ss with
  | nil => exact ⟨trivial, h⟩
  | cons s ss ih =>
    obtain ⟨hss, hts⟩ := ih h.2
    exact ⟨⟨h.1, hss⟩, hts⟩

theorem leads_evaluation (h : Expr.Accepted c.scope e e' t) (hseen : c.scope.SeenFrom ν v)
    (hlegible : Script.BodyLegible (Stmt.lower.evaluation scrutinee (e'.named ν))) :
    Leads ν v (Stmt.lower.evaluation scrutinee (e'.named ν)) c.scope := by
  unfold Stmt.lower.evaluation at hlegible ⊢
  split
  · exact .nil hseen
  · next hatom =>
    rw [if_neg hatom] at hlegible
    exact .one (h.soundFrom hseen hlegible.1) hseen

theorem words_less (x : String) (e : Script.Expr) :
    (Script.Expr.binary .less (.ident x) e).words = x :: e.words := by
  simp [Script.Expr.words, Script.Expr.nodes, Script.wordsOf, Script.Node.words]

mutual

theorem Stmt.Accepted.leads {c c' : Context} {s s' : Stmt} {ss : List Script.Stmt} {v : View}
    (h : Stmt.Accepted c s c' s') (hlowers : s'.Lowers ν ss) (hlegible : Script.BodyLegible ss)
    (hseen : c.scope.SeenFrom ν v) (hfunctions : declaredFunctions ss ⊆ v.scope) : Leads ν v ss c'.scope := by
  match h, hlowers with
  | .expression he, .expression =>
    exact .one (he.soundFrom hseen hlegible.1) hseen
  | .print he, .print =>
    have hvalue := he.soundFrom hseen hlegible.1
    exact .one ((hvalue.fixed (by decide)).fixed (by decide)) hseen
  | .declare _ hvalues hds, .declare =>
    refine ⟨?_, ?_⟩
    · rw [Script.bodyOccurrences, Script.bodyOccurrences, append_nil]
      exact hvalues.soundFrom (hseen.bindAll _) hlegible.1.2
    · have hbinds := hds.seenFrom hseen
      rw [← append_nil (List.map _ _)] at hbinds
      exact hbinds
  | .assign _ htargets hvalues, .assign =>
    exact .one (.words (htargets.sound hseen.covered hseen.mayAwait hlegible.1.1)
      (hvalues.soundFrom hseen hlegible.1.2)) hseen
  | .function _ _ hdefaults hbound hbody, .function hlowers =>
    obtain ⟨⟨_, hparams, hlegible⟩, _⟩ := hlegible
    have hinside := hbound.seenFrom (hseen.enterFunction _)
    have hinner := hbody.leads hlowers hlegible (hinside.block _) (subset_append_left _ _)
    exact .one ((parameters_sound hdefaults hbound hseen hparams _).append hinner.sound) hseen
  | .classDef hhead hbody, .classDef hlowers =>
    obtain ⟨hlegible, hmembers⟩ := bodyLegible_split hlegible
    rw [Script.declaredFunctions_append] at hfunctions
    obtain ⟨hfunctions, hname⟩ := append_subset.mp hfunctions
    have hname := hname mem_cons_self
    obtain ⟨hinside, hparams⟩ := hhead.seenFrom hseen hname hmembers.1.2.1
    have hinner := hbody.leads hlowers hlegible hinside hfunctions
    refine hinner.append ⟨?_, hinner.after.bindAll _⟩
    have hscope : ∀ xs, v.scope ⊆ (v.bindAll xs).scope := fun xs => subset_append_right _ _
    refine sound_members (hparams _ (hscope _) rfl) hmembers (hscope _ hname) ?_ ?_
    · exact fun f hf =>
        mem_append_left _ (mem_reverse.mpr (hlowers.fieldLabels_subset hf))
    · exact fun m hm => hscope _ (hfunctions (hlowers.methodLabels_subset hm))
  | .conditional hbranches hotherwise, .conditional hgs ho =>
    obtain ⟨⟨_, hgsLegible, hoLegible⟩, _⟩ := hlegible
    have hbetween := hbranches.scope_eq ▸ hseen
    have hif : AllSound (v.at ["if"]) := (Script.allSound_at_nil v).fixed (by decide)
    refine .one ?_ (hotherwise.scope_eq ▸ hbetween)
    exact (hbranches.sound_branches hgs hgsLegible hseen hif).append
      (hotherwise.sound ho hoLegible hbetween)
  | .whileLoop hcondition hbody, .whileLoop hlowers =>
    obtain ⟨⟨hconditionLegible, hlegible⟩, _⟩ := hlegible
    have hinner := hbody.leads hlowers hlegible (hseen.enterLoop.block _) (subset_append_left _ _)
    have hheader := hcondition.soundFrom hseen hconditionLegible
    exact .one ((hheader.fixed (by decide)).append hinner.sound) hseen
  | .forLoop hhead hbody, .forLoop hlowers =>
    obtain ⟨⟨_, hinit, htest, htarget, hupdate, hlegible⟩, _⟩ := hlegible
    obtain ⟨hheader, hinside⟩ := hhead.sound hseen.enterLoop hinit htest htarget hupdate
    have hinner := hbody.leads hlowers hlegible (hinside.block _) (subset_append_left _ _)
    exact .one (hheader.append hinner.sound) hseen
  | .rangeLoop hstart _ hstop _ hbody, .rangeLoop number hlowers =>
    obtain ⟨⟨hindex, hfirst, hlast, _, _, hlegible⟩, _⟩ := hlegible
    have hinside := hseen.bind (mangled "range" number)
    have hinner := hbody.leads hlowers hlegible (hinside.enterLoop.block _) (subset_append_left _ _)
    have hself : mangled "range" number ∈ (v.bind (mangled "range" number)).scope := mem_cons_self
    have hupdate := (Script.allSound_at_nil _).name hindex hself
    have hstopSound := hstop.soundFrom hinside hlast.2
    have htest := hstopSound.name hindex hself
    rw [← words_less] at htest
    have hheader := (hstart.soundFrom hinside hfirst).words (htest.words hupdate)
    exact .one (hheader.append hinner.sound) hseen
  | .switch hscrutinee hcases hotherwise, .switch hgs ho =>
    obtain ⟨hevaluation, ⟨hgsLegible, hoLegible⟩, _⟩ := bodyLegible_split hlegible
    have hfirst := leads_evaluation hscrutinee hseen hevaluation
    have hbetween := hcases.scope_eq ▸ hfirst.after
    refine hfirst.append (.one (.append ?_ (.append ?_ ?_)) (hotherwise.scope_eq ▸ hbetween))
    · exact ((Script.allSound_at_nil _).fixed (by decide)).fixed (by decide)
    · refine hcases.sound_cases hgs hgsLegible (hfirst.after.block _) fun g hg f hf => ?_
      exact mem_append_left _ (mem_append_left _ (mem_flatMap.mpr ⟨g, hg, hf⟩))
    · refine hotherwise.sound_default ho hoLegible ((hbetween.block _).bindAll _) fun body hbody f hf => ?_
      cases hbody
      exact mem_append_right _ (mem_append_left _ (mem_append_right _ hf))
  | .breakLoop _, .breakLoop | .continueLoop _, .continueLoop =>
    exact .one ((Script.allSound_at_nil v).fixed (by decide)) hseen
  | .returnValue hvalue, .returnValue => exact .one (hvalue.sound hseen hlegible.1) hseen
  | .block hbody, .block hlowers =>
    have hinner := hbody.leads hlowers hlegible.1 (hseen.enterBlock.block _) (subset_append_left _ _)
    exact .one hinner.sound hseen

theorem EachAccepted.leads {c c' : Context} {body body' : List Stmt} {ss : List Script.Stmt} {v : View}
    (h : EachAccepted c body c' body') (hlowers : BodyLowers ν body' ss) (hlegible : Script.BodyLegible ss)
    (hseen : c.scope.SeenFrom ν v) (hfunctions : declaredFunctions ss ⊆ v.scope) : Leads ν v ss c'.scope := by
  match h, hlowers with
  | .nil, .nil => exact .nil hseen
  | .cons hs hrest, .cons hsLowers hrestLowers =>
    obtain ⟨hsLegible, hrestLegible⟩ := bodyLegible_split hlegible
    rw [Script.declaredFunctions_append] at hfunctions
    obtain ⟨hsFunctions, hrestFunctions⟩ := append_subset.mp hfunctions
    have hfirst := hs.leads hsLowers hsLegible hseen hsFunctions
    exact hfirst.append (hrest.leads hrestLowers hrestLegible hfirst.after
      (subset_append_of_subset_right _ hrestFunctions))

theorem BodyAccepted.leads {c c' : Context} {body body' : List Stmt} {ss : List Script.Stmt} {v : View}
    (h : BodyAccepted c body c' body') (hlowers : BodyLowers ν body' ss) (hlegible : Script.BodyLegible ss)
    (hseen : c.scope.SeenFrom ν v) (hfunctions : declaredFunctions ss ⊆ v.scope) : Leads ν v ss c'.scope := by
  match h with
  | .intro hhoisted heach =>
    refine heach.leads hlowers hlegible (hhoisted.seenFrom hseen ?_) hfunctions
    rw [← heach.methodLabels_eq]
    exact fun f hf => hfunctions (hlowers.methodLabels_subset hf)

theorem BranchesAccepted.sound_branches {c c' : Context} {branches : List (Script.Guarded Script.Stmt)}
    {v : View} (h : BranchesAccepted c gs c' gs') (hlowers : BranchesLower ν gs' branches)
    (hlegible : Script.BranchesLegible branches) (hseen : c.scope.SeenFrom ν v)
    (hopening : AllSound (v.at opening)) : AllSound (Script.branchOccurrences v opening branches) := by
  match h, hlowers with
  | .nil, .nil => exact Script.allSound_nil
  | .cons hguard hbody hgs, .cons hbodyLowers hgsLowers =>
    obtain ⟨hguardLegible, hbodyLegible, hgsLegible⟩ := hlegible
    have hheader := hopening.words (hguard.soundFrom hseen hguardLegible)
    have hinner := hbody.leads hbodyLowers hbodyLegible (hseen.enterBlock.block _) (subset_append_left _ _)
    have helse : AllSound (v.at ["else", "if"]) :=
      ((Script.allSound_at_nil v).fixed (by decide)).fixed (by decide)
    have hrest := hgs.sound_branches hgsLowers hgsLegible hseen helse
    exact hheader.append (hinner.sound.append hrest)

theorem OtherwiseAccepted.sound {c c' : Context} {v : View} (h : OtherwiseAccepted c o c' o')
    (hlowers : OtherwiseLowers ν o' otherwise) (hlegible : Script.OtherwiseLegible otherwise)
    (hseen : c.scope.SeenFrom ν v) : AllSound (Script.otherwiseOccurrences v otherwise) := by
  match h, hlowers with
  | .none, .none => exact Script.allSound_nil
  | .some hbody, .some hlowers =>
    have hinner := hbody.leads hlowers hlegible (hseen.enterBlock.block _) (subset_append_left _ _)
    exact .append (.fixed (Script.allSound_at_nil v) (by decide)) hinner.sound

theorem BranchesAccepted.sound_cases {c c' : Context} {v : View} (h : BranchesAccepted c gs c' gs')
    (hlowers : BranchesLower ν gs' cases) (hlegible : Script.BranchesLegible cases)
    (hseen : c.scope.SeenFrom ν v) (hfunctions : ∀ g ∈ cases, declaredFunctions g.body ⊆ v.scope) :
    AllSound (Script.caseOccurrences v cases) := by
  match h, hlowers with
  | .nil, .nil => exact Script.allSound_nil
  | .cons hguard hbody hgs, .cons hbodyLowers hgsLowers =>
    obtain ⟨hguardLegible, hbodyLegible, hgsLegible⟩ := hlegible
    obtain ⟨hbodyFunctions, hgsFunctions⟩ := forall_mem_cons.mp hfunctions
    have hheader := hguard.soundFrom hseen hguardLegible
    have hinner := hbody.leads hbodyLowers hbodyLegible hseen.enterBlock hbodyFunctions
    refine .append (hheader.fixed (by decide)) (hinner.sound.append (.append ?_ ?_))
    · exact (Script.allSound_at_nil _).fixed (by decide)
    · exact hgs.sound_cases hgsLowers hgsLegible (hseen.bindAll _) fun g hg =>
        subset_append_of_subset_right _ (hgsFunctions g hg)

theorem OtherwiseAccepted.sound_default {c c' : Context} {v : View} (h : OtherwiseAccepted c o c' o')
    (hlowers : OtherwiseLowers ν o' otherwise) (hlegible : Script.OtherwiseLegible otherwise)
    (hseen : c.scope.SeenFrom ν v) (hfunctions : ∀ body ∈ otherwise, declaredFunctions body ⊆ v.scope) :
    AllSound (Script.defaultOccurrences v otherwise) := by
  match h, hlowers with
  | .none, .none => exact Script.allSound_nil
  | .some hbody, .some hlowers =>
    have hinner := hbody.leads hlowers hlegible hseen.enterBlock (hfunctions _ rfl)
    exact .append (.fixed (Script.allSound_at_nil v) (by decide)) hinner.sound

end

/-! ## programs -/

variable {source file : String} {root : Scope}

/-- what stands at the outermost level of a script -/
def scriptView (q : Program) : View := ⟨[], declaredFunctions (script q)⟩

/-- the words of the script of a program, and what they see -/
def scriptOccurrences (q : Program) : List Occurrence := bodyOccurrences (scriptView q) (script q)

theorem eq_ok_of_toOption {ε α : Type} {x : Except ε α} {a : α} (h : x.toOption = some a) : x = .ok a := by
  cases x with
  | error e => exact nomatch h
  | ok b => exact congrArg Except.ok (Option.some.inj h)

theorem compileSource_eq_ok (h : compileSource root source file options = .ok text) :
    ∃ q, analyseSource root source file = .ok q ∧ compile options q = .ok text := by
  unfold compileSource at h
  cases hanalyse : analyseSource root source file with
  | error d => rw [hanalyse] at h; exact nomatch h
  | ok q =>
    rw [hanalyse] at h
    exact ⟨q, rfl, h⟩

theorem analyseSource_eq_ok (h : analyseSource root source file = .ok q) :
    ∃ p : Program, p.WellFormed ∧ analyse root p = .ok q := by
  unfold analyseSource parseSource at h
  cases hscan : scan source file with
  | error d => rw [hscan] at h; exact nomatch h
  | ok ts =>
    rw [hscan] at h
    have hread : parse ts file >>= analyse root = .ok q := h
    cases hparse : parse ts file with
    | error d => rw [hparse] at hread; exact nomatch hread
    | ok p =>
      rw [hparse] at hread
      exact ⟨p, wellFormed_of_parse (scanned_of_scan hscan) hparse, hread⟩

section

variable {p q : Program} (hp : p.WellFormed) (h : analyse Scope.root p = .ok q)

include hp h

theorem sound_of_analyse : AllSound (scriptOccurrences q) := by
  obtain ⟨ν, hlowers, hlegible⟩ := exists_naming hp h
  obtain ⟨c, hbody⟩ := accepted_of_analyse h
  have hseen : Scope.root.SeenFrom ν (scriptView q) := Scope.seenFrom_root _
  exact (hbody.leads hlowers hlegible hseen.enterBlock (List.Subset.refl _)).sound

theorem occurrences_of_compile (hcompile : compile options q = .ok text) :
    Script.occurrences text = some (scriptOccurrences q) := by
  obtain ⟨ν, _, hlegible⟩ := exists_naming hp h
  rw [scriptText_of_compile hcompile]
  exact Script.occurrences_layout hlegible options.indent

end

/-- Every name that is given out is in scope where it is used.  Read word by word, the output has for
each word that binds no name the names in scope there: those of the functions declared in the blocks
around it, those that a `let` or `const` binds in these blocks before it, and those of the parameters
and loop headers around it. -/
theorem compile_references_in_scope {source file : String} {options : Options} {text : String}
    (h : compileSource Scope.root source file options = .ok text) :
    ∃ os, Script.occurrences text = some os ∧ ∀ o ∈ os, '_' ∈ o.word.toList → o.word ∈ o.scope := by
  obtain ⟨q, hanalysed, hcompile⟩ := compileSource_eq_ok h
  obtain ⟨p, hp, hanalyse⟩ := analyseSource_eq_ok hanalysed
  exact ⟨_, occurrences_of_compile hp hanalyse hcompile,
    fun o ho => (sound_of_analyse hp hanalyse o ho).bound⟩

/-- the function `g` is called in front of its declaration, and the names `y` and `m` leave their class -/
theorem compile_references_in_scope_flattened :
    let source := "print str(g()); class P \x7b let y = 2; fn m() -> int \x7b return y; \x7d \x7d " ++
      "fn g(b: int = 3) -> int \x7b return b; \x7d"
    let text := "console.log(String(g_1()));\nlet y_3 = 2;\nfunction m_4() \x7b\n    return y_3;\n\x7d\n" ++
      "function P_2() \x7b\n    this.y_3 = y_3;\n\x7d\nP_2.prototype.m_4 = m_4;\n" ++
      "function g_1(b_5 = 3) \x7b\n    return b_5;\n\x7d\n"
    let names := ["g_1", "y_3", "y_3", "y_3", "P_2", "m_4", "m_4", "b_5"]
    compileSource Scope.root source "" Options.standard = .ok text ∧
      ∃ os, Script.occurrences text = some os ∧
        (os.map Occurrence.word).filter ('_' ∈ ·.toList) = names ∧
        ∀ o ∈ os, '_' ∈ o.word.toList → o.word ∈ o.scope := by
  intro source text names
  have h : compileSource Scope.root source "" Options.standard = .ok text :=
    eq_ok_of_toOption (by decide +kernel)
  obtain ⟨os, hos, hall⟩ := compile_references_in_scope h
  have hwords : (Script.occurrences text).map
      (fun os => (os.map Occurrence.word).filter ('_' ∈ ·.toList)) = some names := by decide +kernel
  rw [hos] at hwords
  exact ⟨h, os, hos, Option.some.inj hwords, hall⟩

end TypedScript
