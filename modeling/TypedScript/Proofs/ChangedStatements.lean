import Mathlib.Data.List.Forall2
import TypedScript.Proofs.ChangedChecks

/-!
# Checks of changed programs

The checks of two programs that correspond go the same way: the declarations that get identities correspond,
the names refer to what corresponds, and the first faults are of one kind.
-/

namespace TypedScript

variable {m : Change} {K L : Counterparts m}

/-! ## statements that correspond -/

section

variable (m : Change)

structure Declarator.Alike (d d' : Declarator) : Prop where
  name : d'.name = m.name d.name
  allowed : m.Allows d.name
  written : d'.written = d.written.map (TypeTerm.change m)
  id : m.Exact → d'.id = d.id
  type : m.Slot d.type d'.type

structure Parameter.Alike (p p' : Parameter) : Prop where
  name : p'.name = m.name p.name
  allowed : m.Allows p.name
  written : p'.written = p.written.change m
  default : Option.Rel (Expr.Alike m) p.default p'.default
  id : m.Exact → p'.id = p.id
  type : m.Slot p.type p'.type

abbrev ParametersAlike : List Parameter → List Parameter → Prop := List.Forall₂ (Parameter.Alike m)

structure FunctionHead.Alike (h h' : FunctionHead) : Prop where
  name : h'.name = m.name h.name
  allowed : m.Allows h.name
  id : m.Exact → h'.id = h.id
  parameters : ParametersAlike m h.parameters h'.parameters
  returns : h'.returns = h.returns.map (TypeTerm.change m)
  async : h'.async = h.async

structure ClassHead.Alike (h h' : ClassHead) : Prop where
  name : h'.name = m.name h.name
  id : m.Exact → h'.id = h.id
  parameters : ParametersAlike m h.parameters h'.parameters

inductive Update.Alike : Update Expr → Update Expr → Prop
  | increment : Update.Alike .increment .increment
  | decrement : Update.Alike .decrement .decrement
  | increase {e e' : Expr} : e.Alike m e' → Update.Alike (.increase e) (.increase e')
  | decrease {e e' : Expr} : e.Alike m e' → Update.Alike (.decrease e) (.decrease e')

structure ForHead.Alike (h h' : ForHead) : Prop where
  index : h.index.Alike m h'.index
  init : h.init.Alike m h'.init
  test : h.test.Alike m h'.test
  target : h.target.Alike m h'.target
  update : h.update.Alike m h'.update

mutual

inductive Stmt.Alike : Stmt → Stmt → Prop
  | expression {e e' : Expr} : e.Alike m e' → Stmt.Alike (.expression e) (.expression e')
  | declare {constant : Bool} {ds ds' : List Declarator} {es es' : List Expr} :
    List.Forall₂ (Declarator.Alike m) ds ds' → Expr.AllAlike m es es' →
    Stmt.Alike (.declare constant ds es) (.declare constant ds' es')
  | assign : Expr.AllAlike m targets targets' → Expr.AllAlike m values values' →
    Stmt.Alike (.assign targets values) (.assign targets' values')
  | function {h h' : FunctionHead} {body body' : List Stmt} : h.Alike m h' → BodyAlike body body' →
    Stmt.Alike (.function h body) (.function h' body')
  | classDef {h h' : ClassHead} {body body' : List Stmt} : h.Alike m h' → BodyAlike body body' →
    Stmt.Alike (.classDef h body) (.classDef h' body')
  | conditional : BranchesAlike gs gs' → Stmt.Alike (.conditional gs none) (.conditional gs' none)
  | conditionalElse : BranchesAlike gs gs' → BodyAlike body body' →
    Stmt.Alike (.conditional gs (some body)) (.conditional gs' (some body'))
  | whileLoop {e e' : Expr} {body body' : List Stmt} : e.Alike m e' → BodyAlike body body' →
    Stmt.Alike (.whileLoop e body) (.whileLoop e' body')
  | forLoop {h h' : ForHead} {body body' : List Stmt} : h.Alike m h' → BodyAlike body body' →
    Stmt.Alike (.forLoop h body) (.forLoop h' body')
  | rangeLoop {start start' stop stop' : Expr} {body body' : List Stmt} : start.Alike m start' →
    stop.Alike m stop' → BodyAlike body body' →
    Stmt.Alike (.rangeLoop start stop body) (.rangeLoop start' stop' body')
  | switch {e e' : Expr} {gs gs' : List (Guarded Stmt)} : e.Alike m e' → BranchesAlike gs gs' →
    Stmt.Alike (.switch e gs none) (.switch e' gs' none)
  | switchDefault {e e' : Expr} : e.Alike m e' → BranchesAlike gs gs' → BodyAlike body body' →
    Stmt.Alike (.switch e gs (some body)) (.switch e' gs' (some body'))
  | breakLoop : Stmt.Alike .breakLoop .breakLoop
  | continueLoop : Stmt.Alike .continueLoop .continueLoop
  | returnValue : Option.Rel (Expr.Alike m) value value' →
    Stmt.Alike (.returnValue value) (.returnValue value')
  | print {e e' : Expr} : e.Alike m e' → Stmt.Alike (.print e) (.print e')
  | block : BodyAlike body body' → Stmt.Alike (.block body) (.block body')

/-- functions that stand side by side may change places, if identities may change -/
inductive BodyAlike : List Stmt → List Stmt → Prop
  | nil : BodyAlike [] []
  | cons : Stmt.Alike s s' → BodyAlike ss ss' → BodyAlike (s :: ss) (s' :: ss')
  | swap {h h' g g' : FunctionHead} : ¬m.Exact → h.Alike m h' → BodyAlike hs hs' → g.Alike m g' →
    BodyAlike gs gs' → BodyAlike ss ss' →
    BodyAlike (.function h hs :: .function g gs :: ss) (.function g' gs' :: .function h' hs' :: ss')

inductive BranchesAlike : List (Guarded Stmt) → List (Guarded Stmt) → Prop
  | nil : BranchesAlike [] []
  | cons {guard guard' : Expr} {body body' : List Stmt} {gs gs' : List (Guarded Stmt)} :
    guard.Alike m guard' → BodyAlike body body' → BranchesAlike gs gs' →
    BranchesAlike (⟨guard, body⟩ :: gs) (⟨guard', body'⟩ :: gs')

end

end

/-! ## what corresponds is unique -/

theorem rel_unique {α β : Type} {R : α → β → Prop} (hR : Relator.RightUnique R) {o : Option α}
    {o₁ o₂ : Option β} (h : Option.Rel R o o₁) (h' : Option.Rel R o o₂) : o₁ = o₂ := by
  cases h with
  | none => cases h'; rfl
  | some h =>
    cases h' with
    | some h' => exact congrArg some (hR h h')

/-! If what checks write counts, there is one tree that corresponds. -/

section

variable (hm : m.Exact)

include hm

theorem Expr.rightUnique_alike : Relator.RightUnique (Expr.Alike m) := fun _ _ _ h h' => h.unique hm h'

theorem Declarator.rightUnique_alike : Relator.RightUnique (Declarator.Alike m) := by
  intro d d₁ d₂ h h'
  obtain ⟨name₁, written₁, id₁, type₁⟩ := d₁
  obtain ⟨name₂, written₂, id₂, type₂⟩ := d₂
  cases h.name.trans h'.name.symm
  cases h.written.trans h'.written.symm
  cases (h.id hm).trans (h'.id hm).symm
  cases h.type.unique hm h'.type
  rfl

theorem Parameter.rightUnique_alike : Relator.RightUnique (Parameter.Alike m) := by
  intro p p₁ p₂ h h'
  obtain ⟨name₁, written₁, default₁, id₁, type₁⟩ := p₁
  obtain ⟨name₂, written₂, default₂, id₂, type₂⟩ := p₂
  cases h.name.trans h'.name.symm
  cases h.written.trans h'.written.symm
  cases rel_unique (Expr.rightUnique_alike hm) h.default h'.default
  cases (h.id hm).trans (h'.id hm).symm
  cases h.type.unique hm h'.type
  rfl

theorem ParametersAlike.unique (h : ParametersAlike m ps ps₁) (h' : ParametersAlike m ps ps₂) : ps₁ = ps₂ :=
  List.right_unique_forall₂' (Parameter.rightUnique_alike hm) h h'

theorem FunctionHead.Alike.unique {h h₁ h₂ : FunctionHead} (hh : h.Alike m h₁) (hh' : h.Alike m h₂) :
    h₁ = h₂ := by
  obtain ⟨name₁, id₁, parameters₁, returns₁, async₁⟩ := h₁
  obtain ⟨name₂, id₂, parameters₂, returns₂, async₂⟩ := h₂
  cases hh.name.trans hh'.name.symm
  cases (hh.id hm).trans (hh'.id hm).symm
  cases ParametersAlike.unique hm hh.parameters hh'.parameters
  cases hh.returns.trans hh'.returns.symm
  cases hh.async.trans hh'.async.symm
  rfl

theorem ClassHead.Alike.unique {h h₁ h₂ : ClassHead} (hh : h.Alike m h₁) (hh' : h.Alike m h₂) : h₁ = h₂ := by
  obtain ⟨name₁, id₁, parameters₁⟩ := h₁
  obtain ⟨name₂, id₂, parameters₂⟩ := h₂
  cases hh.name.trans hh'.name.symm
  cases (hh.id hm).trans (hh'.id hm).symm
  cases ParametersAlike.unique hm hh.parameters hh'.parameters
  rfl

theorem Update.Alike.unique {u u₁ u₂ : Update Expr} (h : u.Alike m u₁) (h' : u.Alike m u₂) : u₁ = u₂ := by
  cases h with
  | increment | decrement => cases h'; rfl
  | increase he =>
    cases h' with
    | increase he' => rw [he.unique hm he']
  | decrease he =>
    cases h' with
    | decrease he' => rw [he.unique hm he']

theorem ForHead.Alike.unique {h h₁ h₂ : ForHead} (hh : h.Alike m h₁) (hh' : h.Alike m h₂) : h₁ = h₂ := by
  obtain ⟨index₁, init₁, test₁, target₁, update₁⟩ := h₁
  obtain ⟨index₂, init₂, test₂, target₂, update₂⟩ := h₂
  cases Declarator.rightUnique_alike hm hh.index hh'.index
  cases hh.init.unique hm hh'.init
  cases hh.test.unique hm hh'.test
  cases hh.target.unique hm hh'.target
  cases hh.update.unique hm hh'.update
  rfl

end

mutual

theorem Stmt.Alike.unique (hm : m.Exact) {s s₁ s₂ : Stmt} (h : s.Alike m s₁) (h' : s.Alike m s₂) :
    s₁ = s₂ := by
  match h, h' with
  | .expression he, .expression he' | .print he, .print he' => rw [he.unique hm he']
  | .declare hds hes, .declare hds' hes' =>
    rw [List.right_unique_forall₂' (Declarator.rightUnique_alike hm) hds hds', hes.unique hm hes']
  | .assign ht hv, .assign ht' hv' => rw [ht.unique hm ht', hv.unique hm hv']
  | .function hh hb, .function hh' hb' | .classDef hh hb, .classDef hh' hb' =>
    rw [hh.unique hm hh', hb.unique hm hb']
  | .conditional hgs, .conditional hgs' => rw [hgs.unique hm hgs']
  | .conditionalElse hgs hb, .conditionalElse hgs' hb' => rw [hgs.unique hm hgs', hb.unique hm hb']
  | .whileLoop he hb, .whileLoop he' hb' => rw [he.unique hm he', hb.unique hm hb']
  | .forLoop hh hb, .forLoop hh' hb' => rw [hh.unique hm hh', hb.unique hm hb']
  | .rangeLoop hi hj hb, .rangeLoop hi' hj' hb' => rw [hi.unique hm hi', hj.unique hm hj', hb.unique hm hb']
  | .switch he hgs, .switch he' hgs' => rw [he.unique hm he', hgs.unique hm hgs']
  | .switchDefault he hgs hb, .switchDefault he' hgs' hb' =>
    rw [he.unique hm he', hgs.unique hm hgs', hb.unique hm hb']
  | .breakLoop, .breakLoop | .continueLoop, .continueLoop => rfl
  | .returnValue hv, .returnValue hv' => rw [rel_unique (Expr.rightUnique_alike hm) hv hv']
  | .block hb, .block hb' => rw [hb.unique hm hb']

theorem BodyAlike.unique (hm : m.Exact) (h : BodyAlike m ss ss₁) (h' : BodyAlike m ss ss₂) : ss₁ = ss₂ := by
  match h, h' with
  | .nil, .nil => rfl
  | .cons hs hss, .cons hs' hss' => rw [hs.unique hm hs', hss.unique hm hss']
  | .swap hn .., _ | _, .swap hn .. => exact absurd hm hn

theorem BranchesAlike.unique (hm : m.Exact) (h : BranchesAlike m gs gs₁) (h' : BranchesAlike m gs gs₂) :
    gs₁ = gs₂ := by
  match h, h' with
  | .nil, .nil => rfl
  | .cons hg hb hgs, .cons hg' hb' hgs' => rw [hg.unique hm hg', hb.unique hm hb', hgs.unique hm hgs']

end

/-! ## contexts and steps -/

structure Context.Changed (K : Counterparts m) (c c' : Context) : Prop where
  scope : c.scope.Changed K c'.scope
  known : K.Precedes c.nextId c'.nextId

/-- the steps leave contexts that correspond, where classes may have become known, and trees that
correspond by `T`; or there are faults, which are of one kind if the change is exact -/
inductive Step.Twin {α α' : Type} (K : Counterparts m) (T : α → α' → Prop) : Step α → Step α' → Prop
  | ok {L : Counterparts m} {c c' : Context} {a : α} {a' : α'} : K ≤ L → c.Changed L c' → T a a' →
    Step.Twin K T (Step.ok c a) (Step.ok c' a')
  | fail {a : α} {a' : α'} {e e' : Cause} : (m.Exact → e'.name = e.name) →
    Step.Twin K T (Step.fail c a e) (Step.fail c' a' e')

namespace Step.Twin

variable {α α' β β' : Type} {T : α → α' → Prop} {U : β → β' → Prop} {x : Step α} {x' : Step α'}
variable {next' : α' → Context → Step β'} {next : α → Context → Step β} {wrap' : α' → β'} {wrap : α → β}

theorem mono (h : x.Twin L T x') (hKL : K ≤ L) : x.Twin K T x' := by
  cases h with
  | ok hLM hc hT => exact .ok (Counterparts.le_trans hKL hLM) hc hT
  | fail he => exact .fail he

theorem andThen_of_ok (h : x.Twin K T x')
    (hnext : ∀ L a a' c c', x = Step.ok c a → K ≤ L → T a a' → c.Changed L c' →
      (next a c).Twin L U (next' a' c')) :
    (x.andThen wrap next).Twin K U (x'.andThen wrap' next') := by
  cases h with
  | ok hKL hc hT => exact (hnext _ _ _ _ _ rfl hKL hT hc).mono hKL
  | fail he => exact .fail he

theorem andThen (h : x.Twin K T x')
    (hnext : ∀ L a a' c c', K ≤ L → T a a' → c.Changed L c' → (next a c).Twin L U (next' a' c')) :
    (x.andThen wrap next).Twin K U (x'.andThen wrap' next') :=
  h.andThen_of_ok fun L a a' c c' _ => hnext L a a' c c'

theorem map (h : x.Twin K T x') {f : α → β} {f' : α' → β'} (hf : ∀ a a', T a a' → U (f a) (f' a')) :
    (x.map f).Twin K U (x'.map f') := by
  cases h with
  | ok hKL hc hT => exact .ok hKL hc (hf _ _ hT)
  | fail he => exact .fail he

theorem or (h : x.Twin K T x') :
    (∃ c a c' a', x = .ok c a ∧ x' = .ok c' a' ∧ K.Precedes c.nextId c'.nextId ∧ T a a') ∨
      (x.failure ≠ none ∧ x'.failure ≠ none) := by
  cases h with
  | ok hKL hc hT => exact .inl ⟨_, _, _, _, rfl, rfl, hc.known.of_le hKL, hT⟩
  | fail _ => exact .inr ⟨Option.some_ne_none _, Option.some_ne_none _⟩

/-- where identities may change, any two faults correspond -/
theorem of_failures (hn : ¬m.Exact) (hx : x.failure ≠ none) (hx' : x'.failure ≠ none) : x.Twin K T x' := by
  obtain ⟨c, a, failure⟩ := x
  obtain ⟨c', a', failure'⟩ := x'
  obtain ⟨e, rfl⟩ := Option.ne_none_iff_exists'.mp hx
  obtain ⟨e', rfl⟩ := Option.ne_none_iff_exists'.mp hx'
  exact .fail fun hm => absurd hm hn

theorem exists_ok (h : x.Twin K T x') {a : α} (hx : x = Step.ok c a) :
    ∃ (L : Counterparts m) (c' : _) (a' : _), x' = Step.ok c' a' ∧ c.Changed L c' ∧ T a a' := by
  cases h with
  | ok _ hc hT =>
    cases hx
    exact ⟨_, _, _, rfl, hc, hT⟩
  | fail => cases congrArg Step.failure hx

end Step.Twin

theorem Checked.Twin.step {α α' β β' γ γ' : Type} {T : α → α' → Prop} {S : β → β' → Prop} {U : γ → γ' → Prop}
    {x : Checked α β} {x' : Checked α' β'} (h : x.Twin T S x') {wrap : α → γ} {wrap' : α' → γ'}
    {next : α → β → Step γ} {next' : α' → β' → Step γ'}
    (hnext : ∀ a a' b b', T a a' → S b b' → (next a b).Twin K U (next' a' b')) :
    (x.step c wrap next).Twin K U (x'.step c' wrap' next') := by
  cases h with
  | ok hT hS => exact hnext _ _ _ _ hT hS
  | error he => exact .fail fun _ => he

namespace Context.Changed

variable {α α' : Type} {T : α → α' → Prop} {c c' : Context}
variable {a' : α'} {a : α} {s s' : Scope}

theorem twin_ok (h : c.Changed K c') (hT : T a a') :
    (Step.ok c a).Twin K T (Step.ok c' a') := .ok K.le_refl h hT

theorem inner (h : c.Changed K c') (hs : s.Changed K s') :
    Context.Changed K ⟨s, c.nextId⟩ ⟨s', c'.nextId⟩ := ⟨hs, h.known⟩

theorem inside (h : c.Changed K c') {part : Context → Step α}
    {part' : Context → Step α'} (hpart : (part ⟨s, c.nextId⟩).Twin K T (part' ⟨s', c'.nextId⟩)) :
    (c.inside s part).Twin K T (c'.inside s' part') := by
  unfold Context.inside
  generalize part ⟨s, c.nextId⟩ = x at hpart
  generalize part' ⟨s', c'.nextId⟩ = x' at hpart
  cases hpart with
  | ok hKL hc hT => exact .ok hKL ⟨h.scope.agree hKL, hc.known⟩ hT
  | fail he => exact .fail he

theorem bind (h : c.Changed K c') (hname : x' = m.name x) (hx : m.Allows x) {t t' : Ty} (ht : t.Changed K t')
    (kind : BindingKind) {bound : DeclId → α} {bound' : DeclId → α'}
    (hbound : ∀ {id id'}, (m.Exact → id' = id) → T (bound id) (bound' id')) :
    Step.Twin K T
      (match c.bind x t kind with
        | (c, .ok id) => .ok c (bound id)
        | (c, .error e) => .fail c a e)
      (match c'.bind x' t' kind with
        | (c, .ok id) => .ok c (bound' id)
        | (c, .error e) => .fail c a' e) := by
  have hown := h.scope.ownVars x hx
  unfold Context.bind Context.fresh
  dsimp only
  rw [Scope.declareVariable_eq, Scope.declareVariable_eq, hname]
  cases hfind : c.scope.frame.vars.find? x with
  | some b =>
    rw [hfind] at hown
    obtain ⟨b', hfind'⟩ := Option.isSome_iff_exists.mp hown
    rw [hfind']
    exact .fail fun _ => rfl
  | none =>
    rw [hfind] at hown
    rw [Option.not_isSome_iff_eq_none.mp (Bool.eq_false_iff.mp hown)]
    refine .ok K.le_refl ⟨h.scope.defineVariable x ⟨ht, rfl, fun hm => ?_⟩, h.known.succ⟩
      (hbound h.known.exact)
    exact congrArg Resolution.declared (h.known.exact hm)

end Context.Changed

/-! ## variables -/

variable {s s' : Scope} {c c' : Context}
variable {value value' : Option Ty} {ds ds' : List Declarator}

theorem twin_declaredType (hs : s.Changed K s') (x x' : String) (written : Option TypeTerm)
    (hvalue : Option.Rel (Ty.Changed K) value value') :
    Twin (Ty.Changed K) (declaredType s x written value)
      (declaredType s' x' (written.map (TypeTerm.change m)) value') := by
  cases written with
  | none =>
    cases hvalue with
    | none => exact .error rfl
    | some hv => exact .ok hv
  | some w =>
    cases hvalue with
    | none => exact w.twin_resolve hs
    | some hv =>
      refine (w.twin_resolve hs).bind fun t t' ht => ?_
      exact .ite (by rw [hv.assignable ht]) (.ok ht) (.error rfl)

theorem Declarator.Alike.bind (hc : c.Changed K c') {d d' : Declarator} (h : d.Alike m d') (constant : Bool)
    (hvalue : Option.Rel (Ty.Changed K) value value') :
    (d.bind constant value c).Twin K (Declarator.Alike m) (d'.bind constant value' c') := by
  unfold Declarator.bind
  rw [h.written]
  rcases (twin_declaredType hc.scope d.name d'.name d.written hvalue).or with
    ⟨t, t', ht, ht', hchanged⟩ | ⟨_, _, he, he', hname⟩
  · rw [ht, ht']
    exact hc.bind h.name h.allowed hchanged (.variable constant) fun hid =>
      ⟨h.name, h.allowed, rfl, fun hm => congrArg some (hid hm), hchanged.slot⟩
  · rw [he, he']
    exact .fail fun _ => hname

theorem twin_bindDeclarators (hc : c.Changed K c') (constant : Bool)
    (hds : List.Forall₂ (Declarator.Alike m) ds ds') (hts : Ty.ChangedAll K ts ts') :
    (bindDeclarators constant ds ts c).Twin K (List.Forall₂ (Declarator.Alike m))
      (bindDeclarators constant ds' ts' c') := by
  induction hds generalizing K ts ts' c c' with
  | nil => exact hc.twin_ok .nil
  | cons hd _ ih =>
    have hhead : Option.Rel (Ty.Changed K) ts.head? ts'.head? := by
      rw [hts.eq]
      have hts := hts.within
      cases ts with
      | nil => exact .none
      | cons t ts => exact .some (hts t List.mem_cons_self).changed
    rw [bindDeclarators, bindDeclarators]
    refine (hd.bind hc constant hhead).andThen fun L _ _ c c' hKL hd hc => ?_
    exact (ih hc (hts.tail.agree hKL)).map fun _ _ hds => .cons hd hds

/-- faults of one kind, or none -/
abbrev FaultTwin (o o' : Option Cause) : Prop := o'.map Cause.name = o.map Cause.name

theorem fault_cases (h : FaultTwin o o') :
    (o = none ∧ o' = none) ∨ ∃ e e', o = some e ∧ o' = some e' ∧ e'.name = e.name := by
  cases o with
  | none =>
    cases o' with
    | none => exact .inl ⟨rfl, rfl⟩
    | some e' => cases h
  | some e =>
    cases o' with
    | none => cases h
    | some e' => exact .inr ⟨e, e', rfl, rfl, Option.some.inj h⟩

theorem twin_declarationFault? (constant : Bool) (hds : List.Forall₂ (Declarator.Alike m) ds ds')
    (hes : Expr.AllAlike m es es') :
    FaultTwin (declarationFault? constant ds es) (declarationFault? constant ds' es') := by
  cases hes with
  | nil =>
    show (List.findSome? _ _).map Cause.name = (List.findSome? _ _).map Cause.name
    induction hds with
    | nil => rfl
    | @cons d d' ds ds' hd _ ih =>
      rw [List.findSome?_cons, List.findSome?_cons, hd.written]
      cases constant with
      | true => rfl
      | false =>
        cases d.written with
        | none => rfl
        | some w => exact ih
  | cons he hes =>
    unfold declarationFault?
    rw [(Expr.AllAlike.cons he hes).length_eq, hds.length_eq]
    rfl

/-! ## assignments -/

variable {e e' : Expr}

theorem twin_writableFault? (hs : s.Changed K s') {x x' : Symbol} (hx : x.Alike m x') :
    FaultTwin (writableFault? s x.name) (writableFault? s' x'.name) := by
  unfold FaultTwin writableFault?
  rcases (hs.lookupVariable hx).or with ⟨b, b', hb, hb', hchanged⟩ | ⟨_, _, he, he', hname⟩
  · rw [hb, hb']
    have hwritable : b'.writable = b.writable := by
      unfold Binding.writable
      rw [hchanged.kind]
    dsimp only
    rw [hwritable]
    cases b.writable <;> rfl
  · rw [he, he']
    exact congrArg some hname

theorem Expr.Alike.targetFault? (hs : s.Changed K s') (h : e.Alike m e') :
    FaultTwin (targetFault? s e) (targetFault? s' e') := by
  cases h with
  | name hx _ => exact twin_writableFault? hs hx
  | _ => rfl

theorem Expr.Alike.memberFault? (hs : s.Changed K s') (h : e.Alike m e') :
    FaultTwin (memberFault? s e) (memberFault? s' e') := by
  cases h with
  | member _ hx _ => exact twin_writableFault? hs hx
  | _ => rfl

theorem Expr.AllAlike.checkTargets (hs : s.Changed K s') (h : Expr.AllAlike m es es') :
    (checkTargets s es).Twin (Expr.AllAlike m) (Ty.ChangedAll K) (checkTargets s' es') := by
  match es, h with
  | [], .nil => exact .ok .nil Ty.changedAll_nil
  | _ :: es, .cons he hes =>
    rw [TypedScript.checkTargets, TypedScript.checkTargets]
    rcases fault_cases (he.targetFault? hs) with ⟨h, h'⟩ | ⟨_, _, h, h', hname⟩
    · rw [h, h']
      refine (he.check hs).andThen fun _ _ t t' he ht => ?_
      rcases fault_cases (he.memberFault? hs) with ⟨h, h'⟩ | ⟨_, _, h, h', hname⟩
      · rw [h, h']
        exact (hes.checkTargets hs).map (fun _ _ hes => .cons he hes) fun ts ts' hts => ht.cons hts
      · rw [h, h']
        exact .error hname
    · rw [h, h']
      exact .error hname
termination_by es.length

/-! ## parameters -/

variable {p p' : Parameter} {ps ps' : List Parameter}

/-- parameters whose types are resolved -/
structure Parameter.Settled (K : Counterparts m) (p p' : Parameter) : Prop where
  alike : p.Alike m p'
  typed : ∃ t t', p.type = some t ∧ p'.type = some t' ∧ t.Changed K t'

abbrev ParametersSettled (K : Counterparts m) : List Parameter → List Parameter → Prop :=
  List.Forall₂ (Parameter.Settled K)

theorem Parameter.Settled.mono (hKL : K ≤ L) (h : p.Settled K p') : p.Settled L p' := by
  obtain ⟨t, t', ht, ht', hchanged⟩ := h.typed
  exact ⟨h.alike, t, t', ht, ht', hchanged.agree hKL⟩

theorem twin_resolveParameters (hs : s.Changed K s') (hps : ParametersAlike m ps ps') :
    (resolveParameters s ps).Twin (ParametersSettled K) (ParamsChanged K) (resolveParameters s' ps') := by
  induction hps with
  | nil => exact .ok .nil ⟨rfl, nofun⟩
  | @cons p p' ps ps' hp _ ih =>
    rw [resolveParameters, resolveParameters, hp.written]
    rcases (p.written.twin_resolve hs).or with ⟨t, t', ht, ht', hchanged⟩ | ⟨_, _, he, he', hname⟩
    · rw [ht, ht']
      refine ih.map (fun _ _ hps => .cons ⟨⟨hp.name, hp.allowed, rfl, hp.default, hp.id, hchanged.slot⟩,
        t, t', rfl, rfl, hchanged⟩ hps) fun params params' hparams => ⟨?_, ?_⟩
      · rw [isSome_eq_of_rel hp.default, hparams.eq, hchanged.eq]
        rfl
      · exact List.forall_mem_cons.mpr ⟨hchanged.within, hparams.within⟩
    · rw [he, he']
      exact .error hname

theorem Parameter.Settled.checkDefault (hs : s.Changed K s') (h : p.Settled K p') :
    (p.checkDefault s).Twin (Parameter.Settled K) anyPair (p'.checkDefault s') := by
  obtain ⟨t, t', htype, htype', ht⟩ := h.typed
  obtain ⟨name, written, default, id, type⟩ := p
  obtain ⟨name', written', default', id', type'⟩ := p'
  cases htype
  cases htype'
  unfold Parameter.checkDefault Parameter.typeIn
  cases hdefault : h.alike.default with
  | none => exact .ok h trivial
  | some hvalue =>
    refine (hvalue.check hs).andThen fun _ _ u u' hvalue hu => .of_result ?_ ?_
    · exact ⟨⟨h.alike.name, h.alike.allowed, h.alike.written, .some hvalue, h.alike.id, h.alike.type⟩,
        t, t', rfl, rfl, ht⟩
    · exact .ite (by rw [hu.assignable ht]) (.ok trivial) (.error rfl)

theorem twin_checkDefaults (hs : s.Changed K s') (hps : ParametersSettled K ps ps') :
    (checkDefaults s ps).Twin (ParametersSettled K) anyPair (checkDefaults s' ps') := by
  induction hps with
  | nil => exact .ok .nil trivial
  | cons hp _ ih =>
    rw [checkDefaults, checkDefaults]
    refine (hp.checkDefault hs).andThen fun _ _ _ _ hp _ => ?_
    exact ih.map (fun _ _ hps => .cons hp hps) fun _ _ _ => trivial

theorem Parameter.Settled.bind (hc : c.Changed K c') (h : p.Settled K p') :
    (p.bind c).Twin K (Parameter.Alike m) (p'.bind c') := by
  obtain ⟨t, t', htype, htype', ht⟩ := h.typed
  unfold Parameter.bind Parameter.typeIn
  rw [htype, htype']
  exact hc.bind h.alike.name h.alike.allowed ht .parameter fun hid =>
    ⟨h.alike.name, h.alike.allowed, h.alike.written, h.alike.default, fun hm =>
      congrArg some (hid hm), ht.slot⟩

theorem twin_bindParameters (hps : ParametersSettled K ps ps') (hKL : K ≤ L)
    (hc : c.Changed L c') : (bindParameters ps c).Twin L (ParametersAlike m) (bindParameters ps' c') := by
  induction hps generalizing L c c' with
  | nil => exact hc.twin_ok .nil
  | cons hp _ ih =>
    rw [bindParameters, bindParameters]
    refine ((hp.mono hKL).bind hc).andThen fun M _ _ c c' hLM hp hc => ?_
    exact (ih (Counterparts.le_trans hKL hLM) hc).map fun _ _ hps => .cons hp hps

/-! ## functions -/

variable {h h' : FunctionHead}

/-- a head whose types are resolved -/
structure FunctionHead.Settled (K : Counterparts m) (h h' : FunctionHead) : Prop where
  alike : h.Alike m h'
  parameters : ParametersSettled K h.parameters h'.parameters

theorem FunctionHead.Alike.signature (hs : s.Changed K s') (hh : h.Alike m h') :
    (h.signature s).Twin (FunctionHead.Settled K) (Signature.Changed K) (h'.signature s') := by
  have hreturn : Twin (Ty.Changed K) (h.returnType s) (h'.returnType s') := by
    unfold FunctionHead.returnType
    rw [hh.returns]
    cases h.returns with
    | none => exact .ok ⟨rfl, trivial⟩
    | some w => exact w.twin_resolve hs
  refine (twin_resolveParameters hs hh.parameters).andThen fun ps ps' params params' hps hparams => ?_
  have hparameters : ParametersAlike m ps ps' := hps.imp fun _ _ hp => hp.alike
  refine .of_result ⟨⟨hh.name, hh.allowed, hh.id, hparameters, hh.returns, hh.async⟩, hps⟩ ?_
  refine hreturn.map fun t t' ht => ⟨?_, hparams.within, ht.within⟩
  rw [hparams.eq, ht.eq, hh.async]
  rfl

theorem FunctionHead.Alike.declare (hc : c.Changed K c') (hh : h.Alike m h') :
    (h.declare c).Twin K (FunctionHead.Alike m) (h'.declare c') := by
  refine (hh.signature hc.scope).step fun h h' f f' hh hf => ?_
  exact hc.bind hh.alike.name hh.alike.allowed hf.type .function fun hid =>
    ⟨hh.alike.name, hh.alike.allowed, fun hm => congrArg some (hid hm), hh.alike.parameters,
      hh.alike.returns, hh.alike.async⟩

/-! ## functions that change places -/

variable {α β γ : Type}

theorem Step.map_of_andThen (x : Step α) (wrap : α → β) (next : α → Context → Step β) (f : β → γ) :
    (x.andThen wrap next).map f = x.andThen (fun a => f (wrap a)) fun a c => (next a c).map f := by
  unfold Step.andThen
  split <;> rfl

theorem Step.map_map (x : Step α) (f : α → β) (g : β → γ) : (x.map f).map g = x.map fun a => g (f a) := rfl

theorem Step.eq_ok {α : Type} {x : Step α} (h : x.failure = none) : x = .ok x.context x.tree := by
  obtain ⟨c, a, failure⟩ := x
  cases h
  rfl

/-- two parts are taken in either order: both orders succeed and what they leave corresponds, or both fail -/
inductive Crossed {α α' β β' : Type} (K : Counterparts m) (T : α → α' → Prop) (U : β → β' → Prop)
    (first : Context → Step α) (second : Context → Step β) (second' : Context → Step β')
    (first' : Context → Step α') (c c' : Context) : Prop
  | ok {a : α} {a' : α'} {b : β} {b' : β'} {c₁ c₂ c₁' c₂' : Context} : first c = .ok c₁ a →
    second c₁ = .ok c₂ b → second' c' = .ok c₁' b' → first' c₁' = .ok c₂' a' → c₂.Changed K c₂' → T a a' →
    U b b' → Crossed K T U first second second' first' c c'
  | fail : (∀ c₁ a, first c = .ok c₁ a → (second c₁).failure ≠ none) →
    (∀ c₁ b, second' c' = .ok c₁ b → (first' c₁).failure ≠ none) →
    Crossed K T U first second second' first' c c'

theorem Step.fails_andThen {α β : Type} {x : Step α} {wrap : α → β} {next : α → Context → Step β}
    (h : ∀ c a, x = .ok c a → (next a c).failure ≠ none) : (x.andThen wrap next).failure ≠ none := by
  obtain ⟨c, a, failure⟩ := x
  cases failure with
  | none => exact h c a rfl
  | some e => exact Option.some_ne_none e

theorem Crossed.twin {α α' β β' γ γ' : Type} {T : α → α' → Prop} {U : β → β' → Prop} {V : γ → γ' → Prop}
    {first : Context → Step α} {second : Context → Step β} {second' : Context → Step β'}
    {first' : Context → Step α'} (hn : ¬m.Exact) (h : Crossed K T U first second second' first' c c')
    {wrap : α → γ} {wrap₂ : α → β → γ} {next : α → β → Context → Step γ}
    {wrap' : β' → γ'} {wrap₂' : β' → α' → γ'} {next' : β' → α' → Context → Step γ'}
    (hnext : ∀ a a' b b' c c', T a a' → U b b' → c.Changed K c' → (next a b c).Twin K V (next' b' a' c')) :
    ((first c).andThen wrap fun a c => (second c).andThen (wrap₂ a) fun b c => next a b c).Twin K V
      ((second' c').andThen wrap' fun b c => (first' c).andThen (wrap₂' b) fun a c => next' b a c) := by
  cases h with
  | @ok a a' b b' c₁ c₂ c₁' c₂' hfirst hsecond hsecond' hfirst' hc hT hU =>
    rw [hfirst, hsecond']
    show ((second c₁).andThen _ _).Twin K V ((first' c₁').andThen _ _)
    rw [hsecond, hfirst']
    exact hnext a a' b b' c₂ c₂' hT hU hc
  | fail hleft hright =>
    refine .of_failures hn ?_ ?_
    · exact Step.fails_andThen fun c₁ a ha => Step.fails_andThen fun c₂ b hb =>
        absurd (congrArg Step.failure hb) (hleft c₁ a ha)
    · exact Step.fails_andThen fun c₁ b hb => Step.fails_andThen fun c₂ a ha =>
        absurd (congrArg Step.failure ha) (hright c₁ b hb)

mutual

theorem TypeTerm.resolve_congr {s s' : Scope} (h : ∀ x, s'.findClass? x = s.findClass? x) (w : TypeTerm) :
    w.resolve s' = w.resolve s := by
  match w with
  | .named x => rw [TypeTerm.resolve, TypeTerm.resolve, h x]
  | .generic x as =>
    rw [TypeTerm.resolve, TypeTerm.resolve, h x, TypeTerm.resolveAll_congr h as]
  | .nullable w => rw [TypeTerm.resolve, TypeTerm.resolve, TypeTerm.resolve_congr h w]

theorem TypeTerm.resolveAll_congr {s s' : Scope} (h : ∀ x, s'.findClass? x = s.findClass? x)
    (ws : List TypeTerm) : TypeTerm.resolveAll s' ws = TypeTerm.resolveAll s ws := by
  match ws with
  | [] => rfl
  | w :: ws =>
    rw [TypeTerm.resolveAll, TypeTerm.resolveAll, TypeTerm.resolve_congr h w,
      TypeTerm.resolveAll_congr h ws]

end

theorem resolveParameters_congr (h : ∀ x, s'.findClass? x = s.findClass? x) (ps : List Parameter) :
    resolveParameters s' ps = resolveParameters s ps := by
  induction ps with
  | nil => rfl
  | cons p ps ih => rw [resolveParameters, resolveParameters, TypeTerm.resolve_congr h, ih]

theorem FunctionHead.signature_congr (hs : ∀ x, s'.findClass? x = s.findClass? x) (h : FunctionHead) :
    h.signature s' = h.signature s := by
  have hreturn : h.returnType s' = h.returnType s := by
    unfold FunctionHead.returnType
    split
    · exact TypeTerm.resolve_congr hs _
    · rfl
  unfold FunctionHead.signature
  rw [resolveParameters_congr hs, hreturn]

/-- the signature is resolved and the name is free -/
structure FunctionHead.Declarable (h : FunctionHead) (c : Context) (h₁ : FunctionHead)
    (f : Signature) : Prop where
  signature : h.signature c.scope = ⟨h₁, .ok f⟩
  free : c.Lacks h.name

namespace FunctionHead

variable {h h' h₁ g g' : FunctionHead} {f : Signature}

theorem Declarable.declare_eq (hd : h.Declarable c h₁ f) :
    h.declare c = .ok (c.declared h.name f.type .function) { h₁ with id := some c.nextId } := by
  obtain ⟨ps, params, r, _, _, rfl, _⟩ := signature_eq_ok hd.signature
  simp only [FunctionHead.declare, hd.signature, Checked.step, hd.free.bind]

theorem declarable_of_declare (hd : h.declare c = .ok c' h₂) :
    ∃ h₁ f, h.Declarable c h₁ f ∧ c' = c.declared h.name f.type .function := by
  obtain ⟨h₁, f, hsignature, hd⟩ := Checked.step_eq_ok hd
  obtain ⟨ps, params, r, _, _, rfl, _⟩ := signature_eq_ok hsignature
  split at hd
  · next c₂ id hbind =>
    obtain ⟨_, hlacks, rfl⟩ := Context.bind_eq_ok hbind
    cases hd
    exact ⟨_, f, ⟨hsignature, hlacks⟩, rfl⟩
  · cases congrArg Step.failure hd

theorem failure_declare (hd : ∀ h₁ f, ¬h.Declarable c h₁ f) : (h.declare c).failure ≠ none := by
  intro hnone
  obtain ⟨h₁, f, hdeclarable, _⟩ := declarable_of_declare (Step.eq_ok hnone)
  exact hd h₁ f hdeclarable

theorem declarable_declared : h.Declarable (c.declared x t kind) h₁ f ↔ h.Declarable c h₁ f ∧ h.name ≠ x := by
  have hlacks : (c.declared x t kind).Lacks h.name ↔ c.Lacks h.name ∧ h.name ≠ x := by
    show (c.scope.frame.vars.put x _).find? h.name = none ↔ _
    rw [Variables.find?_put]
    split
    · next heq => simp [heq]
    · next hne => simp [hne, Context.Lacks]
  have hclasses : ∀ y, (c.declared x t kind).scope.findClass? y = c.scope.findClass? y := fun _ => rfl
  have hsignature := signature_congr hclasses h
  exact ⟨fun hd => ⟨⟨hsignature ▸ hd.signature, (hlacks.mp hd.free).1⟩, (hlacks.mp hd.free).2⟩,
    fun hd => ⟨hsignature ▸ hd.1.signature, hlacks.mpr ⟨hd.1.free, hd.2⟩⟩⟩

theorem Alike.declarable (hc : c.Changed K c') (hh : h.Alike m h') :
    (∃ h₁ f h₁' f', h.Declarable c h₁ f ∧ h'.Declarable c' h₁' f' ∧ h₁.Alike m h₁' ∧ f.Changed K f') ∨
      ((∀ h₁ f, ¬h.Declarable c h₁ f) ∧ ∀ h₁ f, ¬h'.Declarable c' h₁ f) := by
  have hlacks : c'.Lacks h'.name ↔ c.Lacks h.name := by
    have hown := hc.scope.ownVars h.name hh.allowed
    rw [← hh.name, Bool.eq_iff_iff, Option.isSome_iff_ne_none, Option.isSome_iff_ne_none] at hown
    exact not_iff_not.mp hown
  by_cases hfree : c.Lacks h.name
  · have htwin := hh.signature hc.scope
    cases hx : h.signature c.scope with
    | mk h₁ r =>
    cases hx' : h'.signature c'.scope with
    | mk h₁' r' =>
    rw [hx, hx'] at htwin
    cases htwin with
    | ok hsettled hf =>
      exact .inl ⟨_, _, _, _, ⟨hx, hfree⟩, ⟨hx', hlacks.mpr hfree⟩, hsettled.alike, hf⟩
    | error _ =>
      right
      constructor
      · exact fun _ _ hd => nomatch congrArg Checked.result (hx.symm.trans hd.signature)
      · exact fun _ _ hd => nomatch congrArg Checked.result (hx'.symm.trans hd.signature)
  · exact .inr ⟨fun _ _ hd => hfree hd.free, fun _ _ hd => hfree (hlacks.mp hd.free)⟩

theorem Alike.crossed_declare (hn : ¬m.Exact) (hc : c.Changed K c') (hh : h.Alike m h') (hg : g.Alike m g') :
    Crossed K (FunctionHead.Alike m) (FunctionHead.Alike m) h.declare g.declare g'.declare
      h'.declare c c' := by
  by_cases hboth : (∃ h₁ f, h.Declarable c h₁ f) ∧ (∃ g₁ k, g.Declarable c g₁ k) ∧ g.name ≠ h.name
  · obtain ⟨⟨_, _, hd⟩, ⟨_, _, gd⟩, hne⟩ := hboth
    obtain ⟨h₁, f, h₁', f', hd, hd', hh₁, hf⟩ := (hh.declarable hc).resolve_right fun hnot => hnot.1 _ _ hd
    obtain ⟨g₁, k, g₁', k', gd, gd', hg₁, hk⟩ := (hg.declarable hc).resolve_right fun hnot => hnot.1 _ _ gd
    have hne' : h'.name ≠ g'.name := by
      rw [hh.name, hg.name]
      exact fun heq => hne (m.injective heq).symm
    refine .ok hd.declare_eq (declarable_declared.mpr ⟨gd, hne⟩).declare_eq gd'.declare_eq
      (declarable_declared.mpr ⟨hd', hne'⟩).declare_eq ⟨?_, hc.known.succ.succ⟩ ?_ ?_
    · rw [hh.name, hg.name]
      exact hc.scope.defineBoth hne ⟨hf.type, rfl, fun hm => absurd hm hn⟩
        ⟨hk.type, rfl, fun hm => absurd hm hn⟩
    · exact ⟨hh₁.name, hh₁.allowed, fun hm => absurd hm hn, hh₁.parameters, hh₁.returns, hh₁.async⟩
    · exact ⟨hg₁.name, hg₁.allowed, fun hm => absurd hm hn, hg₁.parameters, hg₁.returns, hg₁.async⟩
  · refine .fail (fun c₁ h₂ hdeclare => failure_declare fun g₁ k hsecond => ?_)
      (fun c₁ g₂ gdeclare => failure_declare fun h₁ f hsecond => ?_)
    · obtain ⟨h₁, f, hd, rfl⟩ := declarable_of_declare hdeclare
      obtain ⟨gd, hne⟩ := declarable_declared.mp hsecond
      exact hboth ⟨⟨h₁, f, hd⟩, ⟨g₁, k, gd⟩, hne⟩
    · obtain ⟨g₁, k, gd, rfl⟩ := declarable_of_declare gdeclare
      obtain ⟨hd, hne⟩ := declarable_declared.mp hsecond
      obtain ⟨h₁, f, _, _, hd, _⟩ := (hh.declarable hc).resolve_right fun hnot => hnot.2 _ _ hd
      obtain ⟨g₁, k, _, _, gd, _⟩ := (hg.declarable hc).resolve_right fun hnot => hnot.2 _ _ gd
      refine hboth ⟨⟨h₁, f, hd⟩, ⟨g₁, k, gd⟩, fun heq => hne ?_⟩
      rw [hh.name, hg.name, heq]

end FunctionHead

theorem BodyAlike.hoist (h : BodyAlike m body body') {K : Counterparts m} {c c' : Context}
    (hc : c.Changed K c') : (hoist body c).Twin K (BodyAlike m) (hoist body' c') := by
  match body, h with
  | [], .nil => exact hc.twin_ok .nil
  | _ :: rest, .cons hs hrest =>
    have hsame := hs
    cases hs with
    | function hh hbody =>
      rw [TypedScript.hoist, TypedScript.hoist]
      refine (hh.declare hc).andThen fun L _ _ c c' _ hh hc => ?_
      exact (hrest.hoist hc).map fun _ _ hrest => .cons (.function hh hbody) hrest
    | _ => exact (hrest.hoist hc).map fun _ _ hrest => .cons hsame hrest
  | _ :: _ :: rest, .swap hn hh hhs hg hgs hrest =>
    simp only [TypedScript.hoist, Step.map_of_andThen, Step.map_map]
    refine (hh.crossed_declare hn hc hg).twin hn fun _ _ _ _ c c' hh hg hc => ?_
    exact (hrest.hoist hc).map fun _ _ hrest => .swap hn hh hhs hg hgs hrest
termination_by body.length

/-! ## classes -/

theorem ClassHead.Alike.declare (hc : c.Changed K c') {h h' : ClassHead} (hh : h.Alike m h') :
    (h.declare c).Twin K (ClassHead.Alike m) (h'.declare c') := by
  -- the class is known from here on, under the next identity
  obtain ⟨L, hKL, hnew, hself⟩ : ∃ L, K ≤ L ∧
      Context.Changed L ⟨c.scope, c.nextId + 1⟩ ⟨c'.scope, c'.nextId + 1⟩ ∧
      (Ty.classOf c.nextId h.name).Changed L (.classOf c'.nextId h'.name) := by
    have hle : K ≤ K.add h.name hc.known := Counterparts.le_add hc.known
    refine ⟨_, hle, ⟨hc.scope.agree hle, hc.known.add⟩, ?_, .inr ⟨rfl, rfl⟩⟩
    exact congrArg₂ Ty.classOf (Counterparts.add_id hc.known).symm hh.name
  have hid : m.Exact → c'.nextId = c.nextId := hc.known.exact
  refine Step.Twin.mono ?_ hKL
  unfold ClassHead.declare Context.fresh
  dsimp only
  refine (twin_resolveParameters hnew.scope hh.parameters).step fun ps ps' params params' hps hparams => ?_
  have hsignature : Signature.Changed L ⟨params, .classOf c.nextId h.name, false⟩
      ⟨params', .classOf c'.nextId h'.name, false⟩ := by
    refine ⟨?_, hparams.within, hself.within⟩
    rw [hparams.eq, hself.eq]
    rfl
  have hown := hc.scope.ownClasses h.name
  unfold Scope.declareClass
  rw [← hh.name] at hown
  cases hfind : c.scope.frame.classes.find? h.name with
  | some b =>
    rw [hfind] at hown
    obtain ⟨b', hfind'⟩ := Option.isSome_iff_exists.mp hown
    rw [hfind']
    exact .fail fun _ => rfl
  | none =>
    rw [hfind] at hown
    rw [Option.not_isSome_iff_eq_none.mp (Bool.eq_false_iff.mp hown)]
    dsimp only
    have hbinding : ClassBinding.Changed L ⟨.declared c.nextId, _, some _⟩ ⟨.declared c'.nextId, _, some _⟩ :=
      ⟨hself, .some hsignature, fun hm => congrArg Resolution.declared (hid hm)⟩
    have hscope := hnew.scope.defineClass h.name hbinding
    rw [← hh.name] at hscope
    have hdefined := hnew.inner hscope
    refine (twin_checkDefaults hscope hps).step fun ps ps' _ _ hps _ => ?_
    refine Step.Twin.map (T := ParametersAlike m) (hdefined.inside ?_) fun ps ps' hps => ?_
    · exact twin_bindParameters hps L.le_refl (hdefined.inner (hscope.enterFunction hsignature))
    · exact ⟨hh.name, fun hm => congrArg some (hid hm), hps⟩

/-! ## conditions, loops and returns -/

variable {t t' : Ty}

theorem Expr.Alike.checkCondition (hs : s.Changed K s') (construct : String) (h : e.Alike m e') :
    (checkCondition s construct e).Twin (Expr.Alike m) anyPair (checkCondition s' construct e') := by
  refine (h.check hs).andThen fun _ _ t t' he ht => .of_result he ?_
  exact .ite (ht.eq_iff (u := .bool) ⟨rfl, trivial⟩) (.ok trivial) (.error rfl)

theorem Expr.Alike.checkBound (hs : s.Changed K s') (h : e.Alike m e') :
    (checkBound s e).Twin (Expr.Alike m) anyPair (checkBound s' e') := by
  refine (h.check hs).andThen fun _ _ t t' he ht => .of_result he ?_
  exact .ite (by rw [ht.isIntegral]) (.ok trivial) (.error rfl)

theorem Expr.Alike.checkStep (hs : s.Changed K s') (ht : t.Changed K t') (h : e.Alike m e')
    (hwrap : ∀ {e e'}, Expr.Alike m e e' → (wrap e).Alike m (wrap e')) :
    (checkUpdate.checkStep s t e wrap).Twin (Update.Alike m) anyPair
      (checkUpdate.checkStep s' t' e' wrap) := by
  refine (h.check hs).andThen fun _ _ u u' he hu => .of_result (hwrap he) ?_
  exact .ite (hu.eq_iff ht) (.ok trivial) (.error rfl)

theorem Update.Alike.check (hs : s.Changed K s') (ht : t.Changed K t') {u u' : Update Expr}
    (h : u.Alike m u') : (checkUpdate s t u).Twin (Update.Alike m) anyPair (checkUpdate s' t' u') := by
  cases h with
  | increment => exact .ok .increment trivial
  | decrement => exact .ok .decrement trivial
  | increase he => exact he.checkStep hs ht .increase
  | decrease he => exact he.checkStep hs ht .decrease

theorem ForHead.Alike.check (hc : c.Changed K c') {h h' : ForHead} (hh : h.Alike m h') :
    (h.check c).Twin K (ForHead.Alike m) (h'.check c') := by
  refine (hh.init.check hc.scope).step fun _ _ t t' hinit ht => ?_
  refine (hh.index.bind hc false (.some ht)).andThen fun L _ _ c c' _ hindex hc => ?_
  refine (hh.test.checkCondition hc.scope "for").step fun _ _ _ _ htest _ => ?_
  dsimp only
  rcases (hc.scope.lookupVariable hh.target).or with ⟨b, b', hb, hb', hchanged⟩ | ⟨_, _, he, he', hname⟩
  · rw [hb, hb']
    dsimp only
    rw [hchanged.type.isIntegral]
    split
    · refine (hh.update.check hc.scope hchanged.type).step fun _ _ _ _ hupdate _ => ?_
      exact hc.twin_ok ⟨hindex, hinit, htest, hh.target.resolved hchanged.resolution, hupdate⟩
    · exact .fail fun _ => rfl
  · rw [he, he']
    exact .fail fun _ => hname

theorem twin_checkReturn (hs : s.Changed K s') {value value' : Option Expr}
    (hvalue : Option.Rel (Expr.Alike m) value value') :
    (checkReturn s value).Twin (Option.Rel (Expr.Alike m)) anyPair (checkReturn s' value') := by
  have hfunction := hs.function
  unfold checkReturn
  generalize s.frame.function = o at hfunction
  generalize s'.frame.function = o' at hfunction
  cases hfunction with
  | none => exact .error rfl
  | some hf =>
    rename_i f f'
    have hnone : Ty.none.Changed K .none := ⟨rfl, trivial⟩
    cases hvalue with
    | none =>
      exact .of_result .none (.ite (by rw [hnone.assignable hf.returns]) (.ok trivial) (.error rfl))
    | some he =>
      have hvoid : f'.returns = .none ↔ f.returns = .none := hf.returns.eq_iff hnone
      dsimp only
      by_cases h : f.returns = .none
      · rw [if_pos h, if_pos (hvoid.mpr h)]
        exact .error rfl
      · rw [if_neg h, if_neg fun h' => h (hvoid.mp h')]
        refine (he.check hs).andThen fun _ _ t t' he ht => .of_result (.some he) ?_
        exact .ite (by rw [ht.assignable hf.returns]) (.ok trivial) (.error rfl)

theorem check_function_eq_ok {t : Stmt} (hok : (Stmt.function h body).check c = .ok c' t) :
    c'.scope = c.scope ∧ ∃ h' body', t = .function h' body' := by
  rw [Stmt.check] at hok
  obtain ⟨h₁, f, _, hok⟩ := Checked.step_eq_ok hok
  obtain ⟨ps, _, _, hok⟩ := Checked.step_eq_ok hok
  obtain ⟨c₁, hbody, rfl⟩ := Context.inside_eq_ok hok
  obtain ⟨c₂, ps', _, hbody⟩ := Step.andThen_eq_ok hbody
  obtain ⟨body', _, rfl⟩ := Step.map_eq_ok hbody
  exact ⟨rfl, _, _, rfl⟩

inductive FunctionsAlike (m : Change) : Stmt → Stmt → Prop
  | intro {h h' : FunctionHead} {body body' : List Stmt} : h.Alike m h' → BodyAlike m body body' →
    FunctionsAlike m (.function h body) (.function h' body')

theorem crossed_check (hn : ¬m.Exact) {g g' : FunctionHead} {hs hs' gs gs' : List Stmt}
    (hh : ∀ {c c' : Context}, c.Changed K c' →
      ((Stmt.function h hs).check c).Twin K (Stmt.Alike m) ((Stmt.function h' hs').check c'))
    (hg : ∀ {c c' : Context}, c.Changed K c' →
      ((Stmt.function g gs).check c).Twin K (Stmt.Alike m) ((Stmt.function g' gs').check c'))
    (hc : c.Changed K c') :
    Crossed K (FunctionsAlike m) (FunctionsAlike m) (Stmt.function h hs).check (Stmt.function g gs).check
      (Stmt.function g' gs').check (Stmt.function h' hs').check c c' := by
  -- a function that is checked moves the counter of its own side only
  have hleft : ∀ c₁ t, (Stmt.function h hs).check c = .ok c₁ t → c₁.Changed K c' := by
    intro c₁ t ht
    rcases (hh hc).or with ⟨_, _, _, _, ht₁, _, hknown, _⟩ | ⟨hfail, _⟩
    · cases ht.symm.trans ht₁
      exact ⟨(check_function_eq_ok ht).1 ▸ hc.scope, hknown.cross hn hc.known⟩
    · exact absurd (congrArg Step.failure ht) hfail
  have hright : ∀ c₁ t, (Stmt.function g' gs').check c' = .ok c₁ t → c.Changed K c₁ := by
    intro c₁ t ht
    rcases (hg hc).or with ⟨_, _, _, _, _, ht₁, hknown, _⟩ | ⟨_, hfail⟩
    · cases ht.symm.trans ht₁
      exact ⟨(check_function_eq_ok ht).1 ▸ hc.scope, hc.known.cross hn hknown⟩
    · exact absurd (congrArg Step.failure ht) hfail
  by_cases hboth : ∃ c₁ t c₁' u, (Stmt.function h hs).check c = .ok c₁ t ∧
      (Stmt.function g' gs').check c' = .ok c₁' u
  · obtain ⟨c₁, t, c₁', u, ht, hu⟩ := hboth
    rcases (hh (hright c₁' u hu)).or with ⟨_, t₁, c₂', t', ht₁, ht', hknown', htt'⟩ | ⟨hfail, _⟩
    · cases ht.symm.trans ht₁
      rcases (hg (hleft c₁ t ht)).or with ⟨c₂, u', _, u₁, hu', hu₁, hknown, huu'⟩ | ⟨_, hfail⟩
      · cases hu.symm.trans hu₁
        obtain ⟨hscope, _, _, rfl⟩ := check_function_eq_ok ht
        obtain ⟨hscope₁, _, _, rfl⟩ := check_function_eq_ok hu'
        cases htt' with
        | function hh hhs =>
        cases huu' with
        | function hg hgs =>
        refine .ok ht hu' hu ht' ⟨?_, hknown.cross hn hknown'⟩ (.intro hh hhs) (.intro hg hgs)
        rw [hscope₁, hscope, (check_function_eq_ok ht').1, (check_function_eq_ok hu).1]
        exact hc.scope
      · exact absurd (congrArg Step.failure hu) hfail
    · exact absurd (congrArg Step.failure ht) hfail
  · refine .fail (fun c₁ t ht hnone => ?_) (fun c₁ u hu hnone => ?_)
    · rcases (hg (hleft c₁ t ht)).or with ⟨_, _, c₁', u, _, hu, _⟩ | ⟨hfail, _⟩
      · exact hboth ⟨c₁, t, c₁', u, ht, hu⟩
      · exact hfail hnone
    · rcases (hh (hright c₁ u hu)).or with ⟨c₁', t, _, _, ht, _⟩ | ⟨_, hfail⟩
      · exact hboth ⟨c₁', t, c₁, u, ht, hu⟩
      · exact hfail hnone

/-! ## statements -/

mutual

theorem Stmt.Alike.check {s s' : Stmt} (h : s.Alike m s') {K : Counterparts m} {c c' : Context}
    (hc : c.Changed K c') : (s.check c).Twin K (Stmt.Alike m) (s'.check c') := by
  match s, s', h with
  | _, _, .expression he =>
    rw [Stmt.check, Stmt.check]
    exact (he.check hc.scope).step fun _ _ _ _ he _ => hc.twin_ok (.expression he)
  | _, _, .print he =>
    rw [Stmt.check, Stmt.check]
    exact (he.check hc.scope).step fun _ _ _ _ he _ => hc.twin_ok (.print he)
  | .declare constant _ _, _, .declare hds hes =>
    rw [Stmt.check, Stmt.check]
    rcases fault_cases (twin_declarationFault? constant hds hes) with ⟨h, h'⟩ | ⟨_, _, h, h', hname⟩
    · rw [h, h']
      refine (hes.checkEach hc.scope).step fun _ _ ts ts' hes hts => ?_
      exact (twin_bindDeclarators hc constant hds hts).map fun _ _ hds => .declare hds hes
    · rw [h, h']
      exact .fail fun _ => hname
  | _, _, .assign htargets hvalues =>
    rw [Stmt.check, Stmt.check, htargets.length_eq, hvalues.length_eq]
    split
    · exact .fail fun _ => rfl
    · refine (htargets.checkTargets hc.scope).step fun _ _ ts ts' htargets hts => ?_
      refine (hvalues.checkAll hc.scope (twin_assignedTest hts) Ty.changedAll_nil).step ?_
      exact fun _ _ _ _ hvalues _ => hc.twin_ok (.assign htargets hvalues)
  | .function _ body, _, .function hh hbody =>
    rw [Stmt.check, Stmt.check]
    refine (hh.signature hc.scope).step fun _ _ f f' hh hf => ?_
    refine (twin_checkDefaults hc.scope hh.parameters).step fun _ _ _ _ hps _ => hc.inside ?_
    refine (twin_bindParameters hps K.le_refl (hc.inner (hc.scope.enterFunction hf))).andThen ?_
    intro L _ _ c c' _ hps hc
    refine (hbody.check hc).map fun _ _ hbody => .function ?_ hbody
    exact ⟨hh.alike.name, hh.alike.allowed, hh.alike.id, hps, hh.alike.returns, hh.alike.async⟩
  | .classDef _ body, _, .classDef hh hbody =>
    rw [Stmt.check, Stmt.check]
    refine (hh.declare hc).andThen fun L _ _ c c' _ hh hc => ?_
    exact (hbody.check hc).map fun _ _ hbody => .classDef hh hbody
  | .conditional gs none, _, .conditional hgs =>
    rw [Stmt.check, Stmt.check]
    exact (hgs.check "if" hc).map fun _ _ hgs => .conditional hgs
  | .conditional gs (some body), _, .conditionalElse hgs hbody =>
    rw [Stmt.check, Stmt.check]
    refine (hgs.check "if" hc).andThen fun L _ _ c c' _ hgs hc => ?_
    refine Step.Twin.map (hc.inside ?_) fun _ _ hbody => .conditionalElse hgs hbody
    exact hbody.check (hc.inner hc.scope.enterBlock)
  | .whileLoop _ body, _, .whileLoop he hbody =>
    rw [Stmt.check, Stmt.check]
    refine (he.checkCondition hc.scope "while").step fun _ _ _ _ he _ => ?_
    refine Step.Twin.map (hc.inside ?_) fun _ _ hbody => .whileLoop he hbody
    exact hbody.check (hc.inner hc.scope.enterLoop)
  | .forLoop _ body, _, .forLoop hh hbody =>
    rw [Stmt.check, Stmt.check]
    refine hc.inside ((hh.check (hc.inner hc.scope.enterLoop)).andThen fun L _ _ c c' _ hh hc => ?_)
    exact (hbody.check hc).map fun _ _ hbody => .forLoop hh hbody
  | .rangeLoop _ _ body, _, .rangeLoop hstart hstop hbody =>
    rw [Stmt.check, Stmt.check]
    refine (hstart.checkBound hc.scope).step fun _ _ _ _ hstart _ => ?_
    refine (hstop.checkBound hc.scope).step fun _ _ _ _ hstop _ => ?_
    refine Step.Twin.map (hc.inside ?_) fun _ _ hbody => .rangeLoop hstart hstop hbody
    exact hbody.check (hc.inner hc.scope.enterLoop)
  | .switch _ gs none, _, .switch he hgs =>
    rw [Stmt.check, Stmt.check]
    refine (he.check hc.scope).step fun _ _ _ _ he _ => ?_
    exact (hgs.check "case" hc).map fun _ _ hgs => .switch he hgs
  | .switch _ gs (some body), _, .switchDefault he hgs hbody =>
    rw [Stmt.check, Stmt.check]
    refine (he.check hc.scope).step fun _ _ _ _ he _ => ?_
    refine (hgs.check "case" hc).andThen fun L _ _ c c' _ hgs hc => ?_
    refine Step.Twin.map (hc.inside ?_) fun _ _ hbody => .switchDefault he hgs hbody
    exact hbody.check (hc.inner hc.scope.enterBlock)
  | _, _, .breakLoop =>
    rw [Stmt.check, Stmt.check, hc.scope.insideLoop]
    split
    · exact hc.twin_ok .breakLoop
    · exact .fail fun _ => rfl
  | _, _, .continueLoop =>
    rw [Stmt.check, Stmt.check, hc.scope.insideLoop]
    split
    · exact hc.twin_ok .continueLoop
    · exact .fail fun _ => rfl
  | _, _, .returnValue hvalue =>
    rw [Stmt.check, Stmt.check]
    exact (twin_checkReturn hc.scope hvalue).step fun _ _ _ _ hvalue _ => hc.twin_ok (.returnValue hvalue)
  | .block body, _, .block hbody =>
    rw [Stmt.check, Stmt.check]
    refine Step.Twin.map (hc.inside ?_) fun _ _ hbody => .block hbody
    exact hbody.check (hc.inner hc.scope.enterBlock)
termination_by 2 * s.size
decreasing_by all_goals simp only [Stmt.size]; omega

theorem BodyAlike.checkEach (h : BodyAlike m ss ss') {K : Counterparts m} {c c' : Context}
    (hc : c.Changed K c') : (checkEach ss c).Twin K (BodyAlike m) (checkEach ss' c') := by
  match ss, ss', h with
  | [], [], .nil =>
    rw [TypedScript.checkEach, TypedScript.checkEach]
    exact hc.twin_ok .nil
  | _ :: ss, _ :: _, .cons hs hss =>
    rw [TypedScript.checkEach, TypedScript.checkEach]
    refine (hs.check hc).andThen fun L _ _ c c' _ hs hc => ?_
    exact (hss.checkEach hc).map fun _ _ hss => .cons hs hss
  | .function _ hs :: .function _ gs :: ss, _ :: _ :: _, .swap hn hh hhs hg hgs hss =>
    have hfirst : ∀ {c c' : Context}, c.Changed K c' → _ := (Stmt.Alike.function hh hhs).check
    have hsecond : ∀ {c c' : Context}, c.Changed K c' → _ := (Stmt.Alike.function hg hgs).check
    simp only [TypedScript.checkEach, Step.map_of_andThen, Step.map_map]
    refine (crossed_check hn hfirst hsecond hc).twin hn fun _ _ _ _ c c' hh hg hc => ?_
    cases hh with
    | intro hh hhs =>
    cases hg with
    | intro hg hgs =>
    exact (hss.checkEach hc).map fun _ _ hss => .swap hn hh hhs hg hgs hss
termination_by 2 * bodySize ss
decreasing_by all_goals simp only [bodySize]; omega

theorem BodyAlike.check (h : BodyAlike m body body') {K : Counterparts m} {c c' : Context}
    (hc : c.Changed K c') : (checkBody body c).Twin K (BodyAlike m) (checkBody body' c') := by
  rw [checkBody_eq, checkBody_eq]
  refine (h.hoist hc).andThen_of_ok fun L hoisted hoisted' c₁ c₁' hhoist _ hss hc₁ => ?_
  exact hss.checkEach hc₁
termination_by 2 * bodySize body + 1
decreasing_by
  have hsize := bodySize_hoist body c
  rw [hhoist] at hsize
  simp only [Step.ok] at hsize
  omega

theorem BranchesAlike.check (h : BranchesAlike m gs gs') (construct : String) {K : Counterparts m}
    {c c' : Context} (hc : c.Changed K c') :
    (checkBranches construct gs c).Twin K (BranchesAlike m) (checkBranches construct gs' c') := by
  match gs, gs', h with
  | [], [], .nil =>
    rw [checkBranches, checkBranches]
    exact hc.twin_ok .nil
  | ⟨_, body⟩ :: gs, ⟨_, _⟩ :: _, .cons hguard hbody hgs =>
    rw [checkBranches, checkBranches]
    refine (hguard.checkCondition hc.scope construct).step fun _ _ _ _ hguard _ => ?_
    refine (hc.inside (hbody.check (hc.inner hc.scope.enterBlock))).andThen fun L _ _ c c' _ hbody hc => ?_
    exact (hgs.check construct hc).map fun _ _ hgs => .cons hguard hbody hgs
termination_by 2 * branchesSize gs
decreasing_by all_goals simp only [branchesSize]; omega

end

/-! ## programs -/

variable {p p' : Program}

theorem BodyAlike.checkProgram (h : BodyAlike m p p') :
    (checkProgram Scope.root p).Twin (.empty m) (BodyAlike m) (checkProgram Scope.root p') :=
  h.check ⟨Scope.changed_root.enterBlock, nofun, fun _ => rfl⟩

/-- programs that correspond are both accepted, and the annotated programs correspond, or their faults
are of one kind -/
theorem BodyAlike.analyse (hm : m.Exact) (h : BodyAlike m p p') :
    (∃ q q', analyse Scope.root p = .ok q ∧ analyse Scope.root p' = .ok q' ∧ BodyAlike m q q') ∨
      ∃ d d', analyse Scope.root p = .error d ∧ analyse Scope.root p' = .error d' ∧
        d'.cause.name = d.cause.name := by
  have hcheck := h.checkProgram
  unfold TypedScript.analyse
  generalize TypedScript.checkProgram Scope.root p = x at hcheck
  generalize TypedScript.checkProgram Scope.root p' = x' at hcheck
  cases hcheck with
  | ok _ _ hq => exact .inl ⟨_, _, rfl, rfl, hq⟩
  | fail hname => exact .inr ⟨_, _, rfl, rfl, hname hm⟩

theorem BodyAlike.accepted_iff (h : BodyAlike m p p') :
    (∃ q, TypedScript.analyse Scope.root p = .ok q) ↔ ∃ q, TypedScript.analyse Scope.root p' = .ok q := by
  unfold TypedScript.analyse
  rcases h.checkProgram.or with ⟨c, q, c', q', hq, hq', _⟩ | ⟨hfail, hfail'⟩
  · rw [hq, hq']
    exact ⟨fun _ => ⟨q', rfl⟩, fun _ => ⟨q, rfl⟩⟩
  · obtain ⟨e, he⟩ := Option.ne_none_iff_exists'.mp hfail
    obtain ⟨e', he'⟩ := Option.ne_none_iff_exists'.mp hfail'
    simp [he, he']

end TypedScript
