import TypedScript.Proofs.AddedNames

/-!
# The surroundings of statements

Where a statement stands in a tree: the statements that have it in one of their bodies.  Loops catch the
jumps inside them, functions the returns and nothing of the jumps; classes, blocks, branches and cases
let both through.

* `Scope.Stands`: a scope of the check knows its surroundings;
* `legal_spots_of_analyse`: accepted trees follow the rules.
-/

namespace TypedScript

open List

/-! ## spots -/

/-- a statement of a tree, with the places that have it in a body, the innermost first -/
structure Stmt.Spot where
  place : Stmt.Place
  around : List Stmt.Place

mutual

/-- the spots inside a statement, which is the first of the places `around` -/
def Stmt.spots (around : List Stmt.Place) (Γ : Sight) : Stmt → List Stmt.Spot
  | .function _ body => bodySpots around Γ [] body
  | .classDef h body => bodySpots around (h.sight ++ Γ) [] body
  | .conditional branches otherwise =>
    branchSpots around Γ branches ++ otherwiseSpots around Γ otherwise
  | .whileLoop _ body => bodySpots around Γ [] body
  | .forLoop _ body => bodySpots around Γ [] body
  | .rangeLoop _ _ body => bodySpots around Γ [] body
  | .switch _ cases otherwise => branchSpots around Γ cases ++ otherwiseSpots around Γ otherwise
  | .block body => bodySpots around Γ [] body
  | _ => []

def bodySpots (around : List Stmt.Place) (Γ : Sight) (before : List Stmt) :
    List Stmt → List Stmt.Spot
  | [] => []
  | s :: ss => ⟨⟨Γ, before, s⟩, around⟩ ::
      (s.spots (⟨Γ, before, s⟩ :: around) (bodyClasses before ++ Γ) ++
        bodySpots around Γ (before ++ [s]) ss)

def branchSpots (around : List Stmt.Place) (Γ : Sight) : List (Guarded Stmt) → List Stmt.Spot
  | [] => []
  | ⟨_, body⟩ :: gs => bodySpots around Γ [] body ++ branchSpots around Γ gs

def otherwiseSpots (around : List Stmt.Place) (Γ : Sight) : Option (List Stmt) → List Stmt.Spot
  | none => []
  | some body => bodySpots around Γ [] body

end

mutual

theorem Stmt.place_spots (around : List Stmt.Place) (Γ : Sight) (s : Stmt) :
    (s.spots around Γ).map Stmt.Spot.place = s.places Γ := by
  cases s with
  | conditional branches otherwise | switch _ branches otherwise =>
    rw [Stmt.spots, Stmt.places, map_append, place_branchSpots, place_otherwiseSpots]
  | function | classDef | whileLoop | forLoop | rangeLoop | block => exact place_bodySpots ..
  | _ => rfl

theorem place_bodySpots (around : List Stmt.Place) (Γ : Sight) (before ss : List Stmt) :
    (bodySpots around Γ before ss).map Stmt.Spot.place = bodyPlaces Γ before ss := by
  cases ss with
  | nil => rfl
  | cons s ss =>
    rw [bodySpots, bodyPlaces, map_cons, map_append, s.place_spots, place_bodySpots _ _ _ ss]

theorem place_branchSpots (around : List Stmt.Place) (Γ : Sight) (gs : List (Guarded Stmt)) :
    (branchSpots around Γ gs).map Stmt.Spot.place = branchPlaces Γ gs := by
  cases gs with
  | nil => rfl
  | cons g gs => rw [branchSpots, branchPlaces, map_append, place_bodySpots, place_branchSpots _ _ gs]

theorem place_otherwiseSpots (around : List Stmt.Place) (Γ : Sight) (o : Option (List Stmt)) :
    (otherwiseSpots around Γ o).map Stmt.Spot.place = otherwisePlaces Γ o := by
  cases o with
  | none => rfl
  | some body => exact place_bodySpots ..

end

theorem exists_spot_of_mem {around : List Stmt.Place} {Γ : Sight} {before ss : List Stmt} {s : Stmt}
    (h : s ∈ ss) : ∃ S ∈ bodySpots around Γ before ss, S.place.start = Γ ∧ S.place.statement = s := by
  obtain ⟨P, hP, hstart, hs⟩ := @exists_place_of_mem Γ before ss s h
  rw [← place_bodySpots around] at hP
  obtain ⟨S, hS, rfl⟩ := mem_map.mp hP
  exact ⟨S, hS, hstart, hs⟩

def spotsOf (root : Scope) (q : Program) : List Stmt.Spot := bodySpots [] root.sight [] q

/-! ## loops and functions around -/

def Stmt.isLoop : Stmt → Bool
  | .whileLoop _ _ => true
  | .forLoop _ _ => true
  | .rangeLoop _ _ _ => true
  | _ => false

/-- a function, with what is in sight where it stands -/
def Stmt.Place.function? (P : Stmt.Place) : Option (FunctionHead × Sight) :=
  match P.statement with
  | .function h _ => some (h, P.here)
  | _ => none

/-- a loop is around, and no function is between -/
def InLoop (around : List Stmt.Place) : Prop :=
  ∃ inner P outer, around = inner ++ P :: outer ∧ P.statement.isLoop = true ∧
    ∀ Q ∈ inner, Q.function? = none

def innermostFunction? (around : List Stmt.Place) : Option (FunctionHead × Sight) :=
  around.findSome? Stmt.Place.function?

/-- neither jumps nor returns stop here -/
def Stmt.Place.Transparent (P : Stmt.Place) : Prop := P.statement.isLoop = false ∧ P.function? = none

variable {around : List Stmt.Place} {P : Stmt.Place}

theorem inLoop_nil : ¬ InLoop [] := by
  rintro ⟨inner, P, outer, h, _⟩
  exact absurd h.symm (append_ne_nil_of_right_ne_nil inner (cons_ne_nil P outer))

theorem inLoop_of_loop (h : P.statement.isLoop = true) : InLoop (P :: around) :=
  ⟨[], P, around, rfl, h, nofun⟩

theorem inLoop_cons : InLoop (P :: around) ↔
    P.statement.isLoop = true ∨ P.function? = none ∧ InLoop around := by
  constructor
  · rintro ⟨inner, Q, outer, h, hloop, hinner⟩
    cases inner with
    | nil =>
      cases h
      exact .inl hloop
    | cons R inner =>
      cases h
      obtain ⟨hR, hinner⟩ := forall_mem_cons.mp hinner
      exact .inr ⟨hR, inner, Q, outer, rfl, hloop, hinner⟩
  · rintro (hloop | ⟨hP, inner, Q, outer, rfl, hloop, hinner⟩)
    · exact inLoop_of_loop hloop
    · exact ⟨P :: inner, Q, outer, rfl, hloop, forall_mem_cons.mpr ⟨hP, hinner⟩⟩

theorem Stmt.Place.Transparent.inLoop_cons (h : P.Transparent) : InLoop (P :: around) ↔ InLoop around := by
  rw [TypedScript.inLoop_cons, h.1, h.2]
  exact ⟨fun h => (h.resolve_left Bool.false_ne_true).2, fun h => .inr ⟨rfl, h⟩⟩

theorem Stmt.Place.Transparent.innermostFunction?_cons (h : P.Transparent) :
    innermostFunction? (P :: around) = innermostFunction? around := by
  unfold innermostFunction?
  rw [List.findSome?_cons, h.2]

/-! ## rules -/

/-- Jumps stand in a loop, with no function between.  Returns stand in a function; the innermost one
decides whether there is a value, and the value fits. -/
def Stmt.Spot.Legal (S : Stmt.Spot) : Prop :=
  match S.place.statement with
  | .breakLoop => InLoop S.around
  | .continueLoop => InLoop S.around
  | .returnValue value =>
    ∃ h Γ r, innermostFunction? S.around = some (h, Γ) ∧ h.returnsAt? Γ = some r ∧
      match value with
      | some e => r ≠ .none ∧ ∃ t, e.type = some t ∧ t.assignable r = true
      | none => r = .none ∨ ∃ u, r = .nullable u
  | _ => True

/-! ## scopes and surroundings -/

/-- what is written on the function around is what a scope knows of it -/
def KnownFunction : Option (FunctionHead × Sight) → Option Signature → Prop
  | none, none => True
  | some (h, Γ), some f => h.returnsAt? Γ = some f.returns ∧ h.async = f.async
  | _, _ => False

structure Scope.Stands (around : List Stmt.Place) (Γ : Sight) (s : Scope) : Prop where
  types : ∀ x, Γ.lookup x = (s.findClass? x).map ClassBinding.type
  loop : s.frame.insideLoop = true ↔ InLoop around
  function : KnownFunction (innermostFunction? around) s.frame.function

namespace Scope.Stands

variable {Γ : Sight} {s : Scope}
variable {f : Signature}

theorem function_of (h : s.Stands around Γ) (hf : s.frame.function = some f) :
    ∃ head Δ, innermostFunction? around = some (head, Δ) ∧ head.returnsAt? Δ = some f.returns ∧
      head.async = f.async := by
  have hknown := h.function
  rw [hf] at hknown
  cases hinner : innermostFunction? around with
  | none =>
    rw [hinner] at hknown
    exact hknown.elim
  | some found =>
    rw [hinner] at hknown
    exact ⟨found.1, found.2, rfl, hknown⟩

theorem root {s : Scope} (hfunction : s.frame.function = none) (hloop : s.frame.insideLoop = false) :
    s.enterBlock.Stands [] s.sight where
  types := s.lookup_sight
  loop := by
    show s.frame.insideLoop = true ↔ _
    rw [hloop]
    exact ⟨fun h => absurd h Bool.false_ne_true, fun h => absurd h inLoop_nil⟩
  function := by
    show KnownFunction none s.frame.function
    rw [hfunction]
    trivial

theorem defineVariable (h : s.Stands around Γ) (x : String) (b : Binding) :
    (s.defineVariable x b).Stands around Γ := ⟨h.types, h.loop, h.function⟩

theorem defineClass (h : s.Stands around Γ) (x : String) (b : ClassBinding) :
    (s.defineClass x b).Stands around ((x, b.type) :: Γ) where
  types y := by
    rw [Scope.findClass?_defineClass, lookup_cons, h.types]
    by_cases hy : y = x
    · rw [if_pos hy, beq_iff_eq.mpr hy]
      rfl
    · rw [if_neg hy, beq_eq_false_iff_ne.mpr hy]
  loop := h.loop
  function := h.function

theorem transparent (hP : P.Transparent) : s.Stands (P :: around) Γ ↔ s.Stands around Γ := by
  constructor
  · rintro ⟨htypes, hloop, hfunction⟩
    rw [hP.inLoop_cons] at hloop
    rw [hP.innermostFunction?_cons] at hfunction
    exact ⟨htypes, hloop, hfunction⟩
  · rintro ⟨htypes, hloop, hfunction⟩
    refine ⟨htypes, hloop.trans hP.inLoop_cons.symm, ?_⟩
    rw [hP.innermostFunction?_cons]
    exact hfunction

theorem enterBlock (h : s.Stands around Γ) (hP : P.Transparent) : s.enterBlock.Stands (P :: around) Γ :=
  (transparent hP).mpr ⟨h.types, h.loop, h.function⟩

theorem enterLoop (h : s.Stands around Γ) (hP : P.statement.isLoop = true) :
    s.enterLoop.Stands (P :: around) Γ where
  types := h.types
  loop := ⟨fun _ => inLoop_of_loop hP, fun _ => rfl⟩
  function := by
    have hnone : P.function? = none := by
      unfold Stmt.Place.function?
      cases hs : P.statement <;> first | rfl | (rw [hs] at hP; exact absurd hP Bool.false_ne_true)
    unfold innermostFunction?
    rw [List.findSome?_cons, hnone]
    exact h.function

theorem enterFunction (h : s.Stands around Γ) {head : FunctionHead} (hP : P.statement = .function head body)
    (hreturns : head.returnsAt? P.here = some f.returns) (hasync : head.async = f.async) :
    (s.enterFunction f).Stands (P :: around) Γ where
  types := h.types
  loop := by
    have hfunction : P.function? ≠ none := by
      unfold Stmt.Place.function?
      rw [hP]
      exact nofun
    rw [inLoop_cons, hP]
    exact ⟨nofun, fun h => h.elim nofun fun h => absurd h.1 hfunction⟩
  function := by
    unfold innermostFunction? Stmt.Place.function?
    rw [List.findSome?_cons, hP]
    exact ⟨hreturns, hasync⟩

end Scope.Stands

theorem Stmt.Place.transparent_of_statement (h : P.statement = s) (hloop : s.isLoop = false)
    (hfunction : ∀ head body, s ≠ .function head body) : P.Transparent := by
  subst h
  refine ⟨hloop, ?_⟩
  unfold Stmt.Place.function?
  split
  · next head body hs => exact absurd hs (hfunction head body)
  · rfl

/-! ## declarations -/

variable {Γ : Sight}
variable {s : Scope}

theorem Scope.Stands.gains (hs : s.Stands around Γ) (h : s.Gains names classes Δ s') :
    s'.Stands around (Δ ++ Γ) := by
  induction h generalizing Γ with
  | refl => exact hs
  | «variable» _ _ ih => exact ih (hs.defineVariable _ _)
  | «class» _ _ ih =>
    rw [append_assoc]
    exact ih (hs.defineClass _ _)

theorem FunctionHead.stands (hs : s.Stands around Γ) {h h' : FunctionHead} (hr : h.returnType s = .ok r)
    (params : List (Param Ty)) (hP : P.statement = .function h' body) (hhere : P.here = Γ)
    (hreturns : h'.returns = h.returns) (hasync : h'.async = h.async) :
    (s.enterFunction ⟨params, r, h.async⟩).Stands (P :: around) Γ := by
  refine hs.enterFunction hP ?_ hasync
  rw [hhere, FunctionHead.returnsAt?, hreturns]
  exact FunctionHead.returnsAt?_of_returnType hs.types hr

/-! ## returns -/

theorem Ty.none_assignable (h : Ty.none.assignable r = true) : r = .none ∨ ∃ u, r = .nullable u := by
  unfold Ty.assignable at h
  cases r with
  | nullable u => exact .inr ⟨u, rfl⟩
  | none => exact .inl rfl
  | _ => exact absurd h (by simp)

theorem ReturnAccepted.legal (h : ReturnAccepted s value value') (hs : s.Stands around Γ)
    (hP : P.statement = .returnValue value') : (⟨P, around⟩ : Stmt.Spot).Legal := by
  unfold Stmt.Spot.Legal
  rw [hP]
  cases h with
  | none hf hfits =>
    obtain ⟨head, Δ, hinner, hreturns, _⟩ := hs.function_of hf
    exact ⟨head, Δ, _, hinner, hreturns, Ty.none_assignable hfits⟩
  | some hf hvalue he hfits =>
    obtain ⟨head, Δ, hinner, hreturns, _⟩ := hs.function_of hf
    exact ⟨head, Δ, _, hinner, hreturns, hvalue, _, he.type, hfits⟩

/-! ## accepted trees -/

variable {root : Scope} {L : List Stmt.Place} {H : Prop}
variable {p q : Program}

/-- the names of the scope are declared at places of `L`; under `H` it knows its surroundings too -/
structure Scope.Placed (root : Scope) (L : List Stmt.Place) (H : Prop) (around : List Stmt.Place) (Γ : Sight)
    (s : Scope) : Prop where
  known : root.Known L Γ s
  stands : H → s.Stands around Γ

theorem Scope.Placed.enterBlock (h : root.Placed L H around Γ s) (hP : P.Transparent) :
    root.Placed L H (P :: around) Γ s.enterBlock :=
  ⟨h.known.enter _ _, fun hH => (h.stands hH).enterBlock hP⟩

theorem Scope.Placed.enterLoop (h : root.Placed L H around Γ s)
    (hP : P.statement.isLoop = true) : root.Placed L H (P :: around) Γ s.enterLoop :=
  ⟨h.known.enter _ _, fun hH => (h.stands hH).enterLoop hP⟩

/-- the statement was accepted in a scope whose names are known -/
def Stmt.Place.Accepted (root : Scope) (L : List Stmt.Place) (P : Stmt.Place) : Prop :=
  ∃ c s c', Stmt.Accepted c s c' P.statement ∧ root.Known L P.here c.scope

/-- the statement was accepted in a scope that knows where it stands -/
def Stmt.Spot.Accepted (root : Scope) (L : List Stmt.Place) (H : Prop) (S : Stmt.Spot) : Prop :=
  ∃ c s c', Stmt.Accepted c s c' S.place.statement ∧ root.Placed L H S.around S.place.here c.scope

mutual

theorem Stmt.Accepted.spots {Γ : Sight} {c c' : Context} {s s' : Stmt} (h : Stmt.Accepted c s c' s')
    {around : List Stmt.Place} (hc : root.Placed L H around Γ c.scope) {P : Stmt.Place} (hP : P ∈ L)
    (hs' : P.statement = s') (hhere : P.here = Γ) (hL : ∀ S ∈ s'.spots (P :: around) Γ, S.place ∈ L) :
    root.Known L (s'.classes ++ Γ) c'.scope ∧ ∀ S ∈ s'.spots (P :: around) Γ, S.Accepted root L H := by
  match h with
  | .declare _ _ hds =>
    refine ⟨hds.known hc.known fun d id t hd hid ht => ?_, nofun⟩
    exact ⟨P, hP, .variable hs' hd hid ht⟩
  | @Stmt.Accepted.function _ c₁ c₂ h body body' ps ps₁ ps₂ params r hps hr hps₁ hps₂ hbody =>
    have hknown := hps₂.known (hc.known.enter (some ⟨params, r, h.async⟩) false)
      fun p id t hp hid ht => ⟨P, hP, .parameter hs' hp hid ht⟩
    have hstands := fun hH =>
      (FunctionHead.stands (hc.stands hH) hr params hs' hhere rfl rfl).gains hps₂.gains
    exact ⟨hc.known, (hbody.spots ⟨hknown, hstands⟩ hL).2⟩
  | @Stmt.Accepted.classDef _ c₁ c₂ h h' body body' hhead hbody =>
    have htransparent := P.transparent_of_statement hs' rfl nofun
    have hstands := fun hH => (Scope.Stands.transparent htransparent).mpr ((hc.stands hH).gains hhead.gains)
    rw [Stmt.classes, append_assoc]
    exact hbody.spots ⟨hhead.known hc.known hP hs', hstands⟩ hL
  | @Stmt.Accepted.conditional _ c₁ c₂ branches branches' otherwise otherwise' hbranches hotherwise =>
    have htransparent := P.transparent_of_statement hs' rfl nofun
    have hspots := hbranches.spots hc htransparent fun S hS => hL S (mem_append_left _ hS)
    have hc₁ := hbranches.scope_eq ▸ hc
    have hspots' := hotherwise.spots hc₁ htransparent fun S hS => hL S (mem_append_right _ hS)
    exact ⟨hotherwise.scope_eq ▸ hc₁.known, forall_mem_append.mpr ⟨hspots, hspots'⟩⟩
  | @Stmt.Accepted.switch _ c₁ c₂ scrutinee scrutinee' t cases cases' otherwise otherwise' _ hcases
      hotherwise =>
    have htransparent := P.transparent_of_statement hs' rfl nofun
    have hspots := hcases.spots hc htransparent fun S hS => hL S (mem_append_left _ hS)
    have hc₁ := hcases.scope_eq ▸ hc
    have hspots' := hotherwise.spots hc₁ htransparent fun S hS => hL S (mem_append_right _ hS)
    exact ⟨hotherwise.scope_eq ▸ hc₁.known, forall_mem_append.mpr ⟨hspots, hspots'⟩⟩
  | .whileLoop _ hbody =>
    exact ⟨hc.known, (hbody.spots (hc.enterLoop (P := P) (by rw [hs']; rfl)) hL).2⟩
  | .forLoop hhead hbody =>
    have hinner := hc.enterLoop (P := P) (by rw [hs']; rfl)
    have hknown := hhead.known hinner.known hP hs'
    exact ⟨hc.known, (hbody.spots ⟨hknown, fun hH => (hinner.stands hH).gains hhead.gains⟩ hL).2⟩
  | .rangeLoop _ _ _ _ hbody =>
    exact ⟨hc.known, (hbody.spots (hc.enterLoop (P := P) (by rw [hs']; rfl)) hL).2⟩
  | .block hbody =>
    have hinner := hc.enterBlock (P.transparent_of_statement hs' rfl nofun)
    exact ⟨hc.known, (hbody.spots hinner hL).2⟩
  | .expression _ | .print _ | .assign _ _ _ | .breakLoop _ | .continueLoop _ | .returnValue _ =>
    exact ⟨hc.known, nofun⟩

theorem EachAccepted.spots {Γ : Sight} {c c' : Context} {ss ss' before : List Stmt}
    (h : EachAccepted c ss c' ss') {around : List Stmt.Place}
    (hc : root.Placed L H around (bodyClasses before ++ Γ) c.scope)
    (hL : ∀ S ∈ bodySpots around Γ before ss', S.place ∈ L) :
    root.Known L (bodyClasses (before ++ ss') ++ Γ) c'.scope ∧
      ∀ S ∈ bodySpots around Γ before ss', S.Accepted root L H := by
  match h with
  | .nil =>
    rw [append_nil]
    exact ⟨hc.known, nofun⟩
  | @EachAccepted.cons _ c₁ _ s s' ss ss' hs hss =>
    have hL' := fun S hS => hL S (mem_cons_of_mem _ hS)
    obtain ⟨hknown, hspots⟩ := hs.spots (P := ⟨Γ, before, s'⟩) hc (hL _ mem_cons_self) rfl rfl
      fun S hS => hL' S (mem_append_left _ hS)
    -- the classes of the statement come in sight for the rest of the list
    have hc₁ : root.Placed L H around (bodyClasses (before ++ [s']) ++ Γ) c₁.scope := by
      rw [bodyClasses_append, append_assoc]
      exact ⟨hknown, fun hH => (hc.stands hH).gains hs.gains⟩
    obtain ⟨hc₂, hspots'⟩ := hss.spots hc₁ fun S hS => hL' S (mem_append_right _ hS)
    rw [append_assoc] at hc₂
    have hhere : Stmt.Spot.Accepted root L H ⟨⟨Γ, before, s'⟩, around⟩ := ⟨c, s, c₁, hs, hc⟩
    exact ⟨hc₂, forall_mem_cons.mpr ⟨hhere, forall_mem_append.mpr ⟨hspots, hspots'⟩⟩⟩

theorem BodyAccepted.spots {Γ : Sight} {c c' : Context} {body body' : List Stmt}
    (h : BodyAccepted c body c' body') {around : List Stmt.Place} (hc : root.Placed L H around Γ c.scope)
    (hL : ∀ S ∈ bodySpots around Γ [] body', S.place ∈ L) :
    root.Known L (bodyClasses body' ++ Γ) c'.scope ∧
      ∀ S ∈ bodySpots around Γ [] body', S.Accepted root L H := by
  match h with
  | @BodyAccepted.intro _ c₁ _ _ hoisted _ hhoisted heach =>
    have hfunctions : ∀ head inner, .function head inner ∈ hoisted → ∃ P ∈ L, ∃ head' inner',
        P.start = Γ ∧ P.statement = .function head' inner' ∧ head.SameText head' := by
      intro head inner hmem
      obtain ⟨head', inner', hmem', hsame⟩ := heach.texts hmem
      obtain ⟨S, hS, hstart, hstatement⟩ := @exists_spot_of_mem around Γ [] _ _ hmem'
      exact ⟨S.place, hL S hS, head', inner', hstart, hstatement, hsame⟩
    exact @EachAccepted.spots Γ _ _ _ _ [] heach _
      ⟨hhoisted.known hc.known hfunctions, fun hH => (hc.stands hH).gains hhoisted.gains.1⟩ hL

theorem BranchesAccepted.spots {Γ : Sight} {c c' : Context} {gs gs' : List (Guarded Stmt)}
    (h : BranchesAccepted c gs c' gs') {around : List Stmt.Place} (hc : root.Placed L H around Γ c.scope)
    {P : Stmt.Place} (hP : P.Transparent) (hL : ∀ S ∈ branchSpots (P :: around) Γ gs', S.place ∈ L) :
    ∀ S ∈ branchSpots (P :: around) Γ gs', S.Accepted root L H := by
  match h with
  | .nil => exact nofun
  | .cons _ hbody hgs =>
    have hspots := (hbody.spots (hc.enterBlock hP) fun S hS => hL S (mem_append_left _ hS)).2
    have hspots' := hgs.spots hc hP fun S hS => hL S (mem_append_right _ hS)
    exact forall_mem_append.mpr ⟨hspots, hspots'⟩

theorem OtherwiseAccepted.spots {Γ : Sight} {c c' : Context} {o o' : Option (List Stmt)}
    (h : OtherwiseAccepted c o c' o') {around : List Stmt.Place} (hc : root.Placed L H around Γ c.scope)
    {P : Stmt.Place} (hP : P.Transparent) (hL : ∀ S ∈ otherwiseSpots (P :: around) Γ o', S.place ∈ L) :
    ∀ S ∈ otherwiseSpots (P :: around) Γ o', S.Accepted root L H := by
  match h with
  | .none => exact nofun
  | .some hbody => exact (hbody.spots (hc.enterBlock hP) hL).2

end

theorem Stmt.Spot.Accepted.legal {S : Stmt.Spot} (h : S.Accepted root L True) : S.Legal := by
  obtain ⟨⟨Γ, before, s'⟩, around⟩ := S
  obtain ⟨c, s, c', haccepted, hc⟩ := h
  have hstands := hc.stands trivial
  cases haccepted with
  | breakLoop hloop => exact hstands.loop.mp hloop
  | continueLoop hloop => exact hstands.loop.mp hloop
  | returnValue hvalue => exact hvalue.legal hstands rfl
  | _ => trivial

theorem spots_of_analyse (hroot : H → root.enterBlock.Stands [] root.sight)
    (h : analyse root p = .ok q) : ∀ S ∈ spotsOf root q, S.Accepted root (placesOf root q) H := by
  obtain ⟨c, hbody⟩ := accepted_of_analyse h
  refine (hbody.spots ⟨(Scope.Known.refl root _).enter _ _, hroot⟩ fun S hS => ?_).2
  rw [placesOf, ← place_bodySpots [] root.sight [] q]
  exact mem_map_of_mem hS

theorem legal_spots_of_analyse (hfunction : root.frame.function = none)
    (hloop : root.frame.insideLoop = false) (h : analyse root p = .ok q) : ∀ S ∈ spotsOf root q, S.Legal :=
  fun S hS => (spots_of_analyse (fun _ => .root hfunction hloop) h S hS).legal

theorem places_of_analyse (h : analyse root p = .ok q) :
    ∀ P ∈ placesOf root q, P.Accepted root (placesOf root q) := by
  intro P hP
  rw [placesOf, ← place_bodySpots [] root.sight [] q] at hP
  obtain ⟨S, hS, rfl⟩ := mem_map.mp hP
  obtain ⟨c, s, c', haccepted, hc⟩ := spots_of_analyse (H := False) nofun h S hS
  exact ⟨c, s, c', haccepted, hc.known⟩

end TypedScript
