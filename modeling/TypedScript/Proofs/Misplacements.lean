import TypedScript.Proofs.PlainChecks
import TypedScript.Proofs.Surroundings

/-!
# Misplaced statements

A check that fails for a jump or a return has found a statement that breaks its rule.  Nothing else in
a check fails for these causes, so such a failure goes down into a body until it reaches the statement.
Rules about returns speak of types, and so of the identities of classes: they are read off the tree with
its identities, which the check gives out in the order of `bodyNumbered`.
-/

namespace TypedScript

open List

/-! ## other parts -/

theorem Step.failure_andThen {α β : Type} {x : Step α} {wrap : α → β} {next : α → Context → Step β}
    (h : (x.andThen wrap next).failure = some e) :
    x.failure = some e ∨ ∃ c a, x = .ok c a ∧ (next a c).failure = some e := by
  obtain ⟨c, a, failure⟩ := x
  cases failure with
  | none => exact .inr ⟨c, a, rfl, h⟩
  | some e' => exact .inl h

section
variable {α β γ : Type} {e : Cause} (he : e.ofPlacement = true)
include he

theorem Step.Orderly.failure_andThen {x : Step α} (hx : x.Orderly False True k n) {wrap : α → β}
    {next : α → Context → Step β} (h : (x.andThen wrap next).failure = some e) :
    ∃ c a, x = .ok c a ∧ (next a c).failure = some e :=
  (Step.failure_andThen h).resolve_left fun hfail =>
    Bool.noConfusion (he.symm.trans ((hx.failure e hfail).1 trivial))

theorem Plainly.failure_step {x : Checked α β} {V : β → Prop} (hx : Plainly False V x.result) {wrap : α → γ}
    {next : α → β → Step γ} (h : (x.step c wrap next).failure = some e) :
    ∃ a b, x = ⟨a, .ok b⟩ ∧ (next a b).failure = some e := by
  obtain ⟨a, result⟩ := x
  cases result with
  | ok b => exact ⟨a, b, rfl, h⟩
  | error e' =>
    cases h
    exact Bool.noConfusion (he.symm.trans hx.1)

end

/-! ## classes of numbered trees -/

mutual

theorem Stmt.classes_withoutTypes (s : Stmt) : s.withoutTypes.classes = s.classes := by
  cases s with
  | classDef h body =>
    rw [Stmt.withoutTypes, Stmt.classes, Stmt.classes, bodyClasses_withoutTypes body]
    rfl
  | _ => rfl

theorem bodyClasses_withoutTypes (ss : List Stmt) : bodyClasses (eachWithoutTypes ss) = bodyClasses ss := by
  cases ss with
  | nil => rfl
  | cons s ss =>
    rw [eachWithoutTypes, bodyClasses, bodyClasses, s.classes_withoutTypes, bodyClasses_withoutTypes ss]

end

mutual

theorem Stmt.classes_resolveIn (Δ : Levels) (s : Stmt) : (s.resolveIn Δ).classes = s.classes := by
  cases s with
  | classDef h body =>
    rw [Stmt.resolveIn, Stmt.classes, Stmt.classes, bodyClasses_resolveIn _ body]
    rfl
  | _ => rfl

theorem bodyClasses_resolveIn (Δ : Levels) (ss : List Stmt) :
    bodyClasses (eachResolveIn Δ ss) = bodyClasses ss := by
  cases ss with
  | nil => rfl
  | cons s ss =>
    rw [eachResolveIn, bodyClasses, bodyClasses, s.classes_resolveIn Δ, bodyClasses_resolveIn _ ss]

end

/-- the classes that an accepted statement leaves in sight are those of the numbered statement -/
theorem Stmt.Accepted.classes_eq (h : Stmt.Accepted c s c' s') (hf : s.HasId f) :
    s'.classes = (s.numbered f c.nextId).classes := by
  have htree := (h.lexical (agrees_levels c.scope) hf).tree
  rw [← s'.classes_withoutTypes, htree, Stmt.classes_resolveIn]

/-! ## misplaced statements -/

/-- the statement breaks the rule that the cause speaks of -/
def Stmt.Spot.Violates (S : Stmt.Spot) : Cause → Prop
  | .breakOutsideLoop => S.place.statement = .breakLoop ∧ ¬ InLoop S.around
  | .continueOutsideLoop => S.place.statement = .continueLoop ∧ ¬ InLoop S.around
  | .returnOutsideFunction =>
    (∃ value, S.place.statement = .returnValue value) ∧ innermostFunction? S.around = none
  | .returnValueInVoidFunction =>
    (∃ e, S.place.statement = .returnValue (some e)) ∧
      ∃ h Γ, innermostFunction? S.around = some (h, Γ) ∧ h.returnsAt? Γ = some .none
  | _ => False

theorem Scope.Stands.function_none {s : Scope} (h : s.Stands around Γ) (hnone : s.frame.function = none) :
    innermostFunction? around = none := by
  have hknown := h.function
  rw [hnone] at hknown
  cases hinner : innermostFunction? around with
  | none => rfl
  | some found =>
    rw [hinner] at hknown
    exact hknown.elim

theorem violates_of_checkReturn (h : (checkReturn s value).result = .error e) (he : e.ofPlacement = true)
    (hs : s.Stands around Γ) {P : Stmt.Place} (hP : P.statement = .returnValue value) :
    (⟨P, around⟩ : Stmt.Spot).Violates e := by
  rcases plain_checkReturn (X := False) nofun nofun h with (⟨rfl, hnone⟩ | ⟨rfl, hvalue, f, hf, hvoid⟩) | h
  · exact ⟨⟨value, hP⟩, hs.function_none hnone⟩
  · obtain ⟨v, rfl⟩ := Option.isSome_iff_exists.mp hvalue
    obtain ⟨head, Δ, hinner, hreturns, _⟩ := hs.function_of hf
    rw [hvoid] at hreturns
    exact ⟨⟨v, hP⟩, head, Δ, hinner, hreturns⟩
  · exact Bool.noConfusion (he.symm.trans h.1)

mutual

/-- a statement whose check fails for a fault of placement breaks the rule, or one inside it does -/
theorem Stmt.violates_of_check {s : Stmt} (h : (s.check c).failure = some e) (he : e.ofPlacement = true)
    (hc : c.scope.Stands around Γ) (hf : s.HasId f) {P : Stmt.Place}
    (hP : P.statement = s.numbered f c.nextId) (hhere : P.here = Γ) :
    ∃ S ∈ ⟨P, around⟩ :: (s.numbered f c.nextId).spots (P :: around) Γ, S.Violates e := by
  match s, h with
  | .expression v, h | .print v, h =>
    rw [Stmt.check] at h
    obtain ⟨_, _, _, h⟩ := Plainly.failure_step he (Expr.plainly_check nofun nofun) h
    exact nomatch h
  | .declare constant ds values, h =>
    rw [Stmt.check] at h
    split at h
    · next e' hfault =>
      cases h
      exact Bool.noConfusion (he.symm.trans (plain_declarationFault (X := False) nofun hfault).1)
    · have hfree : PlainTest False fun _ _ => .ok () := fun _ _ _ _ => False.elim
      obtain ⟨_, ts, _, h⟩ := Plainly.failure_step he (plainly_values nofun hfree nofun) h
      have hbind : (bindDeclarators constant ds ts c).Orderly False True _ _ :=
        orderly_bindDeclarators nofun constant nofun nofun
      exact Bool.noConfusion (he.symm.trans ((hbind.failure e h).1 trivial))
  | .assign targets values, h =>
    rw [Stmt.check] at h
    split at h
    · cases h
      exact Bool.noConfusion he
    · obtain ⟨_, ts, _, h⟩ := Plainly.failure_step he (plainly_checkTargets nofun nofun) h
      obtain ⟨_, _, _, h⟩ :=
        Plainly.failure_step he (plainly_values nofun (plainTest_assigned nofun) nofun) h
      exact nomatch h
  | .function head body, h =>
    rw [Stmt.check] at h
    obtain ⟨head', g, hsig, h⟩ := Plainly.failure_step he (FunctionHead.plainly_signature nofun nofun) h
    obtain ⟨ps, params, r, hps, hr, rfl, rfl⟩ := FunctionHead.signature_eq_ok hsig
    obtain ⟨ps₁, _, hps₁, h⟩ := Plainly.failure_step he (plainly_checkDefaults nofun nofun nofun) h
    obtain ⟨c₁, ps₂, hps₂, h⟩ := Step.Orderly.failure_andThen he (orderly_bindParameters nofun nofun) h
    have hbound := parametersBound_of_bind hps₂
    obtain ⟨_, _, hnext⟩ := parameters_lexical (agrees_levels c.scope) (agrees_levels _) hps
      (defaultsAccepted_of_check hps₁) hbound
    have hinner := FunctionHead.stands hc hr params hP hhere rfl rfl
    have hnext' : c₁.nextId = c.nextId + head.parameters.length := hnext
    obtain ⟨S, hS, hviolates⟩ := violates_of_checkBody h he (hinner.gains hbound.gains)
    rw [hnext'] at hS
    exact ⟨S, mem_cons_of_mem _ hS, hviolates⟩
  | .classDef head body, h =>
    rw [Stmt.check] at h
    obtain ⟨c₁, head', hhead, h⟩ := Step.Orderly.failure_andThen he (ClassHead.orderly_declare nofun nofun) h
    have hdeclared := classDeclared_of_declare hhead
    obtain ⟨htree, _, hnext⟩ := hdeclared.lexical (agrees_levels c.scope)
    have hinner := (Scope.Stands.transparent (P.transparent_of_statement hP rfl nofun)).mpr
      (hc.gains hdeclared.gains)
    obtain ⟨S, hS, hviolates⟩ := violates_of_checkBody h he hinner
    have hsight := congrArg ClassHead.sight htree
    change head'.sight = ClassHead.sight { head with id := some c.nextId } at hsight
    rw [hnext, hsight] at hS
    exact ⟨S, mem_cons_of_mem _ hS, hviolates⟩
  | .conditional branches none, h =>
    rw [Stmt.check] at h
    obtain ⟨S, hS, hviolates⟩ :=
      violates_of_checkBranches h he hc (P.transparent_of_statement hP rfl nofun)
    exact ⟨S, mem_cons_of_mem _ (mem_append_left _ hS), hviolates⟩
  | .conditional branches (some body), h =>
    rw [Stmt.check] at h
    have htransparent := P.transparent_of_statement hP rfl nofun
    rcases Step.failure_andThen h with h | ⟨c₁, branches', hbranches, h⟩
    · obtain ⟨S, hS, hviolates⟩ := violates_of_checkBranches h he hc htransparent
      exact ⟨S, mem_cons_of_mem _ (mem_append_left _ hS), hviolates⟩
    · obtain ⟨_, hscope, hnext⟩ :=
        (branchesAccepted_of_check hbranches).lexical (agrees_levels c.scope)
      obtain ⟨S, hS, hviolates⟩ := violates_of_checkBody h he ((hscope ▸ hc).enterBlock htransparent)
      rw [hnext] at hS
      exact ⟨S, mem_cons_of_mem _ (mem_append_right _ hS), hviolates⟩
  | .whileLoop condition body, h =>
    rw [Stmt.check] at h
    obtain ⟨_, _, _, h⟩ := Plainly.failure_step he (plainly_checkCondition nofun nofun nofun) h
    have hloop : P.statement.isLoop = true := by rw [hP]; rfl
    obtain ⟨S, hS, hviolates⟩ := violates_of_checkBody h he (hc.enterLoop hloop)
    exact ⟨S, mem_cons_of_mem _ hS, hviolates⟩
  | .forLoop head body, h =>
    rw [Stmt.check] at h
    obtain ⟨c₁, head', hhead, h⟩ := Step.Orderly.failure_andThen he (ForHead.orderly_check nofun nofun) h
    have haccepted := ForHead.accepted_of_check hhead
    obtain ⟨_, _, hnext⟩ := haccepted.lexical (agrees_levels _)
    have hloop : P.statement.isLoop = true := by rw [hP]; rfl
    obtain ⟨S, hS, hviolates⟩ := violates_of_checkBody h he ((hc.enterLoop hloop).gains haccepted.gains)
    rw [hnext] at hS
    exact ⟨S, mem_cons_of_mem _ hS, hviolates⟩
  | .rangeLoop start stop body, h =>
    rw [Stmt.check] at h
    obtain ⟨_, _, _, h⟩ := Plainly.failure_step he (plainly_checkBound nofun nofun) h
    obtain ⟨_, _, _, h⟩ := Plainly.failure_step he (plainly_checkBound nofun nofun) h
    have hloop : P.statement.isLoop = true := by rw [hP]; rfl
    obtain ⟨S, hS, hviolates⟩ := violates_of_checkBody h he (hc.enterLoop hloop)
    exact ⟨S, mem_cons_of_mem _ hS, hviolates⟩
  | .switch scrutinee cases none, h =>
    rw [Stmt.check] at h
    obtain ⟨_, _, _, h⟩ := Plainly.failure_step he (Expr.plainly_check nofun nofun) h
    obtain ⟨S, hS, hviolates⟩ :=
      violates_of_checkBranches h he hc (P.transparent_of_statement hP rfl nofun)
    exact ⟨S, mem_cons_of_mem _ (mem_append_left _ hS), hviolates⟩
  | .switch scrutinee cases (some body), h =>
    rw [Stmt.check] at h
    obtain ⟨_, _, _, h⟩ := Plainly.failure_step he (Expr.plainly_check nofun nofun) h
    have htransparent := P.transparent_of_statement hP rfl nofun
    rcases Step.failure_andThen h with h | ⟨c₁, cases', hcases, h⟩
    · obtain ⟨S, hS, hviolates⟩ := violates_of_checkBranches h he hc htransparent
      exact ⟨S, mem_cons_of_mem _ (mem_append_left _ hS), hviolates⟩
    · obtain ⟨_, hscope, hnext⟩ := (branchesAccepted_of_check hcases).lexical (agrees_levels c.scope)
      obtain ⟨S, hS, hviolates⟩ := violates_of_checkBody h he ((hscope ▸ hc).enterBlock htransparent)
      rw [hnext] at hS
      exact ⟨S, mem_cons_of_mem _ (mem_append_right _ hS), hviolates⟩
  | .breakLoop, h | .continueLoop, h =>
    rw [Stmt.check] at h
    split at h
    · exact nomatch h
    · next hloop =>
      cases h
      exact ⟨_, mem_cons_self, hP, fun hin => hloop (hc.loop.mpr hin)⟩
  | .returnValue value, h =>
    rw [Stmt.check] at h
    refine ⟨_, mem_cons_self, ?_⟩
    cases hreturn : checkReturn c.scope value with
    | mk tree result =>
      rw [hreturn] at h
      cases result with
      | ok _ => exact nomatch h
      | error e' =>
        cases h
        exact violates_of_checkReturn (congrArg Checked.result hreturn) he hc hP
  | .block body, h =>
    rw [Stmt.check] at h
    obtain ⟨S, hS, hviolates⟩ :=
      violates_of_checkBody h he (hc.enterBlock (P.transparent_of_statement hP rfl nofun))
    exact ⟨S, mem_cons_of_mem _ hS, hviolates⟩
termination_by 2 * s.size
decreasing_by all_goals simp only [Stmt.size]; omega

theorem violates_of_checkEach (h : (checkEach ss c).failure = some e) (he : e.ofPlacement = true)
    (before : List Stmt) (hc : c.scope.Stands around (bodyClasses before ++ Γ)) (hf : HaveIds f ss) :
    ∃ S ∈ bodySpots around Γ before (eachNumbered f c.nextId ss), S.Violates e := by
  match ss, h with
  | [], h =>
    rw [checkEach] at h
    exact nomatch h
  | s :: ss, h =>
    rw [checkEach] at h
    have hplace : ∀ t : Stmt, Stmt.Place.here ⟨Γ, before, t⟩ = bodyClasses before ++ Γ := fun _ => rfl
    rw [eachNumbered, bodySpots]
    rcases Step.failure_andThen h with h | ⟨c₁, s', hs, h⟩
    · obtain ⟨S, hS, hviolates⟩ := Stmt.violates_of_check h he hc hf.1 rfl (hplace _)
      refine ⟨S, ?_, hviolates⟩
      rw [← cons_append]
      exact mem_append_left _ hS
    · have haccepted := Stmt.accepted_of_check hs
      have hnext := (haccepted.lexical (agrees_levels c.scope) hf.1).next
      -- the classes of the statement come in sight for the rest of the list
      have hclasses : (s'.classes ++ (bodyClasses before ++ Γ))
          = bodyClasses (before ++ [s.numbered f c.nextId]) ++ Γ := by
        rw [haccepted.classes_eq hf.1, bodyClasses_append, append_assoc]
        rfl
      have hc₁ := hc.gains haccepted.gains
      rw [hclasses] at hc₁
      obtain ⟨S, hS, hviolates⟩ := violates_of_checkEach h he _ hc₁ hf.2
      rw [hnext] at hS
      exact ⟨S, mem_cons_of_mem _ (mem_append_right _ hS), hviolates⟩
termination_by 2 * bodySize ss
decreasing_by all_goals simp only [bodySize]; omega

theorem violates_of_checkBody (h : (checkBody body c).failure = some e) (he : e.ofPlacement = true)
    (hc : c.scope.Stands around Γ) :
    ∃ S ∈ bodySpots around Γ [] (bodyNumbered c.nextId body), S.Violates e := by
  rw [checkBody_eq] at h
  obtain ⟨c₁, hoisted, hhoist, h⟩ := Step.Orderly.failure_andThen he (orderly_hoist nofun nofun) h
  have hhoisted := hoisted_of_hoist hhoist
  obtain ⟨hids, _, hnext⟩ := hhoisted.lexical (agrees_levels c.scope)
  obtain ⟨S, hS, hviolates⟩ := violates_of_checkEach h he [] (hc.gains hhoisted.gains.1) hids
  rw [hhoisted.sameNumbering.numbered, hnext] at hS
  exact ⟨S, hS, hviolates⟩
termination_by 2 * bodySize body + 1
decreasing_by
  have hsize := bodySize_hoist body c
  rw [hhoist] at hsize
  simp only [Step.ok] at hsize
  omega

theorem violates_of_checkBranches (h : (checkBranches construct gs c).failure = some e)
    (he : e.ofPlacement = true) (hc : c.scope.Stands around Γ) {P : Stmt.Place} (hP : P.Transparent) :
    ∃ S ∈ branchSpots (P :: around) Γ (branchesNumbered c.nextId gs), S.Violates e := by
  match gs, h with
  | [], h =>
    rw [checkBranches] at h
    exact nomatch h
  | ⟨guard, body⟩ :: gs, h =>
    rw [checkBranches] at h
    obtain ⟨_, _, _, h⟩ := Plainly.failure_step he (plainly_checkCondition nofun nofun nofun) h
    rw [branchesNumbered, branchSpots]
    rcases Step.failure_andThen h with h | ⟨c₁, body', hbody, h⟩
    · obtain ⟨S, hS, hviolates⟩ := violates_of_checkBody h he (hc.enterBlock hP)
      exact ⟨S, mem_append_left _ hS, hviolates⟩
    · obtain ⟨c₂, hinner, rfl⟩ := Context.inside_eq_ok hbody
      have hnext := ((bodyAccepted_of_check hinner).lexical (agrees_levels _)).next
      obtain ⟨S, hS, hviolates⟩ := violates_of_checkBranches h he hc hP
      have hnext' : c₂.nextId = c.nextId + (functionCount body + eachTaken body) := hnext
      rw [hnext'] at hS
      exact ⟨S, mem_append_right _ hS, hviolates⟩
termination_by 2 * branchesSize gs
decreasing_by all_goals simp only [branchesSize]; omega

end

/-! ## programs -/

variable {root : Scope}

theorem violates_of_analyse (hfunction : root.frame.function = none) (hloop : root.frame.insideLoop = false)
    (h : analyse root p = .error d) (hd : d.cause.ofPlacement = true) :
    ∃ S ∈ spotsOf root (bodyNumbered 1 p), S.Violates d.cause := by
  unfold analyse checkProgram at h
  dsimp only at h
  split at h
  · exact nomatch h
  · next e hfailure =>
    cases h
    exact violates_of_checkBody hfailure hd (.root hfunction hloop)

/-- In accepted programs jumps and returns stand where they may, and returns have the value that the
function around asks for.  A program that is refused for a misplaced jump or return, or for a value that
is returned from a function without one, has such a statement. -/
theorem analyse_checks_placement (hfunction : root.frame.function = none)
    (hloop : root.frame.insideLoop = false) (p : Program) :
    (∀ q, analyse root p = .ok q → ∀ S ∈ spotsOf root q, S.Legal) ∧
      ∀ d, analyse root p = .error d → d.cause.ofPlacement = true →
        ∃ S ∈ spotsOf root (bodyNumbered 1 p), S.Violates d.cause :=
  ⟨fun _ h => legal_spots_of_analyse hfunction hloop h, fun _ h hd =>
    violates_of_analyse hfunction hloop h hd⟩

/-- `fn f(n: int) -> int? { while (true) { if (n < 2) { return n; } break; } return; }` is accepted, and
`while (true) { fn f() { break; } }` is refused: its `break` stands in a function inside the loop -/
theorem analyse_checks_placement_nested :
    let int := TypeTerm.named "int"
    let yes (t : Option Ty) := Expr.literal (.boolean true) t
    let less (n : Expr) (t u : Option Ty) := Expr.binary .less n (.literal (.integer 2) t) u
    let n := Expr.name ⟨"n", some (.declared 2)⟩ (some .int)
    let use := Expr.name (.ofName "n") none
    let p : Program :=
      [.function ⟨"f", none, [⟨"n", int, none, none, none⟩], some (.nullable int), false⟩
        [.whileLoop (yes none)
          [.conditional [⟨less use none none, [.returnValue (some use)]⟩] none, .breakLoop],
         .returnValue none]]
    let q : Program :=
      [.function ⟨"f", some 1, [⟨"n", int, none, some 2, some .int⟩], some (.nullable int), false⟩
        [.whileLoop (yes (some .bool))
          [.conditional [⟨less n (some .int) (some .bool), [.returnValue (some n)]⟩] none, .breakLoop],
         .returnValue none]]
    let p' : Program := [.whileLoop (yes none) [.function ⟨"f", none, [], none, false⟩ [.breakLoop]]]
    analyse Scope.root p = .ok q ∧ (∀ S ∈ spotsOf Scope.root q, S.Legal) ∧
      analyse Scope.root p' = .error (.unplaced .breakOutsideLoop) ∧
      ∃ S ∈ spotsOf Scope.root (bodyNumbered 1 p'), S.Violates .breakOutsideLoop := by
  intro int yes less n use p q p'
  have h : analyse Scope.root p = .ok q := by cbv
  have h' : analyse Scope.root p' = .error (.unplaced .breakOutsideLoop) := by cbv
  exact ⟨h, (analyse_checks_placement rfl rfl p).1 q h, h',
    (analyse_checks_placement rfl rfl p').2 _ h' rfl⟩

end TypedScript
