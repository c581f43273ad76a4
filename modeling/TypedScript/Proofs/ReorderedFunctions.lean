import TypedScript.Proofs.UnchangedTrees

/-!
# The order of neighbouring functions

The names of the functions of a list are declared before any statement is checked, and a function leaves
nothing in the scope.  So functions that stand side by side may stand in any order, in every list of a
program: only identities are given out in another order.
-/

namespace TypedScript

open List

/-- nothing is changed -/
abbrev unchanged : Change := keeping fun _ => True

/-! ## places -/

/-- a statement around a list of statements -/
inductive Encloses : (List Stmt → Stmt) → Prop
  | function (h : FunctionHead) : Encloses (.function h)
  | classDef (h : ClassHead) : Encloses (.classDef h)
  | branch (before : List (Guarded Stmt)) (guard : Expr) (after : List (Guarded Stmt))
    (otherwise : Option (List Stmt)) :
    Encloses fun body => .conditional (before ++ ⟨guard, body⟩ :: after) otherwise
  | otherwise (branches : List (Guarded Stmt)) : Encloses fun body => .conditional branches (some body)
  | whileLoop (condition : Expr) : Encloses (.whileLoop condition)
  | forLoop (h : ForHead) : Encloses (.forLoop h)
  | rangeLoop (start stop : Expr) : Encloses (.rangeLoop start stop)
  | case (scrutinee : Expr) (before : List (Guarded Stmt)) (guard : Expr) (after : List (Guarded Stmt))
    (default : Option (List Stmt)) :
    Encloses fun body => .switch scrutinee (before ++ ⟨guard, body⟩ :: after) default
  | default (scrutinee : Expr) (cases : List (Guarded Stmt)) :
    Encloses fun body => .switch scrutinee cases (some body)
  | block : Encloses .block

/-- a place for some statements in a list, or in a list inside of it -/
inductive Opening : (List Stmt → List Stmt) → Prop
  | here (before after : List Stmt) : Opening fun run => before ++ (run ++ after)
  | within (before after : List Stmt) {around : List Stmt → Stmt} {place : List Stmt → List Stmt} :
    Encloses around → Opening place → Opening fun run => before ++ around (place run) :: after

/-! ## programs that differ in one place -/

theorem Stmt.alike_unchanged (s : Stmt) : s.Alike unchanged s :=
  s.alike_self (fun _ _ => trivial) fun _ _ => trivial

theorem bodyAlike_unchanged (ss : List Stmt) : BodyAlike unchanged ss ss :=
  bodyAlike_self ss (fun _ _ => trivial) fun _ _ => trivial

theorem BodyAlike.behind (h : BodyAlike unchanged ss ss') (before : List Stmt) :
    BodyAlike unchanged (before ++ ss) (before ++ ss') := by
  induction before with
  | nil => exact h
  | cons s before ih => exact .cons s.alike_unchanged ih

variable {body body' : List Stmt}

theorem BodyAlike.branch (h : BodyAlike unchanged body body') (before after : List (Guarded Stmt))
    {guard : Expr}
    (hguard : guard.Alike unchanged guard) :
    BranchesAlike unchanged (before ++ ⟨guard, body⟩ :: after) (before ++ ⟨guard, body'⟩ :: after) := by
  have hself : ∀ gs, BranchesAlike unchanged gs gs := fun gs =>
    branchesAlike_self gs (fun _ _ => trivial) fun _ _ => trivial
  induction before with
  | nil => exact .cons hguard h (hself after)
  | cons g before ih =>
    cases hself (g :: before) with
    | cons hg hb _ => exact .cons hg hb ih

/-- only the list inside differs; what stands around it is as in the statement around an empty list -/
theorem Encloses.alike (haround : Encloses around) (h : BodyAlike unchanged body body') :
    (around body).Alike unchanged (around body') := by
  have hself := (around []).alike_unchanged
  cases haround with
  | function | classDef | whileLoop | forLoop | rangeLoop | block | otherwise | default =>
    cases hself
    constructor <;> assumption
  | branch before guard after otherwise =>
    have hbranches := h.branch before after (guard.alike_self fun _ _ => trivial)
    cases hself with
    | conditional _ => exact .conditional hbranches
    | conditionalElse _ hbody => exact .conditionalElse hbranches hbody
  | case scrutinee before guard after default =>
    have hbranches := h.branch before after (guard.alike_self fun _ _ => trivial)
    cases hself with
    | switch he _ => exact .switch he hbranches
    | switchDefault he _ hbody => exact .switchDefault he hbranches hbody

theorem BodyAlike.opening (hplace : Opening place)
    (h : ∀ after, BodyAlike unchanged (run ++ after) (run' ++ after)) :
    BodyAlike unchanged (place run) (place run') := by
  induction hplace with
  | here before after => exact (h after).behind before
  | within before after haround _ ih =>
    exact BodyAlike.behind (.cons (haround.alike ih) (bodyAlike_unchanged after)) before

/-! ## runs of functions -/

theorem accepted_swap (hplace : Opening place) (before after : List Stmt) (h g : FunctionHead)
    (hs gs : List Stmt) :
    (∃ q, analyse Scope.root (place (before ++ (.function h hs :: .function g gs :: after))) = .ok q) ↔
      ∃ q, analyse Scope.root (place (before ++ (.function g gs :: .function h hs :: after))) = .ok q := by
  refine (BodyAlike.opening hplace fun rest => ?_).accepted_iff
  cases (Stmt.function h hs).alike_unchanged with
  | function hh hhs =>
    cases (Stmt.function g gs).alike_unchanged with
    | function hg hgs =>
      rw [append_assoc, append_assoc]
      exact BodyAlike.behind (.swap False.elim hh hhs hg hgs (bodyAlike_unchanged (after ++ rest))) before

/-- In any list of a program, at any depth, a run of functions may stand in any order: the program is
accepted or not all the same. -/
theorem analyse_reorders_functions {place : List Stmt → List Stmt} (hplace : Opening place)
    {fs gs : List Stmt}
    (hfunctions : ∀ s ∈ fs, ∃ h body, s = .function h body) (hperm : fs.Perm gs) :
    (∃ q, analyse Scope.root (place fs) = .ok q) ↔ ∃ q, analyse Scope.root (place gs) = .ok q := by
  -- in front of what is permuted there may be functions that stay
  suffices h : ∀ before, (∃ q, analyse Scope.root (place (before ++ fs)) = .ok q) ↔
      ∃ q, analyse Scope.root (place (before ++ gs)) = .ok q from h []
  induction hperm with
  | nil => exact fun _ => Iff.rfl
  | cons s _ ih =>
    intro before
    have hrest := ih (forall_mem_cons.mp hfunctions).2 (before ++ [s])
    rwa [append_assoc, append_assoc] at hrest
  | swap s t rest =>
    intro before
    obtain ⟨⟨h, hs, rfl⟩, ht⟩ := forall_mem_cons.mp hfunctions
    obtain ⟨⟨g, gs, rfl⟩, _⟩ := forall_mem_cons.mp ht
    exact accepted_swap hplace before rest h g hs gs
  | trans hfirst _ ih ih' =>
    intro before
    exact (ih hfunctions before).trans (ih' (fun s hs => hfunctions s (hfirst.mem_iff.mpr hs)) before)

/-- in a class body, a function that calls another one, which has a class of its own -/
theorem analyse_reorders_functions_members :
    let f : Stmt := .function ⟨"f", none, [], none, false⟩
      [.expression (.call (.name (.ofName "g") none) [] false false none)]
    let g : Stmt := .function ⟨"g", none, [], none, false⟩ [.classDef ⟨"B", none, []⟩ []]
    (∃ q, analyse Scope.root [.classDef ⟨"A", none, []⟩ [f, g]] = .ok q) ∧
      ∃ q, analyse Scope.root [.classDef ⟨"A", none, []⟩ [g, f]] = .ok q := by
  intro f g
  have hplace : Opening fun run => [] ++ .classDef ⟨"A", none, []⟩ ([] ++ (run ++ [])) :: [] :=
    .within [] [] (.classDef ⟨"A", none, []⟩) (.here [] [])
  have hfunctions : ∀ s ∈ [f, g], ∃ h body, s = .function h body := by simp [f, g]
  have hok : ∃ q, analyse Scope.root [.classDef ⟨"A", none, []⟩ [f, g]] = .ok q := by
    have haccepted : (analyse Scope.root [.classDef ⟨"A", none, []⟩ [f, g]]).toBool = true := by cbv
    cases h : analyse Scope.root [.classDef ⟨"A", none, []⟩ [f, g]] with
    | ok q => exact ⟨q, rfl⟩
    | error d => exact Bool.noConfusion (haccepted.symm.trans (congrArg Except.toBool h))
  exact ⟨hok, (analyse_reorders_functions hplace hfunctions (.swap g f [])).mp hok⟩

end TypedScript
