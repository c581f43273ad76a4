import TypedScript.Proofs.Places

/-!
# The names that a body adds to its scope

A body that passes the check leaves in its scope the names that were there, then those of its functions,
then statement by statement those of its variables.  The body of a class has no scope of its own, so it
adds its names by the same rule; all other statements leave the scope as it was.
-/

namespace TypedScript

open List

/-! ## names -/

mutual

/-- the variables that a statement leaves in the scope around it -/
def Stmt.adds : Stmt → List String
  | .declare _ ds _ => ds.map Declarator.name
  | .classDef _ body => functionNames body ++ eachAdds body
  | _ => []

def eachAdds : List Stmt → List String
  | [] => []
  | s :: ss => s.adds ++ eachAdds ss

end

/-- the functions of a body are declared before its statements are checked -/
def bodyAdds (body : List Stmt) : List String := functionNames body ++ eachAdds body

mutual

/-- the classes that a statement leaves in the scope around it -/
def Stmt.addsClasses : Stmt → List String
  | .classDef h body => h.name :: bodyAddsClasses body
  | _ => []

def bodyAddsClasses : List Stmt → List String
  | [] => []
  | s :: ss => s.addsClasses ++ bodyAddsClasses ss

end

/-! ## declarations one after the other -/

/-- from one scope to another by declarations in its frame: of variables, and of classes, whose types come
in sight, those of the last one first -/
inductive Scope.Gains : Scope → List String → List String → Sight → Scope → Prop
  | refl : Gains s [] [] [] s
  | variable {s s' : Scope} : s.frame.vars.find? x = none → Gains (s.defineVariable x b) names classes Δ s' →
    Gains s (x :: names) classes Δ s'
  | class {s s' : Scope} : s.frame.classes.find? x = none → Gains (s.defineClass x b) names classes Δ s' →
    Gains s names (x :: classes) (Δ ++ [(x, b.type)]) s'

section
variable {s s₁ s₂ : Scope} {names names' classes classes' : List String} {Δ Δ' : Sight}

theorem Scope.Gains.trans (h : s.Gains names classes Δ s₁) (h' : s₁.Gains names' classes' Δ' s₂) :
    s.Gains (names ++ names') (classes ++ classes') (Δ' ++ Δ) s₂ := by
  induction h with
  | refl =>
    rw [append_nil]
    exact h'
  | «variable» hx _ ih => exact .variable hx (ih h')
  | «class» hx _ ih =>
    rw [← append_assoc]
    exact .class hx (ih h')

theorem Scope.Gains.around (h : s.Gains names classes Δ s₁) : s₁.frame.function = s.frame.function ∧
    s₁.frame.insideLoop = s.frame.insideLoop ∧ s₁.outer = s.outer := by
  induction h with
  | refl => exact ⟨rfl, rfl, rfl⟩
  | «variable» _ _ ih => exact ih
  | «class» _ _ ih => exact ih

end

variable {c c' : Context}

theorem DeclaratorsBound.gains (h : DeclaratorsBound constant ds ts c ds' c') :
    c.scope.Gains (ds.map Declarator.name) [] [] c'.scope := by
  induction h with
  | nil => exact .refl
  | cons _ hlacks _ ih => exact .variable hlacks ih

theorem ParametersBound.gains (h : ParametersBound ps c ps' c') :
    c.scope.Gains (ps.map Parameter.name) [] [] c'.scope := by
  induction h with
  | nil => exact .refl
  | cons _ hlacks _ ih => exact .variable hlacks ih

theorem Hoisted.gains (h : Hoisted body c hoisted c') :
    c.scope.Gains (functionNames body) [] [] c'.scope ∧ eachAdds hoisted = eachAdds body ∧
      bodyAddsClasses hoisted = bodyAddsClasses body := by
  induction h with
  | nil => exact ⟨.refl, rfl, rfl⟩
  | function _ _ hlacks _ ih => exact ⟨.variable hlacks ih.1, ih.2⟩
  | other hs _ ih =>
    rw [functionNames_cons hs, eachAdds, eachAdds, bodyAddsClasses, bodyAddsClasses, ih.2.1, ih.2.2]
    exact ⟨ih.1, rfl, rfl⟩

theorem ForHead.Accepted.gains (hh : ForHead.Accepted h c h' c') :
    c.scope.Gains [h.index.name] [] [] c'.scope := by
  cases hh with
  | intro _ _ hlacks hc₁ _ _ _ _ =>
    subst hc₁
    exact .variable hlacks .refl

theorem ClassDeclared.gains (hh : ClassDeclared h c h' c') : c.scope.Gains [] [h.name] h'.sight c'.scope := by
  cases hh with
  | @intro _ _ _ params _ _ _ hlacks hs _ _ =>
    subst hs
    exact Scope.Gains.class (b := h.binding c.nextId params) hlacks .refl

/-! ## accepted statements -/

theorem BranchesAccepted.scope_eq (h : BranchesAccepted c gs c' gs') : c'.scope = c.scope := by
  induction gs generalizing c gs' with
  | nil =>
    cases h
    rfl
  | cons g gs ih =>
    cases h with
    | cons _ _ hgs =>
      have hrest := ih hgs
      exact hrest

theorem OtherwiseAccepted.scope_eq (h : OtherwiseAccepted c o c' o') : c'.scope = c.scope := by
  cases h <;> rfl

mutual

theorem Stmt.Accepted.gains {c c' : Context} (h : Stmt.Accepted c s c' s') :
    c.scope.Gains s.adds s.addsClasses s'.classes c'.scope := by
  match h with
  | .declare _ _ hds => exact hds.gains
  | .classDef hhead hbody => exact hhead.gains.trans hbody.gains
  | .conditional hbranches hotherwise =>
    rw [hotherwise.scope_eq, hbranches.scope_eq]
    exact .refl
  | .switch _ hcases hotherwise =>
    rw [hotherwise.scope_eq, hcases.scope_eq]
    exact .refl
  | .expression _ | .print _ | .assign _ _ _ | .function _ _ _ _ _ | .whileLoop _ _ | .forLoop _ _
  | .rangeLoop _ _ _ _ _ | .breakLoop _ | .continueLoop _ | .returnValue _ | .block _ => exact .refl

theorem EachAccepted.gains {c c' : Context} (h : EachAccepted c ss c' ss') :
    c.scope.Gains (eachAdds ss) (bodyAddsClasses ss) (bodyClasses ss') c'.scope := by
  match h with
  | .nil => exact .refl
  | .cons hs hss => exact hs.gains.trans hss.gains

theorem BodyAccepted.gains {c c' : Context} (h : BodyAccepted c body c' body') :
    c.scope.Gains (bodyAdds body) (bodyAddsClasses body) (bodyClasses body') c'.scope := by
  match h with
  | .intro hhoisted heach =>
    obtain ⟨hfunctions, hadds, hclasses⟩ := hhoisted.gains
    have hgains := hfunctions.trans heach.gains
    rw [hadds, hclasses, append_nil] at hgains
    exact hgains

end

/-! ## tables -/

/-- `t'` has the entries of `t` and then those of the names, which are distinct and not in `t` -/
structure Table.Adds {β : Type} (t : Table β) (names : List String) (t' : Table β) : Prop where
  entries : ∃ new : Table β, t' = t ++ new ∧ new.names = names
  fresh : ∀ x ∈ names, x ∉ t.names
  distinct : names.Nodup

namespace Table

variable {β : Type} {t t₁ t₂ : Table β} {names names' : List String}

theorem Adds.refl (t : Table β) : t.Adds [] t := ⟨⟨[], (append_nil t).symm, rfl⟩, nofun, .nil⟩

theorem adds_put (h : t.find? x = none) (b : β) : t.Adds [x] (t.put x b) := by
  have hput : t.put x b = t ++ [(x, b)] ∧ x ∉ t.names := by
    induction t with
    | nil => exact ⟨rfl, nofun⟩
    | cons e t ih =>
      unfold find? at h
      rw [lookup_cons] at h
      split at h
      · exact nomatch h
      · next hne =>
        have hne := ne_of_beq_false hne
        obtain ⟨hput, hnames⟩ := ih h
        rw [put, if_neg (Ne.symm hne), hput]
        exact ⟨rfl, not_mem_cons_of_ne_of_not_mem hne hnames⟩
  exact ⟨⟨[(x, b)], hput.1, rfl⟩, forall_mem_singleton.mpr hput.2, nodup_singleton x⟩

theorem Adds.trans (h : t.Adds names t₁) (h' : t₁.Adds names' t₂) : t.Adds (names ++ names') t₂ := by
  obtain ⟨⟨new, rfl, rfl⟩, hfresh, hdistinct⟩ := h
  obtain ⟨⟨new', rfl, rfl⟩, hfresh', hdistinct'⟩ := h'
  have happend : ∀ x ∈ new'.names, x ∉ t.names ∧ x ∉ new.names := fun x hx =>
    not_or.mp (mem_append.not.mp (map_append.symm ▸ hfresh' x hx))
  refine ⟨⟨new ++ new', append_assoc _ _ _, map_append⟩, ?_, ?_⟩
  · exact forall_mem_append.mpr ⟨hfresh, fun x hx => (happend x hx).1⟩
  · refine nodup_append.mpr ⟨hdistinct, hdistinct', fun x hx y hy heq => ?_⟩
    exact (happend y hy).2 (heq ▸ hx)

end Table

theorem Variables.adds_put {v : Variables} (h : v.find? x = none) (b : Binding) :
    v.entries.Adds [x] (v.put x b).entries := by
  rw [entries_put]
  exact Table.adds_put (v.find?_eq x ▸ h) b

/-- the scope has more variables and classes in its frame, and nothing else has changed -/
structure Scope.Adds (s : Scope) (names classes : List String) (s' : Scope) : Prop where
  vars : s.frame.vars.entries.Adds names s'.frame.vars.entries
  classes : s.frame.classes.Adds classes s'.frame.classes
  around : s'.frame.function = s.frame.function ∧ s'.frame.insideLoop = s.frame.insideLoop ∧
    s'.outer = s.outer

theorem Scope.Gains.adds {s s' : Scope} (h : s.Gains names classes Δ s') : s.Adds names classes s' := by
  refine ⟨?_, ?_, h.around⟩
  · induction h with
    | refl => exact .refl _
    | «variable» hx _ ih => exact (Variables.adds_put hx _).trans ih
    | «class» _ _ ih => exact ih
  · induction h with
    | refl => exact .refl _
    | «variable» _ _ ih => exact ih
    | «class» hx _ ih => exact (Table.adds_put hx _).trans ih

/-! ## bodies -/

/-- A body that passes the check leaves in its scope the variables that were there, then those that it
adds: its functions, then statement by statement what is declared, class bodies included.  The new names
are distinct and were not there; the classes are those of the body and of its class bodies. -/
theorem checkBody_adds_names {body : List Stmt} {c : Context} (h : (checkBody body c).failure = none) :
    c.scope.Adds (bodyAdds body) (bodyAddsClasses body) (checkBody body c).context.scope := by
  have hok : checkBody body c = .ok (checkBody body c).context (checkBody body c).tree := by
    rw [Step.ok, ← h]
  exact (bodyAccepted_of_check hok).gains.adds

/-- `class A { let x = 1; class B { } fn m() { } } while (true) { let y = 2; } let z = 3; fn f() { }` adds
`f`, `m`, `x`, `z` and the classes `A`, `B` -/
theorem checkBody_adds_names_class : let number (n : Int) := Expr.literal (.integer n) none
    let declare (x : String) (n : Int) := Stmt.declare false [⟨x, none, none, none⟩] [number n]
    let function (f : String) := Stmt.function ⟨f, none, [], none, false⟩ []
    let body := [.classDef ⟨"A", none, []⟩ [declare "x" 1, .classDef ⟨"B", none, []⟩ [], function "m"],
      .whileLoop (.literal (.boolean true) none) [declare "y" 2], declare "z" 3, function "f"]
    let c : Context := ⟨Scope.root.enterBlock, 1⟩
    bodyAdds body = ["f", "m", "x", "z"] ∧ bodyAddsClasses body = ["A", "B"] ∧
      (checkBody body c).failure = none ∧
      c.scope.Adds ["f", "m", "x", "z"] ["A", "B"] (checkBody body c).context.scope := by
  intro number declare function body c
  have h : (checkBody body c).failure = none := by cbv
  exact ⟨rfl, rfl, h, checkBody_adds_names h⟩

end TypedScript
