import TypedScript.Proofs.Nodes
import TypedScript.Proofs.Writing

/-!
# Well-typed places

Every statement inside a well-typed tree is well typed, and so are the expressions of its statements.  In a
program that can be written no call has the mark of a constructor before the check, so after it only calls
of a name have it.
-/

namespace TypedScript

open List

/-! ## programs without marks -/

variable {es : List Expr} {ps : List Parameter} {h : ForHead} {gs : List (Guarded Stmt)} {s : Stmt}
  {p : Program}

theorem Expr.allUnmarked_of_forall (h : ∀ e ∈ es, e.Unmarked) : Expr.allUnmarked es := by
  induction es with
  | nil => trivial
  | cons e es ih =>
    obtain ⟨he, hes⟩ := forall_mem_cons.mp h
    exact ⟨he, ih hes⟩

theorem Expr.entriesUnmarked_of_forall {es : List (Expr × Expr)}
    (h : ∀ e ∈ es, e.1.Unmarked ∧ e.2.Unmarked) : Expr.entriesUnmarked es := by
  induction es with
  | nil => trivial
  | cons e es ih =>
    obtain ⟨he, hes⟩ := forall_mem_cons.mp h
    exact ⟨he.1, he.2, ih hes⟩

theorem Expr.WellFormed.unmarked {e : Expr} (h : e.WellFormed) : e.Unmarked := by
  induction h with
  | literal _ | name _ => trivial
  | binary _ _ ihl ihr => exact ⟨ihl, ihr⟩
  | unary _ ih | member _ _ ih => exact ih
  | call _ _ ihf ihas => exact ⟨rfl, ihf, Expr.allUnmarked_of_forall ihas⟩
  | subscript _ _ ihb ihi => exact ⟨ihb, ihi⟩
  | collection _ _ ih => exact Expr.allUnmarked_of_forall ih
  | dict _ _ ihk ihv => exact Expr.entriesUnmarked_of_forall fun e he => ⟨ihk e he, ihv e he⟩

theorem unmarked_of_parameters (h : ∀ p ∈ ps, p.WellFormed) :
    ∀ p ∈ ps, p.Unmarked := fun p hp e he => ((h p hp).default e he).unmarked

theorem ForHead.WellFormed.unmarked (hh : h.WellFormed) : h.Unmarked := by
  refine ⟨hh.init.unmarked, hh.test.unmarked, ?_⟩
  have hupdate := hh.update
  cases hu : h.update with
  | increment | decrement => trivial
  | increase e | decrease e =>
    rw [hu] at hupdate
    exact Expr.WellFormed.unmarked hupdate

theorem bodyUnmarked_of_forall (h : ∀ s ∈ body, s.Unmarked) : bodyUnmarked body := by
  induction body with
  | nil => trivial
  | cons s ss ih =>
    obtain ⟨hs, hss⟩ := forall_mem_cons.mp h
    exact ⟨hs, ih hss⟩

theorem branchesUnmarked_of_forall (hguards : ∀ b ∈ gs, b.guard.WellFormed)
    (h : ∀ b ∈ gs, ∀ s ∈ b.body, s.Unmarked) : branchesUnmarked gs := by
  induction gs with
  | nil => trivial
  | cons b gs ih =>
    obtain ⟨hb, hgs⟩ := forall_mem_cons.mp h
    obtain ⟨hguard, hguards⟩ := forall_mem_cons.mp hguards
    exact ⟨hguard.unmarked, bodyUnmarked_of_forall hb, ih hguards hgs⟩

theorem otherwiseUnmarked_of_forall (h : ∀ body ∈ o, ∀ s ∈ body, s.Unmarked) : otherwiseUnmarked o := by
  cases o with
  | none => trivial
  | some body => exact bodyUnmarked_of_forall (h body rfl)

theorem Stmt.WellFormed.unmarked (h : s.WellFormed) : s.Unmarked := by
  induction h with
  | expression he | print he => exact he.unmarked
  | declare _ _ hvalues => exact Expr.allUnmarked_of_forall fun e he => (hvalues e he).unmarked
  | assign _ _ htargets hvalues =>
    exact ⟨Expr.allUnmarked_of_forall fun e he => (htargets e he).unmarked,
      Expr.allUnmarked_of_forall fun e he => (hvalues e he).unmarked⟩
  | function hh _ ih | classDef hh _ ih =>
    exact ⟨unmarked_of_parameters hh.parameters, bodyUnmarked_of_forall ih⟩
  | conditional _ hguards _ _ ihbranches ihotherwise =>
    exact ⟨branchesUnmarked_of_forall hguards ihbranches, otherwiseUnmarked_of_forall ihotherwise⟩
  | whileLoop hcondition _ ih => exact ⟨hcondition.unmarked, bodyUnmarked_of_forall ih⟩
  | forLoop hh _ ih => exact ⟨hh.unmarked, bodyUnmarked_of_forall ih⟩
  | rangeLoop hstart hstop _ ih => exact ⟨hstart.unmarked, hstop.unmarked, bodyUnmarked_of_forall ih⟩
  | switch hscrutinee hguards _ _ ihcases ihotherwise =>
    exact ⟨hscrutinee.unmarked, branchesUnmarked_of_forall hguards ihcases,
      otherwiseUnmarked_of_forall ihotherwise⟩
  | returnValue hvalue => exact fun e he => (hvalue e he).unmarked
  | block _ ih => exact bodyUnmarked_of_forall ih
  | breakLoop | continueLoop => trivial

theorem Program.WellFormed.unmarked (h : p.WellFormed) : bodyUnmarked p :=
  bodyUnmarked_of_forall fun s hs => (h s hs).unmarked

/-! ## well-typed places -/

variable {M : Prop} {D : List Site}

variable {around : Option Ty}

theorem Expr.typed_of_mem (h : Expr.allTyped M D es) : ∀ e ∈ es, e.Typed M D := by
  induction es with
  | nil => exact forall_mem_nil _
  | cons e es ih => exact forall_mem_cons.mpr ⟨h.1, ih h.2⟩

theorem typed_of_mem_defaults (h : ∀ p ∈ ps, p.Typed M D) :
    ∀ e ∈ ps.flatMap (·.default.toList), e.Typed M D := by
  intro e he
  obtain ⟨p, hp, he⟩ := mem_flatMap.mp he
  obtain ⟨_, _, _, hdefault⟩ := h p hp
  exact (hdefault e (Option.mem_toList.mp he)).1

theorem typed_of_mem_guards (h : branchesTyped M D around gs) : ∀ e ∈ gs.map Guarded.guard, e.Typed M D := by
  induction gs with
  | nil => exact forall_mem_nil _
  | cons b gs ih => exact forall_mem_cons.mpr ⟨h.1, ih h.2.2.2⟩

theorem ForHead.Typed.expressions (hh : h.Typed M D) :
    ∀ e ∈ h.init :: h.test :: h.update.expressions, e.Typed M D := by
  refine forall_mem_cons.mpr ⟨hh.init, forall_mem_cons.mpr ⟨hh.test, ?_⟩⟩
  obtain ⟨t, _, _, hupdate⟩ := hh.update
  cases hu : h.update with
  | increment | decrement => exact forall_mem_nil _
  | increase e | decrease e =>
    rw [hu] at hupdate
    exact forall_mem_singleton.mpr hupdate.1

theorem Stmt.Typed.expressions (h : s.Typed M D around) : ∀ e ∈ s.expressions, e.Typed M D := by
  cases s with
  | expression | print => exact forall_mem_singleton.mpr h
  | declare => exact Expr.typed_of_mem h.1
  | assign => exact forall_mem_append.mpr ⟨Expr.typed_of_mem h.1, Expr.typed_of_mem h.2.1⟩
  | function | classDef => exact typed_of_mem_defaults h.1
  | conditional => exact typed_of_mem_guards h.1
  | whileLoop => exact forall_mem_singleton.mpr h.1
  | forLoop => exact h.1.expressions
  | rangeLoop => exact forall_mem_cons.mpr ⟨h.1, forall_mem_singleton.mpr h.2.2.1⟩
  | switch => exact forall_mem_cons.mpr ⟨h.1, typed_of_mem_guards h.2.1⟩
  | returnValue value =>
    cases value with
    | none => exact forall_mem_nil _
    | some e =>
      obtain ⟨_, _, _, he, _⟩ := h
      exact forall_mem_singleton.mpr he
  | breakLoop | continueLoop | block => exact forall_mem_nil _

def PlacesTyped (M : Prop) (D : List Site) (L : List Stmt.Place) : Prop :=
  ∀ P ∈ L, ∃ around, P.statement.Typed M D around

mutual

theorem Stmt.Typed.places {s : Stmt} {around : Option Ty} (h : s.Typed M D around) (Γ : Sight) :
    PlacesTyped M D (s.places Γ) := by
  match s, h with
  | .function _ body, h =>
    obtain ⟨_, r, _, hbody⟩ := h
    exact placesTyped_of_body hbody Γ []
  | .classDef _ body, h => exact placesTyped_of_body h.2 _ []
  | .conditional branches otherwise, h =>
    exact forall_mem_append.mpr ⟨placesTyped_of_branches h.1 Γ, placesTyped_of_otherwise h.2 Γ⟩
  | .whileLoop _ body, h => exact placesTyped_of_body h.2.2 Γ []
  | .forLoop _ body, h => exact placesTyped_of_body h.2 Γ []
  | .rangeLoop _ _ body, h => exact placesTyped_of_body h.2.2.2.2 Γ []
  | .switch _ cases otherwise, h =>
    exact forall_mem_append.mpr ⟨placesTyped_of_branches h.2.1 Γ, placesTyped_of_otherwise h.2.2 Γ⟩
  | .block body, h => exact placesTyped_of_body (show bodyTyped M D _ body from h) Γ []
  | .expression _, _ | .declare _ _ _, _ | .assign _ _, _ | .breakLoop, _ | .continueLoop, _
  | .returnValue _, _ | .print _, _ => exact nofun
termination_by structural s

theorem placesTyped_of_body {around : Option Ty} (h : bodyTyped M D around body) (Γ : Sight)
    (before : List Stmt) : PlacesTyped M D (bodyPlaces Γ before body) := by
  match body, h with
  | [], _ => exact nofun
  | s :: ss, h =>
    refine forall_mem_cons.mpr ⟨⟨around, h.1⟩, ?_⟩
    exact forall_mem_append.mpr ⟨Stmt.Typed.places h.1 _, placesTyped_of_body h.2 Γ _⟩
termination_by structural body

theorem placesTyped_of_branches {gs : List (Guarded Stmt)} {around : Option Ty}
    (h : branchesTyped M D around gs) (Γ : Sight) : PlacesTyped M D (branchPlaces Γ gs) := by
  match gs, h with
  | [], _ => exact nofun
  | ⟨_, body⟩ :: gs, h =>
    exact forall_mem_append.mpr ⟨placesTyped_of_body h.2.2.1 Γ [], placesTyped_of_branches h.2.2.2 Γ⟩
termination_by structural gs

theorem placesTyped_of_otherwise {around : Option Ty} (h : otherwiseTyped M D around o) (Γ : Sight) :
    PlacesTyped M D (otherwisePlaces Γ o) := by
  match o, h with
  | none, _ => exact nofun
  | some body, h => exact placesTyped_of_body (show bodyTyped M D _ body from h) Γ []
termination_by structural o

end

/-! ## constructors -/

def Expr.isName : Expr → Bool
  | .name _ _ => true
  | _ => false

/-- a call with the mark of a constructor is one of a name -/
def Expr.ConstructsByName : Expr → Prop
  | .call callee _ _ constructs _ => constructs = true → callee.isName = true
  | _ => True

mutual

theorem Expr.Typed.constructsByName {e : Expr} (h : e.Typed False D) : ∀ n ∈ e.nodes, n.ConstructsByName := by
  match e, h with
  | .literal v t, _ | .name x t, _ => exact forall_mem_singleton.mpr trivial
  | .binary op left right t, h | .subscript base index t, h =>
    refine forall_mem_cons.mpr ⟨trivial, ?_⟩
    exact forall_mem_append.mpr ⟨Expr.Typed.constructsByName h.1, Expr.Typed.constructsByName h.2.1⟩
  | .unary op operand t, h | .member object x t, h =>
    exact forall_mem_cons.mpr ⟨trivial, Expr.Typed.constructsByName h.1⟩
  | .call callee arguments awaited constructs t, h =>
    have harguments := Expr.constructsByName_of_all h.1
    rcases h.2 with ⟨hcallee, hmark, _⟩ | ⟨_, x, head, id, params, hconstructs⟩
    · refine forall_mem_cons.mpr ⟨fun hc => (hmark hc).elim, ?_⟩
      exact forall_mem_append.mpr ⟨Expr.Typed.constructsByName hcallee, harguments⟩
    · have hname := hconstructs.named
      subst hname
      refine forall_mem_cons.mpr ⟨fun _ => rfl, ?_⟩
      exact forall_mem_append.mpr ⟨forall_mem_singleton.mpr trivial, harguments⟩
  | .collection form elements t, h =>
    exact forall_mem_cons.mpr ⟨trivial, Expr.constructsByName_of_all h.1⟩
  | .dict entries t, h => exact forall_mem_cons.mpr ⟨trivial, Expr.constructsByName_of_entries h.1⟩
termination_by structural e

theorem Expr.constructsByName_of_all {es : List Expr} (h : Expr.allTyped False D es) :
    ∀ n ∈ Expr.nodesAll es, n.ConstructsByName := by
  match es, h with
  | [], _ => exact nofun
  | e :: es, h =>
    exact forall_mem_append.mpr ⟨Expr.Typed.constructsByName h.1, Expr.constructsByName_of_all h.2⟩
termination_by structural es

theorem Expr.constructsByName_of_entries {es : List (Expr × Expr)} (h : Expr.entriesTyped False D es) :
    ∀ n ∈ Expr.entryNodes es, n.ConstructsByName := by
  match es, h with
  | [], _ => exact nofun
  | (key, value) :: es, h =>
    refine forall_mem_append.mpr ⟨?_, Expr.constructsByName_of_entries h.2.2⟩
    exact forall_mem_append.mpr ⟨Expr.Typed.constructsByName h.1, Expr.Typed.constructsByName h.2.1⟩
termination_by structural es

end

theorem constructsByName_of_analyse (hp : p.WellFormed) (h : analyse Scope.root p = .ok q)
    (hP : P ∈ placesOf Scope.root q) (hn : n ∈ P.nodes) : n.ConstructsByName := by
  have hbody : bodyTyped False (bodySites q) none q := bodyTyped_of_analyse h (.inr hp.unmarked)
  obtain ⟨around, htyped⟩ := placesTyped_of_body hbody Scope.root.sight [] P hP
  obtain ⟨e, he, hn⟩ := mem_flatMap.mp hn
  exact (htyped.expressions e he).constructsByName n hn

end TypedScript
