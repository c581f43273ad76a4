import TypedScript.Proofs.Legibility
import TypedScript.Proofs.Nodes

/-!
# What the nodes of a program are made of

The literals and the names of a node are literals and names of its program.  So every expression of an
accepted program can be printed under the names of the program's script.
-/

namespace TypedScript

open List

/-- an expression with some of these literals and uses -/
structure Expr.DrawnFrom (e : Expr) (literals : List Literal) (uses : List Symbol) : Prop where
  literals : e.literals ⊆ literals
  uses : e.uses ⊆ uses

namespace Expr.DrawnFrom

variable {e : Expr} {ls ms : List Literal} {us vs : List Symbol}

theorem refl (e : Expr) : e.DrawnFrom e.literals e.uses := ⟨fun _ h => h, fun _ h => h⟩

theorem mono (h : e.DrawnFrom ls us) (hls : ls ⊆ ms) (hus : us ⊆ vs) : e.DrawnFrom ms vs :=
  ⟨List.Subset.trans h.literals hls, List.Subset.trans h.uses hus⟩

theorem left (h : e.DrawnFrom ls us) (ms : List Literal) (vs : List Symbol) :
    e.DrawnFrom (ls ++ ms) (us ++ vs) :=
  h.mono (subset_append_left ls ms) (subset_append_left us vs)

theorem right (h : e.DrawnFrom ms vs) (ls : List Literal) (us : List Symbol) :
    e.DrawnFrom (ls ++ ms) (us ++ vs) :=
  h.mono (subset_append_right ls ms) (subset_append_right us vs)

end Expr.DrawnFrom

/-! ## nodes of expressions -/

variable {us : List Symbol} {ls : List Literal} {ns ms : List Expr} {e : Expr}

theorem forall_mem_parts (h : ∀ n ∈ ns, n.DrawnFrom ls us) (h' : ∀ n ∈ ms, n.DrawnFrom ls' us') :
    ∀ n ∈ ns ++ ms, n.DrawnFrom (ls ++ ls') (us ++ us') :=
  forall_mem_append.mpr ⟨fun n hn => (h n hn).left _ _, fun n hn => (h' n hn).right _ _⟩

mutual

theorem Expr.nodes_drawn (e : Expr) : ∀ n ∈ e.nodes, n.DrawnFrom e.literals e.uses := by
  match e with
  | .literal v t | .name x t => exact forall_mem_singleton.mpr (.refl _)
  | .binary op left right t =>
    exact forall_mem_cons.mpr ⟨.refl _, forall_mem_parts left.nodes_drawn right.nodes_drawn⟩
  | .unary op operand t => exact forall_mem_cons.mpr ⟨.refl _, operand.nodes_drawn⟩
  | .call callee arguments awaited constructs t =>
    exact forall_mem_cons.mpr
      ⟨.refl _, forall_mem_parts callee.nodes_drawn (Expr.nodesAll_drawn arguments)⟩
  | .subscript base index t =>
    exact forall_mem_cons.mpr ⟨.refl _, forall_mem_parts base.nodes_drawn index.nodes_drawn⟩
  | .member object x t =>
    refine forall_mem_cons.mpr ⟨.refl _, fun n hn => ?_⟩
    exact (object.nodes_drawn n hn).mono (fun _ h => h) (subset_append_left _ _)
  | .collection form elements t => exact forall_mem_cons.mpr ⟨.refl _, Expr.nodesAll_drawn elements⟩
  | .dict entries t => exact forall_mem_cons.mpr ⟨.refl _, Expr.entryNodes_drawn entries⟩

theorem Expr.nodesAll_drawn (es : List Expr) :
    ∀ n ∈ Expr.nodesAll es, n.DrawnFrom (Expr.allLiterals es) (Expr.usesAll es) := by
  match es with
  | [] => exact nofun
  | e :: es => exact forall_mem_parts e.nodes_drawn (Expr.nodesAll_drawn es)

theorem Expr.entryNodes_drawn (es : List (Expr × Expr)) :
    ∀ n ∈ Expr.entryNodes es, n.DrawnFrom (Expr.entryLiterals es) (Expr.entryUses es) := by
  match es with
  | [] => exact nofun
  | (key, value) :: es =>
    exact forall_mem_parts (forall_mem_parts key.nodes_drawn value.nodes_drawn) (Expr.entryNodes_drawn es)

end

theorem Expr.drawn_of_mem (h : e ∈ es) : e.DrawnFrom (Expr.allLiterals es) (Expr.usesAll es) := by
  induction es with
  | nil => exact nomatch h
  | cons e' es ih =>
    rcases mem_cons.mp h with rfl | h
    · exact (DrawnFrom.refl e).left _ _
    · exact (ih h).right _ _

/-! ## parts of parts -/

/-- the parts of each expression of a list are in the list -/
def NodesClosed (ns : List Expr) : Prop := ∀ n ∈ ns, n.nodes ⊆ ns

theorem NodesClosed.append (h : NodesClosed ns) (h' : NodesClosed ms) : NodesClosed (ns ++ ms) := by
  refine forall_mem_append.mpr ⟨fun n hn => ?_, fun n hn => ?_⟩
  · exact subset_append_of_subset_left ms (h n hn)
  · exact subset_append_of_subset_right ns (h' n hn)

theorem NodesClosed.cons {e : Expr} (he : e.nodes = e :: ns) (h : NodesClosed ns) :
    NodesClosed (e :: ns) := by
  refine forall_mem_cons.mpr ⟨he ▸ List.Subset.refl _, fun n hn => ?_⟩
  exact subset_cons_of_subset e (h n hn)

theorem nodesClosed_nil : NodesClosed [] := nofun

mutual

theorem Expr.nodes_closed (e : Expr) : NodesClosed e.nodes := by
  match e with
  | .literal v t | .name x t => exact .cons rfl nodesClosed_nil
  | .binary op left right t => exact .cons rfl (left.nodes_closed.append right.nodes_closed)
  | .unary op operand t => exact .cons rfl operand.nodes_closed
  | .call callee arguments awaited constructs t =>
    exact .cons rfl (callee.nodes_closed.append (Expr.nodesAll_closed arguments))
  | .subscript base index t => exact .cons rfl (base.nodes_closed.append index.nodes_closed)
  | .member object x t => exact .cons rfl object.nodes_closed
  | .collection form elements t => exact .cons rfl (Expr.nodesAll_closed elements)
  | .dict entries t => exact .cons rfl (Expr.entryNodes_closed entries)

theorem Expr.nodesAll_closed (es : List Expr) : NodesClosed (Expr.nodesAll es) := by
  match es with
  | [] => exact nodesClosed_nil
  | e :: es => exact e.nodes_closed.append (Expr.nodesAll_closed es)

theorem Expr.entryNodes_closed (es : List (Expr × Expr)) : NodesClosed (Expr.entryNodes es) := by
  match es with
  | [] => exact nodesClosed_nil
  | (key, value) :: es =>
    exact (key.nodes_closed.append value.nodes_closed).append (Expr.entryNodes_closed es)

end

theorem Stmt.Place.nodes_closed (P : Stmt.Place) : NodesClosed P.nodes := by
  intro n hn m hm
  obtain ⟨e, he, hn⟩ := mem_flatMap.mp hn
  exact mem_flatMap.mpr ⟨e, he, e.nodes_closed n hn hm⟩

/-! ## expressions of statements -/

theorem drawn_of_mem_defaults {ps : List Parameter} (h : e ∈ ps.flatMap (·.default.toList)) :
    e.DrawnFrom (ps.flatMap Parameter.literals) (ps.flatMap Parameter.uses) := by
  obtain ⟨p, hp, he⟩ := mem_flatMap.mp h
  exact (Expr.drawn_of_mem he).mono (fun v hv => mem_flatMap.mpr ⟨p, hp, hv⟩)
    (fun x hx => mem_flatMap.mpr ⟨p, hp, hx⟩)

theorem drawn_of_mem_guards {gs : List (Guarded Stmt)} (h : e ∈ gs.map Guarded.guard) :
    e.DrawnFrom (branchLiterals gs) (branchUses gs) := by
  induction gs with
  | nil => exact nomatch h
  | cons g gs ih =>
    rcases mem_cons.mp h with rfl | h
    · exact ((Expr.DrawnFrom.refl g.guard).left _ _).left _ _
    · exact (ih h).right _ _

theorem ForHead.drawn (h : ForHead) : ∀ e ∈ h.init :: h.test :: h.update.expressions,
    e.DrawnFrom h.literals h.uses := by
  have hupdate : ∀ e ∈ h.update.expressions,
      e.DrawnFrom (Update.literals h.update) (h.target :: h.update.uses) := by
    intro e he
    cases hu : h.update with
    | increment | decrement => rw [hu] at he; exact nomatch he
    | increase v | decrease v =>
      rw [hu] at he
      cases mem_singleton.mp he
      exact (Expr.DrawnFrom.refl e).mono (fun _ h => h) (subset_cons_self _ _)
  refine forall_mem_cons.mpr ⟨((Expr.DrawnFrom.refl _).left _ _).left _ _,
    forall_mem_cons.mpr ⟨((Expr.DrawnFrom.refl _).right _ _).left _ _, fun e he => ?_⟩⟩
  exact (hupdate e he).right _ _

theorem Stmt.expressions_drawn (s : Stmt) : ∀ e ∈ s.expressions, e.DrawnFrom s.literals s.uses := by
  intro e he
  cases s with
  | expression | print => exact mem_singleton.mp he ▸ .refl _
  | declare | returnValue => exact Expr.drawn_of_mem he
  | assign targets values =>
    rcases mem_append.mp he with he | he
    · exact (Expr.drawn_of_mem he).left _ _
    · exact (Expr.drawn_of_mem he).right _ _
  | function | classDef => exact (drawn_of_mem_defaults he).left _ _
  | conditional => exact (drawn_of_mem_guards he).left _ _
  | whileLoop condition body =>
    cases mem_singleton.mp he
    exact (Expr.DrawnFrom.refl _).left _ _
  | forLoop h body => exact (h.drawn e he).left _ _
  | rangeLoop start stop body =>
    rcases mem_cons.mp he with rfl | he
    · exact ((Expr.DrawnFrom.refl _).left _ _).left _ _
    · cases mem_singleton.mp he
      exact ((Expr.DrawnFrom.refl _).right _ _).left _ _
  | switch scrutinee cases otherwise =>
    rcases mem_cons.mp he with rfl | he
    · exact ((Expr.DrawnFrom.refl _).left _ _).left _ _
    · exact ((drawn_of_mem_guards he).right _ _).left _ _
  | breakLoop | continueLoop | block => exact nomatch he

/-! ## places -/

/-- the nodes of some places are made of these literals and uses -/
def PlacesDrawn (L : List Stmt.Place) (literals : List Literal) (uses : List Symbol) : Prop :=
  ∀ P ∈ L, ∀ e ∈ P.nodes, e.DrawnFrom literals uses

namespace PlacesDrawn

variable {L L' : List Stmt.Place} {ls ms : List Literal} {us vs : List Symbol}

theorem left (h : PlacesDrawn L ls us) (ms : List Literal) (vs : List Symbol) :
    PlacesDrawn L (ls ++ ms) (us ++ vs) := fun P hP e he => (h P hP e he).left ms vs

theorem right (h : PlacesDrawn L ms vs) (ls : List Literal) (us : List Symbol) :
    PlacesDrawn L (ls ++ ms) (us ++ vs) := fun P hP e he => (h P hP e he).right ls us

theorem append (h : PlacesDrawn L ls us) (h' : PlacesDrawn L' ms vs) :
    PlacesDrawn (L ++ L') (ls ++ ms) (us ++ vs) :=
  forall_mem_append.mpr ⟨h.left ms vs, h'.right ls us⟩

end PlacesDrawn

theorem Stmt.Place.nodes_drawn (P : Stmt.Place) :
    ∀ e ∈ P.nodes, e.DrawnFrom P.statement.literals P.statement.uses := by
  intro n hn
  obtain ⟨e, he, hn⟩ := mem_flatMap.mp hn
  have hdrawn := P.statement.expressions_drawn e he
  exact (e.nodes_drawn n hn).mono hdrawn.literals hdrawn.uses

mutual

theorem Stmt.places_drawn (Γ : Sight) (s : Stmt) : PlacesDrawn (s.places Γ) s.literals s.uses := by
  match s with
  | .function h body | .whileLoop _ body | .forLoop _ body | .rangeLoop _ _ body =>
    exact (drawn_bodyPlaces Γ [] body).right _ _
  | .classDef h body => exact (drawn_bodyPlaces _ [] body).right _ _
  | .conditional branches otherwise =>
    exact (drawn_branchPlaces Γ branches).append (drawn_otherwisePlaces Γ otherwise)
  | .switch _ cases otherwise =>
    exact ((drawn_branchPlaces Γ cases).right _ _).append (drawn_otherwisePlaces Γ otherwise)
  | .block body => exact drawn_bodyPlaces Γ [] body
  | .expression _ | .declare _ _ _ | .assign _ _ | .breakLoop | .continueLoop | .returnValue _ | .print _ =>
    exact nofun

theorem drawn_bodyPlaces (Γ : Sight) (before body : List Stmt) :
    PlacesDrawn (bodyPlaces Γ before body) (bodyLiterals body) (bodyUses body) := by
  match body with
  | [] => exact nofun
  | s :: ss =>
    refine forall_mem_cons.mpr ⟨fun e he => ?_, (s.places_drawn _).append (drawn_bodyPlaces Γ _ ss)⟩
    exact (Stmt.Place.nodes_drawn ⟨Γ, before, s⟩ e he).left _ _

theorem drawn_branchPlaces (Γ : Sight) (gs : List (Guarded Stmt)) :
    PlacesDrawn (branchPlaces Γ gs) (branchLiterals gs) (branchUses gs) := by
  match gs with
  | [] => exact nofun
  | ⟨guard, body⟩ :: gs => exact ((drawn_bodyPlaces Γ [] body).right _ _).append (drawn_branchPlaces Γ gs)

theorem drawn_otherwisePlaces (Γ : Sight) (o : Option (List Stmt)) :
    PlacesDrawn (otherwisePlaces Γ o) (otherwiseLiterals o) (otherwiseUses o) := by
  match o with
  | none => exact nofun
  | some body => exact drawn_bodyPlaces Γ [] body

end

/-! ## programs -/

variable {ν : DeclId → String} {q : Program}

theorem Expr.DrawnFrom.labelled (he : e.DrawnFrom ls us) (h : Labelled Script.IsName ν ls us ds) :
    Labelled Script.IsName ν e.literals e.uses [] :=
  ⟨fun v hv => h.literals v (he.literals hv), fun x hx => h.uses x (he.uses hx), forall_mem_nil _⟩

theorem Labelled.node (h : Labelled Script.IsName ν (bodyLiterals q) (bodyUses q) (bodySites q))
    (hP : P ∈ placesOf Scope.root q) (he : e ∈ P.nodes) : Labelled Script.IsName ν e.literals e.uses [] :=
  (drawn_bodyPlaces _ [] q P hP e he).labelled h

/-! ## words with a meaning of their own -/

/-- words of the target language that are printed for something else than a name, and the name of a
property that is none -/
def fixedWords : List String := ["true", "false", "null", "new", "Math", "Set", "__proto__"]

theorem mangled_not_mem_fixedWords (base : String) (number : Nat) : mangled base number ∉ fixedWords := by
  have hends : ∀ w ∈ fixedWords, w.toList.getLast?.any Text.isDigit = false := by decide
  intro hmem
  have hlast := hends _ hmem
  have hdigits : Nat.toDigits 10 number ≠ [] := Nat.toDigits_ne_nil
  rw [toList_mangled, List.getLast?_append_of_ne_nil _ (cons_ne_nil _ _),
    List.getLast?_cons_of_ne_nil hdigits, List.getLast?_eq_some_getLast hdigits] at hlast
  have hdigit : Text.isDigit ((Nat.toDigits 10 number).getLast hdigits) = true := by
    refine Script.isDigit_of_mem_toString (n := number) ?_
    have hlist : (toString number).toList = Nat.toDigits 10 number := Nat.toList_repr
    rw [hlist]
    exact getLast_mem hdigits
  exact Bool.false_ne_true (hlast.symm.trans hdigit)

theorem label_not_mem_fixedWords (h : analyse Scope.root p = .ok q) {ns : Names} (hns : ns.Serves q)
    (hx : x ∈ bodyUses q) : x.label ns.label ∉ fixedWords := by
  have hresolved := resolved_of_analyse h x hx
  unfold Symbol.Resolved at hresolved
  unfold Symbol.label
  split at hresolved
  · next id hid =>
    obtain ⟨base, number, heq, _⟩ := hns.label_eq id
    rw [hid]
    show ns.label id ∉ fixedWords
    rw [heq]
    exact mangled_not_mem_fixedWords base number
  · next native hnative =>
    obtain ⟨b, hb, rfl, _⟩ := hresolved
    have hnatives : ∀ b ∈ builtins, b.native ∉ fixedWords := by decide
    rw [hnative]
    exact hnatives b hb
  · exact hresolved.elim

end TypedScript
