import TypedScript.Proofs.Surroundings

/-!
# The nodes of a tree

The expressions of a tree, at any depth, each as it was accepted: in a scope whose names are declared
at places of the tree or in the root.
-/

namespace TypedScript

open List

/-! ## nodes -/

mutual

/-- an expression and all its parts -/
def Expr.nodes : Expr → List Expr
  | .literal v t => [.literal v t]
  | .name x t => [.name x t]
  | .binary op left right t => .binary op left right t :: (left.nodes ++ right.nodes)
  | .unary op operand t => .unary op operand t :: operand.nodes
  | .call callee arguments awaited constructs t =>
    .call callee arguments awaited constructs t :: (callee.nodes ++ Expr.nodesAll arguments)
  | .subscript base index t => .subscript base index t :: (base.nodes ++ index.nodes)
  | .member object x t => .member object x t :: object.nodes
  | .collection form elements t => .collection form elements t :: Expr.nodesAll elements
  | .dict entries t => .dict entries t :: Expr.entryNodes entries

def Expr.nodesAll : List Expr → List Expr
  | [] => []
  | e :: es => e.nodes ++ Expr.nodesAll es

def Expr.entryNodes : List (Expr × Expr) → List Expr
  | [] => []
  | (key, value) :: es => key.nodes ++ value.nodes ++ Expr.entryNodes es

end

def Update.expressions : Update Expr → List Expr
  | .increment => []
  | .decrement => []
  | .increase e => [e]
  | .decrease e => [e]

/-- the expressions of a statement, those of the statements inside it aside -/
def Stmt.expressions : Stmt → List Expr
  | .expression e => [e]
  | .declare _ _ values => values
  | .assign targets values => targets ++ values
  | .function h _ => h.parameters.flatMap (·.default.toList)
  | .classDef h _ => h.parameters.flatMap (·.default.toList)
  | .conditional branches _ => branches.map Guarded.guard
  | .whileLoop condition _ => [condition]
  | .forLoop h _ => h.init :: h.test :: h.update.expressions
  | .rangeLoop start stop _ => [start, stop]
  | .switch scrutinee cases _ => scrutinee :: cases.map Guarded.guard
  | .breakLoop => []
  | .continueLoop => []
  | .returnValue value => value.toList
  | .print e => [e]
  | .block _ => []

def Stmt.Place.nodes (P : Stmt.Place) : List Expr := P.statement.expressions.flatMap Expr.nodes

/-! ## nodes of accepted expressions -/

/-- the name of a class, as the callee of a constructor call -/
def Expr.NamesClass (s : Scope) (e : Expr) : Prop :=
  ∃ (x : Symbol) (b : ClassBinding), s.findClass? x.name = some b ∧
    e = .name (x.resolved b.resolution) (some b.type)

/-- the node is an accepted expression, or names a class in a constructor call -/
def Expr.NodeOf (s : Scope) (e : Expr) : Prop := (∃ e₀ t, Expr.Accepted s e₀ e t) ∨ e.NamesClass s

variable {root : Scope} {L : List Stmt.Place} {Γ : Sight} {s : Scope}

mutual

theorem Expr.Accepted.nodeOf (h : Expr.Accepted s e e' t) : ∀ n ∈ e'.nodes, n.NodeOf s := by
  intro n hn
  have hself : e'.NodeOf s := .inl ⟨e, t, h⟩
  match h with
  | .literal | .name _ => exact mem_singleton.mp hn ▸ hself
  | .binary hl hr _ =>
    rcases mem_cons.mp hn with rfl | hn
    · exact hself
    · exact (mem_append.mp hn).elim (hl.nodeOf n) (hr.nodeOf n)
  | .unary ho _ | .member ho _ =>
    rcases mem_cons.mp hn with rfl | hn
    · exact hself
    · exact ho.nodeOf n hn
  | .call hf _ _ hall =>
    rcases mem_cons.mp hn with rfl | hn
    · exact hself
    · exact (mem_append.mp hn).elim (hf.nodeOf n) (hall.nodeOf n)
  | .construct _ hclass _ _ hall =>
    rcases mem_cons.mp hn with rfl | hn
    · exact hself
    · rcases mem_append.mp hn with hn | hn
      · exact .inr ⟨_, _, hclass, mem_singleton.mp hn⟩
      · exact hall.nodeOf n hn
  | .subscript hb hi _ =>
    rcases mem_cons.mp hn with rfl | hn
    · exact hself
    · exact (mem_append.mp hn).elim (hb.nodeOf n) (hi.nodeOf n)
  | .collection hall =>
    rcases mem_cons.mp hn with rfl | hn
    · exact hself
    · exact hall.nodeOf n hn
  | .dict hentries =>
    rcases mem_cons.mp hn with rfl | hn
    · exact hself
    · exact hentries.nodeOf n hn

theorem Expr.AcceptedAll.nodeOf (h : Expr.AcceptedAll s test seen es es' ts) :
    ∀ n ∈ Expr.nodesAll es', n.NodeOf s := by
  intro n hn
  match h with
  | .nil => exact nomatch hn
  | .cons he _ hes => exact (mem_append.mp hn).elim (he.nodeOf n) (hes.nodeOf n)

theorem Expr.AcceptedEntries.nodeOf (h : Expr.AcceptedEntries s first es es' last) :
    ∀ n ∈ Expr.entryNodes es', n.NodeOf s := by
  intro n hn
  match h with
  | .nil => exact nomatch hn
  | .cons hk hv _ hes =>
    rcases mem_append.mp hn with hn | hn
    · exact (mem_append.mp hn).elim (hk.nodeOf n) (hv.nodeOf n)
    · exact hes.nodeOf n hn

end

/-! ## expressions of accepted statements -/

variable {t : Ty} {e : Expr} {es es' : List Expr} {ts : List Ty} {c c' : Context} {ps ps' : List Parameter}
  {P : Stmt.Place}

/-- the expression was accepted in a scope whose names are known -/
def Expr.KnownAt (root : Scope) (L : List Stmt.Place) (e : Expr) : Prop :=
  ∃ Γ s e₀ t, root.Known L Γ s ∧ Expr.Accepted s e₀ e t

theorem Expr.Accepted.knownAt (h : Expr.Accepted s e e' t) (hs : root.Known L Γ s) : e'.KnownAt root L :=
  ⟨Γ, s, e, t, hs, h⟩

theorem Expr.AcceptedAll.knownAt (h : Expr.AcceptedAll s test seen es es' ts) (hs : root.Known L Γ s) :
    ∀ e ∈ es', e.KnownAt root L := by
  induction es generalizing seen es' with
  | nil =>
    cases h
    exact nofun
  | cons e es ih =>
    cases h with
    | cons he _ hes => exact forall_mem_cons.mpr ⟨he.knownAt hs, ih hes⟩

theorem TargetsAccepted.knownAt (h : TargetsAccepted s es es' ts)
    (hs : root.Known L Γ s) : ∀ e ∈ es', e.KnownAt root L := by
  induction h with
  | nil => exact nofun
  | cons _ he _ _ ih => exact forall_mem_cons.mpr ⟨he.knownAt hs, ih⟩

theorem ParametersBound.defaults (h : ParametersBound ps c ps' c') :
    ps'.flatMap (·.default.toList) = ps.flatMap (·.default.toList) := by
  induction h with
  | nil => rfl
  | cons _ _ _ ih =>
    rw [flatMap_cons, flatMap_cons, ih]
    rfl

theorem DefaultsAccepted.knownAt (h : DefaultsAccepted s ps ps')
    (hs : root.Known L Γ s) : ∀ e ∈ ps'.flatMap (·.default.toList), e.KnownAt root L := by
  induction h with
  | nil => exact nofun
  | required hdefault _ ih =>
    rw [flatMap_cons, hdefault]
    exact ih
  | optional _ _ he _ _ ih => exact forall_mem_cons.mpr ⟨he.knownAt hs, ih⟩

theorem BranchesAccepted.knownAt (h : BranchesAccepted c gs c' gs') (hc : root.Known L Γ c.scope) :
    ∀ e ∈ gs'.map Guarded.guard, e.KnownAt root L := by
  induction gs generalizing c gs' with
  | nil =>
    cases h
    exact nofun
  | cons g gs ih =>
    cases h with
    | cons hguard _ hgs => exact forall_mem_cons.mpr ⟨hguard.knownAt hc, ih hgs hc⟩

theorem UpdateAccepted.knownAt (h : UpdateAccepted s t u u') (hs : root.Known L Γ s) :
    ∀ e ∈ u'.expressions, e.KnownAt root L := by
  cases h with
  | increment | decrement => exact nofun
  | increase he | decrease he => exact forall_mem_singleton.mpr (he.knownAt hs)

theorem ReturnAccepted.knownAt (h : ReturnAccepted s value value') (hs : root.Known L Γ s) :
    ∀ e ∈ value'.toList, e.KnownAt root L := by
  cases h with
  | none => exact nofun
  | some _ _ he _ => exact forall_mem_singleton.mpr (he.knownAt hs)

theorem Stmt.Place.Accepted.expression (h : P.Accepted root L) (hP : P ∈ L) :
    ∀ e ∈ P.statement.expressions, e.KnownAt root L := by
  obtain ⟨c, s, c', hs, hc⟩ := h
  generalize hs' : P.statement = s' at hs
  cases hs with
  | expression he | print he => exact forall_mem_singleton.mpr (he.knownAt hc)
  | declare _ hvalues _ => exact hvalues.knownAt hc
  | assign _ htargets hvalues =>
    exact forall_mem_append.mpr ⟨htargets.knownAt hc, hvalues.knownAt hc⟩
  | function _ _ hps₁ hps₂ _ =>
    show ∀ e ∈ List.flatMap _ _, _
    rw [hps₂.defaults]
    exact hps₁.knownAt hc
  | classDef hhead _ =>
    have hc₁ := hhead.known hc hP hs'
    cases hhead with
    | intro _ _ _ hps₁ hps₂ =>
      show ∀ e ∈ List.flatMap _ _, _
      rw [hps₂.defaults]
      exact hps₁.knownAt hc₁
  | conditional hbranches _ => exact hbranches.knownAt hc
  | whileLoop hcondition _ => exact forall_mem_singleton.mpr (hcondition.knownAt hc)
  | forLoop hhead _ =>
    have hc₀ := hc.enter c.scope.frame.function true
    have hc₁ := hhead.known hc₀ hP hs'
    cases hhead with
    | intro hinit _ _ hc' htest _ _ hupdate =>
      subst hc'
      exact forall_mem_cons.mpr ⟨hinit.knownAt hc₀,
        forall_mem_cons.mpr ⟨htest.knownAt hc₁, hupdate.knownAt hc₁⟩⟩
  | rangeLoop hstart _ hstop _ _ =>
    exact forall_mem_cons.mpr ⟨hstart.knownAt hc, forall_mem_singleton.mpr (hstop.knownAt hc)⟩
  | switch hscrutinee hcases _ =>
    exact forall_mem_cons.mpr ⟨hscrutinee.knownAt hc, hcases.knownAt hc⟩
  | returnValue hvalue => exact hvalue.knownAt hc
  | breakLoop | continueLoop | block => exact nofun

theorem Stmt.Place.Accepted.node (h : P.Accepted root L) (hP : P ∈ L)
    (he : e ∈ P.nodes) : ∃ Γ s, root.Known L Γ s ∧ e.NodeOf s := by
  obtain ⟨e₁, he₁, he⟩ := mem_flatMap.mp he
  obtain ⟨Γ, s, e₀, t, hs, haccepted⟩ := h.expression hP e₁ he₁
  exact ⟨Γ, s, hs, haccepted.nodeOf e he⟩

end TypedScript
