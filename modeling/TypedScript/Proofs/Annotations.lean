import TypedScript.Proofs.Nodes

/-!
# Annotations of accepted trees

The check fills every slot of a tree that it accepts, whatever the root.
-/

namespace TypedScript

open List

/-! ## references of expressions -/

variable {s : Scope}

mutual

theorem Expr.Accepted.filled (h : Expr.Accepted s e e' t) : ∀ x ∈ e'.uses, x.resolution.isSome := by
  match h with
  | .literal => exact nofun
  | .name _ => exact forall_mem_singleton.mpr rfl
  | .binary hl hr _ => exact forall_mem_append.mpr ⟨hl.filled, hr.filled⟩
  | .unary ho _ => exact ho.filled
  | .call hf _ _ hall => exact forall_mem_append.mpr ⟨hf.filled, hall.filled⟩
  | .construct _ _ _ _ hall =>
    exact forall_mem_append.mpr ⟨forall_mem_singleton.mpr rfl, hall.filled⟩
  | .subscript hb hi _ => exact forall_mem_append.mpr ⟨hb.filled, hi.filled⟩
  | .member ho _ => exact forall_mem_append.mpr ⟨ho.filled, forall_mem_singleton.mpr rfl⟩
  | .collection hall => exact hall.filled
  | .dict hentries => exact hentries.filled

theorem Expr.AcceptedAll.filled (h : Expr.AcceptedAll s test seen es es' ts) :
    ∀ x ∈ Expr.usesAll es', x.resolution.isSome := by
  match h with
  | .nil => exact nofun
  | .cons he _ hes => exact forall_mem_append.mpr ⟨he.filled, hes.filled⟩

theorem Expr.AcceptedEntries.filled (h : Expr.AcceptedEntries s first es es' last) :
    ∀ x ∈ Expr.entryUses es', x.resolution.isSome := by
  match h with
  | .nil => exact nofun
  | .cons hk hv _ hes =>
    exact forall_mem_append.mpr ⟨forall_mem_append.mpr ⟨hk.filled, hv.filled⟩, hes.filled⟩

end

/-! ## types of sites -/

variable {us : List Symbol} {c c' : Context} {ts : List Ty} {ps ps' : List Parameter}

/-- what holds a value has its type recorded -/
def Site.HasType : Site → Prop
  | .variable _ d => d.type.isSome
  | .parameter p => p.type.isSome
  | .function _ => True
  | .classDef _ => True

/-- the references and the types of sites are there -/
structure Filled (uses : List Symbol) (sites : List Site) : Prop where
  uses : ∀ x ∈ uses, x.resolution.isSome
  sites : ∀ d ∈ sites, d.HasType

theorem Filled.append (h : Filled us ds) (h' : Filled us' ds') : Filled (us ++ us') (ds ++ ds') :=
  ⟨forall_mem_append.mpr ⟨h.uses, h'.uses⟩, forall_mem_append.mpr ⟨h.sites, h'.sites⟩⟩

theorem Filled.ofUses (h : ∀ x ∈ us, x.resolution.isSome) : Filled us [] :=
  ⟨h, forall_mem_nil _⟩

theorem DeclaratorsBound.filled (h : DeclaratorsBound constant ds ts c ds' c') :
    ∀ d ∈ ds'.map (Site.variable constant), d.HasType := by
  induction h with
  | nil => exact forall_mem_nil _
  | cons _ _ _ ih => exact forall_mem_cons.mpr ⟨rfl, ih⟩

theorem TargetsAccepted.filled (h : TargetsAccepted s es es' ts) :
    ∀ x ∈ Expr.usesAll es', x.resolution.isSome := by
  induction h with
  | nil => exact nofun
  | cons _ he _ _ ih => exact forall_mem_append.mpr ⟨he.filled, ih⟩

theorem DefaultsAccepted.filled (h : DefaultsAccepted s ps ps') :
    ∀ x ∈ ps'.flatMap Parameter.uses, x.resolution.isSome := by
  induction h with
  | nil => exact nofun
  | @required p ps ps' hdefault _ ih =>
    have hp : p.uses = [] := by rw [Parameter.uses, hdefault]; rfl
    rw [flatMap_cons, hp]
    exact ih
  | optional _ _ he _ _ ih =>
    rw [flatMap_cons]
    exact forall_mem_append.mpr ⟨forall_mem_append.mpr ⟨he.filled, nofun⟩, ih⟩

theorem ParametersBound.filled (h : ParametersBound ps c ps' c') :
    ps'.flatMap Parameter.uses = ps.flatMap Parameter.uses ∧ ∀ d ∈ ps'.map Site.parameter, d.HasType := by
  induction h with
  | nil => exact ⟨rfl, forall_mem_nil _⟩
  | cons _ _ _ ih =>
    rw [flatMap_cons, flatMap_cons, ih.1]
    exact ⟨rfl, forall_mem_cons.mpr ⟨rfl, ih.2⟩⟩

theorem parameters_filled (hdefaults : DefaultsAccepted s ps ps₁) (hbound : ParametersBound ps₁ c ps₂ c') :
    Filled (ps₂.flatMap Parameter.uses) (ps₂.map Site.parameter) := by
  obtain ⟨huses, hsites⟩ := hbound.filled
  rw [huses]
  exact ⟨hdefaults.filled, hsites⟩

theorem ClassDeclared.filled (hh : ClassDeclared h c h' c') :
    Filled (h'.parameters.flatMap Parameter.uses) (h'.parameters.map Site.parameter) := by
  cases hh with
  | intro _ _ _ hps₁ hps₂ => exact parameters_filled hps₁ hps₂

theorem UpdateAccepted.filled (h : UpdateAccepted s t u u') : ∀ x ∈ u'.uses, x.resolution.isSome := by
  cases h with
  | increment | decrement => exact nofun
  | increase he | decrease he => exact he.filled

theorem ForHead.Accepted.filled (hh : ForHead.Accepted h c h' c') :
    Filled h'.uses [.variable false h'.index] := by
  cases hh with
  | intro hinit _ _ _ htest _ _ hupdate =>
    refine ⟨forall_mem_append.mpr ⟨?_, ?_⟩, forall_mem_singleton.mpr rfl⟩
    · exact forall_mem_append.mpr ⟨hinit.filled, htest.filled⟩
    · exact forall_mem_cons.mpr ⟨rfl, hupdate.filled⟩

theorem ReturnAccepted.filled (h : ReturnAccepted s value value') :
    ∀ x ∈ Expr.usesAll value'.toList, x.resolution.isSome := by
  cases h with
  | none => exact nofun
  | some _ _ he _ => exact forall_mem_append.mpr ⟨he.filled, nofun⟩

/-! ## statements -/

mutual

theorem Stmt.Accepted.filled {c c' : Context} {s s' : Stmt} (h : Stmt.Accepted c s c' s') :
    Filled s'.uses s'.sites := by
  match h with
  | .expression he | .print he => exact .ofUses he.filled
  | .declare _ hvalues hds => exact ⟨hvalues.filled, hds.filled⟩
  | .assign _ htargets hvalues =>
    exact .ofUses (forall_mem_append.mpr ⟨htargets.filled, hvalues.filled⟩)
  | .function _ _ hps₁ hps₂ hbody =>
    have hall := (parameters_filled hps₁ hps₂).append hbody.filled
    exact ⟨hall.uses, forall_mem_cons.mpr ⟨trivial, hall.sites⟩⟩
  | .classDef hhead hbody =>
    have hall := hhead.filled.append hbody.filled
    exact ⟨hall.uses, forall_mem_cons.mpr ⟨trivial, hall.sites⟩⟩
  | .conditional hbranches hotherwise => exact hbranches.filled.append hotherwise.filled
  | .whileLoop hcondition hbody => exact (Filled.ofUses hcondition.filled).append hbody.filled
  | .forLoop hhead hbody => exact hhead.filled.append hbody.filled
  | .rangeLoop hstart _ hstop _ hbody =>
    have hbounds := (Filled.ofUses hstart.filled).append (.ofUses hstop.filled)
    exact hbounds.append hbody.filled
  | .switch hscrutinee hcases hotherwise =>
    exact ((Filled.ofUses hscrutinee.filled).append hcases.filled).append hotherwise.filled
  | .breakLoop _ | .continueLoop _ => exact .ofUses nofun
  | .returnValue hvalue => exact .ofUses hvalue.filled
  | .block hbody => exact hbody.filled

theorem EachAccepted.filled {c c' : Context} (h : EachAccepted c ss c' ss') :
    Filled (bodyUses ss') (bodySites ss') := by
  match h with
  | .nil => exact .ofUses nofun
  | .cons hs hss => exact hs.filled.append hss.filled

theorem BodyAccepted.filled {c c' : Context} (h : BodyAccepted c body c' body') :
    Filled (bodyUses body') (bodySites body') := by
  match h with
  | .intro _ heach => exact heach.filled

theorem BranchesAccepted.filled {c c' : Context} (h : BranchesAccepted c gs c' gs') :
    Filled (branchUses gs') (branchSites gs') := by
  match h with
  | .nil => exact .ofUses nofun
  | .cons hguard hbody hgs =>
    exact ((Filled.ofUses hguard.filled).append hbody.filled).append hgs.filled

theorem OtherwiseAccepted.filled {c c' : Context} (h : OtherwiseAccepted c o c' o') :
    Filled (otherwiseUses o') (otherwiseSites o') := by
  match h with
  | .none => exact .ofUses nofun
  | .some hbody => exact hbody.filled

end

/-! ## programs -/

variable {root : Scope} {p q : Program}

theorem Expr.NodeOf.hasType {e : Expr} (h : e.NodeOf s) : e.type.isSome := by
  rcases h with ⟨e₀, t, haccepted⟩ | ⟨x, b, _, rfl⟩
  · rw [haccepted.type]
    rfl
  · rfl

theorem mem_siteIds_of_analyse (h : analyse root p = .ok q) (i : DeclId) :
    some i ∈ siteIds q ↔ 1 ≤ i ∧ i ≤ (bodySites q).length := by
  have hperm := perm_siteIds_of_analyse h
  have hlength : (bodySites q).length = bodyTaken p := by
    have := hperm.length_eq
    rwa [siteIds, length_map, interval, length_map, length_range'] at this
  rw [hperm.mem_iff, interval, mem_map_of_injective (Option.some_injective _), mem_range'_1,
    hlength, Nat.lt_one_add_iff]

/-- The check leaves no slot of an accepted program empty: every expression has a type, every name in
use a reference, every site an identity, and a type if it holds a value.  The identities are the numbers
from one to the number of sites, each once. -/
theorem analyse_fills_every_slot (h : analyse root p = .ok q) :
    (∀ P ∈ placesOf root q, ∀ e ∈ P.nodes, e.type.isSome) ∧
      (∀ x ∈ bodyUses q, x.resolution.isSome) ∧
      (∀ d ∈ bodySites q, d.id.isSome ∧ d.HasType) ∧
      (siteIds q).Nodup ∧ ∀ i, some i ∈ siteIds q ↔ 1 ≤ i ∧ i ≤ (bodySites q).length := by
  obtain ⟨c, hbody⟩ := accepted_of_analyse h
  obtain ⟨huses, hsites⟩ := hbody.filled
  refine ⟨fun P hP e he => ?_, huses, fun d hd => ⟨?_, hsites d hd⟩, nodup_siteIds_of_analyse h,
    mem_siteIds_of_analyse h⟩
  · obtain ⟨Γ, s, _, hnode⟩ := (places_of_analyse h P hP).node hP he
    exact hnode.hasType
  · have hid := (perm_siteIds_of_analyse h).mem_iff.mp (mem_map_of_mem hd)
    obtain ⟨i, _, hi⟩ := mem_map.mp hid
    rw [← hi]
    rfl

/-- `class C(n: int = 1) { } let c = C(); for (let i = 0; i < 3; i += 2) { print([i][0]); }` -/
theorem analyse_fills_every_slot_loop : let int := TypeTerm.named "int"
    let number (n : Int) := Expr.literal (.integer n)
    let use (x : String) := Expr.name (.ofName x) none
    let i := Expr.name ⟨"i", some (.declared 4)⟩ (some .int)
    let c := Ty.classOf 1 "C"
    let p : Program :=
      [.classDef ⟨"C", none, [⟨"n", int, some (number 1 none), none, none⟩]⟩ [],
       .declare false [⟨"c", none, none, none⟩] [.call (use "C") [] false false none],
       .forLoop ⟨⟨"i", none, none, none⟩, number 0 none, .binary .less (use "i") (number 3 none) none,
           .ofName "i", .increase (number 2 none)⟩
         [.print (.subscript (.collection .array [use "i"] none) (number 0 none) none)]]
    let q : Program :=
      [.classDef ⟨"C", some 1, [⟨"n", int, some (number 1 (some .int)), some 2, some .int⟩]⟩ [],
       .declare false [⟨"c", none, some 3, some c⟩]
         [.call (.name ⟨"C", some (.declared 1)⟩ (some c)) [] false true (some c)],
       .forLoop ⟨⟨"i", none, some 4, some .int⟩, number 0 (some .int),
           .binary .less i (number 3 (some .int)) (some .bool), ⟨"i", some (.declared 4)⟩,
           .increase (number 2 (some .int))⟩
         [.print (.subscript (.collection .array [i] (some (.array .int))) (number 0 (some .int))
           (some .int))]]
    analyse Scope.root p = .ok q ∧
      (∀ P ∈ placesOf Scope.root q, ∀ e ∈ P.nodes, e.type.isSome) ∧
      (∀ x ∈ bodyUses q, x.resolution.isSome) ∧
      (∀ d ∈ bodySites q, d.id.isSome ∧ d.HasType) ∧
      (siteIds q).Nodup ∧ ∀ i, some i ∈ siteIds q ↔ 1 ≤ i ∧ i ≤ 4 := by
  intro int number use i c p q
  have h : analyse Scope.root p = .ok q := by cbv
  exact ⟨h, analyse_fills_every_slot h⟩

end TypedScript
