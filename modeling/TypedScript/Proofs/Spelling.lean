import TypedScript.Proofs.AcceptedStatements
import TypedScript.Proofs.Sites
import TypedScript.Proofs.Writing

/-!
# The spelling of programs

The check annotates a program and keeps what is written in it: the literals, and the names at the places
where names are declared.
-/

namespace TypedScript

open List

/-! ## literals -/

mutual

def Expr.literals : Expr → List Literal
  | .literal v _ => [v]
  | .name _ _ => []
  | .binary _ left right _ => left.literals ++ right.literals
  | .unary _ operand _ => operand.literals
  | .call callee arguments _ _ _ => callee.literals ++ Expr.allLiterals arguments
  | .subscript base index _ => base.literals ++ index.literals
  | .member object _ _ => object.literals
  | .collection _ elements _ => Expr.allLiterals elements
  | .dict entries _ => Expr.entryLiterals entries

def Expr.allLiterals : List Expr → List Literal
  | [] => []
  | e :: es => e.literals ++ Expr.allLiterals es

def Expr.entryLiterals : List (Expr × Expr) → List Literal
  | [] => []
  | (key, value) :: es => key.literals ++ value.literals ++ Expr.entryLiterals es

end

def Update.literals : Update Expr → List Literal
  | .increment => []
  | .decrement => []
  | .increase e => e.literals
  | .decrease e => e.literals

def Parameter.literals (p : Parameter) : List Literal := Expr.allLiterals p.default.toList

def ForHead.literals (h : ForHead) : List Literal :=
  h.init.literals ++ h.test.literals ++ Update.literals h.update

mutual

def Stmt.literals : Stmt → List Literal
  | .expression e => e.literals
  | .declare _ _ values => Expr.allLiterals values
  | .assign targets values => Expr.allLiterals targets ++ Expr.allLiterals values
  | .function h body => h.parameters.flatMap Parameter.literals ++ bodyLiterals body
  | .classDef h body => h.parameters.flatMap Parameter.literals ++ bodyLiterals body
  | .conditional branches otherwise => branchLiterals branches ++ otherwiseLiterals otherwise
  | .whileLoop condition body => condition.literals ++ bodyLiterals body
  | .forLoop h body => h.literals ++ bodyLiterals body
  | .rangeLoop start stop body => start.literals ++ stop.literals ++ bodyLiterals body
  | .switch scrutinee cases otherwise =>
    scrutinee.literals ++ branchLiterals cases ++ otherwiseLiterals otherwise
  | .breakLoop => []
  | .continueLoop => []
  | .returnValue value => Expr.allLiterals value.toList
  | .print e => e.literals
  | .block body => bodyLiterals body

def bodyLiterals : List Stmt → List Literal
  | [] => []
  | s :: ss => s.literals ++ bodyLiterals ss

def branchLiterals : List (Guarded Stmt) → List Literal
  | [] => []
  | ⟨guard, body⟩ :: gs => guard.literals ++ bodyLiterals body ++ branchLiterals gs

def otherwiseLiterals : Option (List Stmt) → List Literal
  | none => []
  | some body => bodyLiterals body

end

/-! ## accepted expressions -/

variable {s : Scope}

mutual

theorem Expr.Accepted.literals (h : Expr.Accepted s e e' t) : e'.literals = e.literals := by
  match h with
  | .literal | .name _ => rfl
  | .binary hl hr _ => rw [Expr.literals, Expr.literals, hl.literals, hr.literals]
  | .unary ho _ | .member ho _ => rw [Expr.literals, Expr.literals, ho.literals]
  | .call hf _ _ hall => rw [Expr.literals, Expr.literals, hf.literals, hall.literals]
  | .construct _ _ _ _ hall => rw [Expr.literals, Expr.literals, hall.literals]; rfl
  | .subscript hb hi _ => rw [Expr.literals, Expr.literals, hb.literals, hi.literals]
  | .collection hall => rw [Expr.literals, Expr.literals, hall.literals]
  | .dict hentries => rw [Expr.literals, Expr.literals, hentries.literals]

theorem Expr.AcceptedAll.literals (h : Expr.AcceptedAll s test seen es es' ts) :
    Expr.allLiterals es' = Expr.allLiterals es := by
  match h with
  | .nil => rfl
  | .cons he _ hes => rw [Expr.allLiterals, Expr.allLiterals, he.literals, hes.literals]

theorem Expr.AcceptedEntries.literals (h : Expr.AcceptedEntries s first es es' last) :
    Expr.entryLiterals es' = Expr.entryLiterals es := by
  match h with
  | .nil => rfl
  | .cons hk hv _ hes =>
    rw [Expr.entryLiterals, Expr.entryLiterals, hk.literals, hv.literals, hes.literals]

end

/-! ## accepted declarations -/

/-- literals and declared names stay as they are -/
structure SameSpelling (literals literals' : List Literal) (sites sites' : List Site) : Prop where
  literals : literals' = literals
  names : sites'.map Site.name = sites.map Site.name

namespace SameSpelling

variable {ls ls' ms ms' : List Literal} {ds ds' fs fs' : List Site}

theorem refl : SameSpelling ls ls ds ds := ⟨rfl, rfl⟩

theorem trans (h : SameSpelling ls ls' ds ds') (h' : SameSpelling ls' ls'' ds' ds'') :
    SameSpelling ls ls'' ds ds'' :=
  ⟨h'.literals.trans h.literals, h'.names.trans h.names⟩

theorem append (h : SameSpelling ls ls' ds ds') (h' : SameSpelling ms ms' fs fs') :
    SameSpelling (ls ++ ms) (ls' ++ ms') (ds ++ fs) (ds' ++ fs') :=
  ⟨by rw [h.literals, h'.literals], by rw [map_append, map_append, h.names, h'.names]⟩

theorem ofLiterals (h : ls' = ls) : SameSpelling ls ls' [] [] := ⟨h, rfl⟩

theorem site {d d' : Site} (h : SameSpelling ls ls' ds ds') (hname : d'.name = d.name) :
    SameSpelling ls ls' (d :: ds) (d' :: ds') :=
  ⟨h.literals, by rw [map_cons, map_cons, hname, h.names]⟩

end SameSpelling

variable {ps ps' : List Parameter} {c c' : Context} {ts : List Ty}

def ParametersSpelling (ps ps' : List Parameter) : Prop :=
  SameSpelling (ps.flatMap Parameter.literals) (ps'.flatMap Parameter.literals)
    (ps.map Site.parameter) (ps'.map Site.parameter)

theorem ParametersSpelling.cons {p p' : Parameter}
    (hdefault : p'.literals = p.literals) (hname : p'.name = p.name) (h : ParametersSpelling ps ps') :
    ParametersSpelling (p :: ps) (p' :: ps') := by
  have hparameter : SameSpelling p.literals p'.literals [.parameter p] [.parameter p'] :=
    (SameSpelling.ofLiterals hdefault).site hname
  exact hparameter.append h

theorem ParametersResolved.spelling {params : List (Param Ty)}
    (h : ParametersResolved s ps ps' params) : ParametersSpelling ps ps' := by
  induction h with
  | nil => exact .refl
  | cons _ _ ih => exact .cons rfl rfl ih

theorem DefaultsAccepted.spelling (h : DefaultsAccepted s ps ps') : ParametersSpelling ps ps' := by
  induction h with
  | nil => exact .refl
  | required _ _ ih => exact .cons rfl rfl ih
  | @optional p ps ps' e e' expected t hdefault _ he _ _ ih =>
    refine .cons ?_ rfl ih
    rw [Parameter.literals, Parameter.literals, hdefault]
    exact congrArg (· ++ []) he.literals

theorem ParametersBound.spelling (h : ParametersBound ps c ps' c') : ParametersSpelling ps ps' := by
  induction h with
  | nil => exact .refl
  | cons _ _ _ ih => exact .cons rfl rfl ih

theorem ClassDeclared.spelling (hh : ClassDeclared h c h' c') :
    h'.name = h.name ∧ ParametersSpelling h.parameters h'.parameters := by
  cases hh with
  | intro hps _ _ hps₁ hps₂ => exact ⟨rfl, (hps.spelling.trans hps₁.spelling).trans hps₂.spelling⟩

theorem DeclaratorsBound.spelling (h : DeclaratorsBound constant ds ts c ds' c') :
    (ds'.map (Site.variable constant)).map Site.name = (ds.map (Site.variable constant)).map Site.name := by
  induction h with
  | nil => rfl
  | cons _ _ _ ih => exact congrArg (_ :: ·) ih

theorem TargetsAccepted.literals (h : TargetsAccepted s es es' ts) :
    Expr.allLiterals es' = Expr.allLiterals es := by
  induction h with
  | nil => rfl
  | cons _ he _ _ ih => rw [Expr.allLiterals, Expr.allLiterals, he.literals, ih]

theorem UpdateAccepted.literals (h : UpdateAccepted s t u u') : Update.literals u' = Update.literals u := by
  cases h with
  | increment | decrement => rfl
  | increase he | decrease he => exact he.literals

theorem ForHead.Accepted.spelling (hh : ForHead.Accepted h c h' c') :
    SameSpelling h.literals h'.literals [.variable false h.index] [.variable false h'.index] := by
  cases hh with
  | intro hinit _ _ _ htest _ _ hupdate =>
    refine ⟨?_, rfl⟩
    rw [ForHead.literals, ForHead.literals, hinit.literals, htest.literals, hupdate.literals]

theorem ReturnAccepted.literals (h : ReturnAccepted s value value') :
    Expr.allLiterals value'.toList = Expr.allLiterals value.toList := by
  cases h with
  | none => rfl
  | some _ _ he _ => exact congrArg (· ++ []) he.literals

theorem Hoisted.spelling (h : Hoisted body c hoisted c') :
    SameSpelling (bodyLiterals body) (bodyLiterals hoisted) (bodySites body) (bodySites hoisted) := by
  induction h with
  | nil => exact .refl
  | @function h body rest rest' c c' ps params r hps _ _ _ ih =>
    have hbody : SameSpelling (bodyLiterals body) (bodyLiterals body) (bodySites body) (bodySites body) :=
      .refl
    have hname : (Site.function { h with parameters := ps, id := some c.nextId }).name
      = (Site.function h).name := rfl
    exact ((hps.spelling.append hbody).site hname).append ih
  | other _ _ ih => exact SameSpelling.refl.append ih

/-! ## accepted statements -/

mutual

theorem Stmt.Accepted.spelling {c c' : Context} {s s' : Stmt} (h : Stmt.Accepted c s c' s') :
    SameSpelling s.literals s'.literals s.sites s'.sites := by
  match h with
  | .expression he | .print he => exact .ofLiterals he.literals
  | .declare _ hvalues hds => exact ⟨hvalues.literals, hds.spelling⟩
  | .assign _ htargets hvalues =>
    exact (SameSpelling.ofLiterals htargets.literals).append (.ofLiterals hvalues.literals)
  | .function hps _ hps₁ hps₂ hbody =>
    have hparameters := (hps.spelling.trans hps₁.spelling).trans hps₂.spelling
    exact (hparameters.append hbody.spelling).site rfl
  | .classDef hhead hbody =>
    obtain ⟨hname, hparameters⟩ := hhead.spelling
    exact (hparameters.append hbody.spelling).site hname
  | .conditional hbranches hotherwise => exact hbranches.spelling.append hotherwise.spelling
  | .whileLoop hcondition hbody =>
    exact (SameSpelling.ofLiterals hcondition.literals).append hbody.spelling
  | .forLoop hhead hbody => exact hhead.spelling.append hbody.spelling
  | .rangeLoop hstart _ hstop _ hbody =>
    have hbounds := (SameSpelling.ofLiterals hstart.literals).append (.ofLiterals hstop.literals)
    exact hbounds.append hbody.spelling
  | .switch hscrutinee hcases hotherwise =>
    exact ((SameSpelling.ofLiterals hscrutinee.literals).append hcases.spelling).append
      hotherwise.spelling
  | .breakLoop _ | .continueLoop _ => exact .refl
  | .returnValue hvalue => exact .ofLiterals hvalue.literals
  | .block hbody => exact hbody.spelling

theorem EachAccepted.spelling {c c' : Context} (h : EachAccepted c ss c' ss') :
    SameSpelling (bodyLiterals ss) (bodyLiterals ss') (bodySites ss) (bodySites ss') := by
  match h with
  | .nil => exact .refl
  | .cons hs hss => exact hs.spelling.append hss.spelling

theorem BodyAccepted.spelling {c c' : Context} (h : BodyAccepted c body c' body') :
    SameSpelling (bodyLiterals body) (bodyLiterals body') (bodySites body) (bodySites body') := by
  match h with
  | .intro hhoisted heach => exact hhoisted.spelling.trans heach.spelling

theorem BranchesAccepted.spelling {c c' : Context} (h : BranchesAccepted c gs c' gs') :
    SameSpelling (branchLiterals gs) (branchLiterals gs') (branchSites gs) (branchSites gs') := by
  match h with
  | .nil => exact .refl
  | .cons hguard hbody hgs =>
    exact ((SameSpelling.ofLiterals hguard.literals).append hbody.spelling).append hgs.spelling

theorem OtherwiseAccepted.spelling {c c' : Context} (h : OtherwiseAccepted c o c' o') :
    SameSpelling (otherwiseLiterals o) (otherwiseLiterals o') (otherwiseSites o) (otherwiseSites o') := by
  match h with
  | .none => exact .refl
  | .some hbody => exact hbody.spelling

end

/-! ## trees that are read -/

/-- numbers are numerals, and declared names are words that are not reserved -/
structure Spelled (literals : List Literal) (sites : List Site) : Prop where
  literals : ∀ v ∈ literals, v.WellFormed
  names : ∀ d ∈ sites, isName d.name

theorem Spelled.of_same (h : Spelled ls ds) (hsame : SameSpelling ls ls' ds ds') : Spelled ls' ds' := by
  refine ⟨hsame.literals ▸ h.literals, fun d hd => ?_⟩
  have hmem : d.name ∈ ds.map Site.name := hsame.names ▸ mem_map_of_mem hd
  obtain ⟨d₀, hd₀, hname⟩ := mem_map.mp hmem
  exact hname ▸ h.names d₀ hd₀

/-- a name that refers to nothing yet -/
def Symbol.Bare (x : Symbol) : Prop := x.resolution = none ∧ isName x.name

/-- a part as it is read: well spelled, with no identities -/
structure Bare (literals : List Literal) (uses : List Symbol) (sites : List Site) : Prop where
  literals : ∀ v ∈ literals, v.WellFormed
  uses : ∀ x ∈ uses, x.Bare
  sites : ∀ d ∈ sites, d.id = none ∧ isName d.name

namespace Bare

variable {ls ms : List Literal} {us vs : List Symbol} {ds fs : List Site}

theorem nil : Bare [] [] [] := ⟨nofun, nofun, nofun⟩

theorem append (h : Bare ls us ds) (h' : Bare ms vs fs) : Bare (ls ++ ms) (us ++ vs) (ds ++ fs) :=
  ⟨forall_mem_append.mpr ⟨h.literals, h'.literals⟩, forall_mem_append.mpr ⟨h.uses, h'.uses⟩,
    forall_mem_append.mpr ⟨h.sites, h'.sites⟩⟩

theorem site {d : Site} (h : Bare ls us ds) (hid : d.id = none) (hname : isName d.name) :
    Bare ls us (d :: ds) :=
  ⟨h.literals, h.uses, forall_mem_cons.mpr ⟨⟨hid, hname⟩, h.sites⟩⟩

theorem spelled (h : Bare ls us ds) : Spelled ls ds := ⟨h.literals, fun d hd => (h.sites d hd).2⟩

end Bare

theorem Expr.bareAll (h : ∀ e ∈ es, Bare e.literals e.uses []) :
    Bare (Expr.allLiterals es) (Expr.usesAll es) [] := by
  induction es with
  | nil => exact .nil
  | cons e es ih =>
    obtain ⟨he, hes⟩ := forall_mem_cons.mp h
    exact he.append (ih hes)

theorem Expr.bareEntries (hkeys : ∀ e ∈ es, Bare e.1.literals e.1.uses [])
    (hvalues : ∀ e ∈ es, Bare e.2.literals e.2.uses []) :
    Bare (Expr.entryLiterals es) (Expr.entryUses es) [] := by
  induction es with
  | nil => exact .nil
  | cons e es ih =>
    obtain ⟨hkey, hkeys⟩ := forall_mem_cons.mp hkeys
    obtain ⟨hvalue, hvalues⟩ := forall_mem_cons.mp hvalues
    exact (hkey.append hvalue).append (ih hkeys hvalues)

theorem Expr.WellFormed.bare {e : Expr} (h : e.WellFormed) : Bare e.literals e.uses [] := by
  induction h with
  | literal hv => exact ⟨forall_mem_singleton.mpr hv, nofun, nofun⟩
  | name hx => exact ⟨nofun, forall_mem_singleton.mpr ⟨rfl, hx⟩, nofun⟩
  | binary _ _ hl hr => exact hl.append hr
  | unary _ ho => exact ho
  | member _ hx ho =>
    exact ⟨ho.literals, forall_mem_append.mpr ⟨ho.uses, forall_mem_singleton.mpr ⟨rfl, hx⟩⟩, nofun⟩
  | call _ _ hf has => exact hf.append (Expr.bareAll has)
  | subscript _ _ hb hi => exact hb.append hi
  | collection _ _ hes => exact Expr.bareAll hes
  | dict _ _ hks hvs => exact Expr.bareEntries hks hvs

theorem Expr.bare_toList {o : Option Expr} (h : ∀ e ∈ o, e.WellFormed) :
    Bare (Expr.allLiterals o.toList) (Expr.usesAll o.toList) [] :=
  Expr.bareAll fun e he => (h e (Option.mem_toList.mp he)).bare

theorem bare_parameters (h : ∀ p ∈ ps, p.WellFormed) :
    Bare (ps.flatMap Parameter.literals) (ps.flatMap Parameter.uses) (ps.map Site.parameter) := by
  induction ps with
  | nil => exact .nil
  | cons p ps ih =>
    obtain ⟨hp, hps⟩ := forall_mem_cons.mp h
    have hparameter : Bare p.literals p.uses [.parameter p] :=
      (Expr.bare_toList hp.default).site hp.id hp.name
    exact hparameter.append (ih hps)

theorem ForHead.WellFormed.bare {h : ForHead} (hh : h.WellFormed) :
    Bare h.literals h.uses [.variable false h.index] := by
  have hupdate : Bare (Update.literals h.update) (Update.uses h.update) [] := by
    have := hh.update
    revert this
    cases h.update with
    | increment | decrement => exact fun _ => .nil
    | increase e | decrease e => exact fun he => Expr.WellFormed.bare he
  have htarget : Bare [] [h.target] [] := ⟨nofun, forall_mem_singleton.mpr ⟨hh.target, hh.name⟩, nofun⟩
  exact ((hh.init.bare.append hh.test.bare).append (htarget.append hupdate)).site hh.index.id hh.index.name

theorem bare_body (h : ∀ s ∈ body, Bare s.literals s.uses s.sites) :
    Bare (bodyLiterals body) (bodyUses body) (bodySites body) := by
  induction body with
  | nil => exact .nil
  | cons s body ih =>
    obtain ⟨hs, hbody⟩ := forall_mem_cons.mp h
    exact hs.append (ih hbody)

theorem bare_branches (hguards : ∀ g ∈ gs, g.guard.WellFormed)
    (h : ∀ g ∈ gs, ∀ s ∈ g.body, Bare s.literals s.uses s.sites) :
    Bare (branchLiterals gs) (branchUses gs) (branchSites gs) := by
  induction gs with
  | nil => exact .nil
  | cons g gs ih =>
    obtain ⟨hguard, hguards⟩ := forall_mem_cons.mp hguards
    obtain ⟨hbody, hgs⟩ := forall_mem_cons.mp h
    exact (hguard.bare.append (bare_body hbody)).append (ih hguards hgs)

theorem bare_otherwise (h : ∀ body ∈ o, ∀ s ∈ body, Bare s.literals s.uses s.sites) :
    Bare (otherwiseLiterals o) (otherwiseUses o) (otherwiseSites o) := by
  cases o with
  | none => exact .nil
  | some body => exact bare_body (h body rfl)

theorem Stmt.WellFormed.bare {s : Stmt} (h : s.WellFormed) : Bare s.literals s.uses s.sites := by
  induction h with
  | expression he | print he => exact he.bare
  | declare _ hds hvalues =>
    have hvalues := Expr.bareAll fun e he => (hvalues e he).bare
    exact ⟨hvalues.literals, hvalues.uses, forall_mem_map.mpr fun d hd => ⟨(hds d hd).id, (hds d hd).name⟩⟩
  | assign _ _ hts hvalues =>
    exact (Expr.bareAll fun e he => (hts e he).bare).append (Expr.bareAll fun e he => (hvalues e he).bare)
  | function hh _ ih | classDef hh _ ih =>
    exact ((bare_parameters hh.parameters).append (bare_body ih)).site hh.id hh.name
  | conditional _ hguards _ _ ih ih' => exact (bare_branches hguards ih).append (bare_otherwise ih')
  | whileLoop hc _ ih => exact hc.bare.append (bare_body ih)
  | forLoop hh _ ih => exact hh.bare.append (bare_body ih)
  | rangeLoop hstart hstop _ ih => exact (hstart.bare.append hstop.bare).append (bare_body ih)
  | switch hscrutinee hguards _ _ ih ih' =>
    exact (hscrutinee.bare.append (bare_branches hguards ih)).append (bare_otherwise ih')
  | breakLoop | continueLoop => exact .nil
  | returnValue hvalue => exact Expr.bare_toList hvalue
  | block _ ih => exact bare_body ih

theorem Program.WellFormed.bare {p : Program} (h : p.WellFormed) :
    Bare (bodyLiterals p) (bodyUses p) (bodySites p) :=
  bare_body fun s hs => (h s hs).bare

end TypedScript
