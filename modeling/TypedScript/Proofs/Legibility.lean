import TypedScript.Proofs.Jumps
import TypedScript.Proofs.Lowering
import TypedScript.Proofs.ScriptNodes

/-!
# Scripts of programs that are read

The names of a script are words, since they are built on names of the source; its numbers are numerals.
So the text of the script of a program that is read can be read again.
-/

namespace TypedScript

open Script (IsName IsWord isNumber isWord_of_all)
open List

/-! ## words -/

theorem isWord_of_isName (h : isName x) : IsWord x := by
  unfold isName at h
  split at h
  · cases h
  · next c cs hlist =>
    rw [Bool.and_eq_true, Bool.and_eq_true] at h
    have hstart : Text.isWordPart c = true := by
      unfold Text.isWordPart
      rw [h.1.1, Bool.true_or]
    refine ⟨by rw [hlist]; exact cons_ne_nil c cs, ?_⟩
    rw [hlist]
    exact forall_mem_cons.mpr ⟨hstart, all_eq_true.mp h.1.2⟩

theorem isNumber_of_isName (h : isName x) : isNumber x = false := by
  unfold isName at h
  split at h
  · cases h
  · next c cs hlist =>
    rw [Bool.and_eq_true, Bool.and_eq_true] at h
    unfold isNumber
    rw [hlist]
    refine Bool.of_not_eq_true fun hdigit => ?_
    exact Bool.false_ne_true ((Pattern.not_isWordStart_of_isDigit hdigit).symm.trans h.1.1)

theorem isName_mangled (h : IsWord base) (hbase : isNumber base = false) (number : Nat) :
    IsName (mangled base number) := by
  have hword : IsWord (mangled base number) := by
    refine ⟨?_, ?_⟩
    · rw [toList_mangled]
      exact append_ne_nil_of_right_ne_nil _ nofun
    · rw [toList_mangled]
      refine forall_mem_append.mpr ⟨h.parts, forall_mem_cons.mpr ⟨by decide, ?_⟩⟩
      have hdigits : (toString number).toList = Nat.toDigits 10 number := Nat.toList_repr
      rw [← hdigits]
      exact (Script.isWord_toString number).parts
  have hreserved : ∀ w ∈ "await" :: Script.keywords, '_' ∉ w.toList := by decide
  have hfresh : mangled base number ∉ "await" :: Script.keywords :=
    fun hmem => hreserved _ hmem (underscore_mem_mangled base number)
  have hnumber : isNumber (mangled base number) = false := by
    unfold isNumber at hbase ⊢
    rw [toList_mangled, List.head?_append_of_ne_nil _ h.nonempty]
    exact hbase
  exact ⟨hword, fun hmem => hfresh (mem_cons_of_mem _ hmem),
    fun heq => hfresh (heq ▸ mem_cons_self), hnumber⟩

theorem isName_native (h : b ∈ builtins) : IsName b.native := by
  have hnatives : ∀ b ∈ builtins, (b.native.toList ≠ [] ∧ b.native.toList.all Text.isWordPart = true) ∧
      b.native ∉ Script.keywords ∧ b.native ≠ "await" ∧ isNumber b.native = false := by decide
  obtain ⟨⟨hne, hparts⟩, hkeyword, hawait, hnumber⟩ := hnatives b h
  exact ⟨isWord_of_all hne hparts, hkeyword, hawait, hnumber⟩

theorem isName_range (number : Nat) : IsName (mangled "range" number) :=
  isName_mangled (isWord_of_all (by decide) (by decide)) (by decide) number

/-! ## labelled parts -/

variable {ν : DeclId → String} {N : String → Prop}

def Site.label (ν : DeclId → String) (d : Site) : String := declarationLabel ν d.id d.name

/-- under a naming, a part with these literals, uses and sites can be read -/
structure Labelled (N : String → Prop) (ν : DeclId → String) (literals : List Literal) (uses : List Symbol)
    (sites : List Site) : Prop where
  literals : ∀ v ∈ literals, v.WellFormed
  uses : ∀ x ∈ uses, N (x.label ν)
  sites : ∀ d ∈ sites, N (d.label ν)

namespace Labelled

variable {ls ms : List Literal} {us vs : List Symbol} {ds fs : List Site}

theorem split (h : Labelled N ν (ls ++ ms) (us ++ vs) (ds ++ fs)) :
    Labelled N ν ls us ds ∧ Labelled N ν ms vs fs := by
  obtain ⟨hls, hms⟩ := forall_mem_append.mp h.literals
  obtain ⟨hus, hvs⟩ := forall_mem_append.mp h.uses
  obtain ⟨hds, hfs⟩ := forall_mem_append.mp h.sites
  exact ⟨⟨hls, hus, hds⟩, ⟨hms, hvs, hfs⟩⟩

theorem apart (h : Labelled N ν (ls ++ ms) (us ++ vs) fs) :
    Labelled N ν ls us [] ∧ Labelled N ν ms vs fs := by
  have h' : Labelled N ν (ls ++ ms) (us ++ vs) ([] ++ fs) := h
  exact h'.split

theorem site (h : Labelled N ν ls us (d :: ds)) : N (d.label ν) ∧ Labelled N ν ls us ds := by
  obtain ⟨hd, hds⟩ := forall_mem_cons.mp h.sites
  exact ⟨hd, ⟨h.literals, h.uses, hds⟩⟩

end Labelled

/-! ## expressions -/

theorem Literal.WellFormed.legible {v : Literal} (h : v.WellFormed) : Script.Literal.Legible v := by
  cases v with
  | long digits => exact h
  | _ => trivial

theorem Script.Expr.legible_applied {f : Script.Expr} {as : List Script.Expr} (hf : f.LegibleBy N)
    (has : Script.Expr.AllLegibleBy N as) (constructs awaited : Bool) :
    (Script.Expr.applied constructs awaited f as).LegibleBy N := by
  cases constructs <;> cases awaited <;> exact ⟨hf, has⟩

mutual

theorem Expr.legible (e : Expr) (h : Labelled N ν e.literals e.uses []) : (e.named ν).LegibleBy N := by
  match e with
  | .literal v t => exact (h.literals v mem_cons_self).legible
  | .name x t => exact h.uses x mem_cons_self
  | .binary op left right t =>
    obtain ⟨hl, hr⟩ := h.apart
    have hoperands := And.intro (left.legible hl) (right.legible hr)
    rw [Expr.named]
    split
    · exact hoperands
    · exact hoperands
  | .unary op operand t =>
    have hoperand := operand.legible h
    rw [Expr.named]
    split
    · exact hoperand
    · exact hoperand
  | .call callee arguments awaited constructs t =>
    obtain ⟨hf, has⟩ := h.apart
    exact Script.Expr.legible_applied (callee.legible hf) (Expr.allLegible arguments has) _ _
  | .subscript base index t =>
    obtain ⟨hb, hi⟩ := h.apart
    exact ⟨base.legible hb, index.legible hi⟩
  | .member object x t =>
    obtain ⟨hobject, hx⟩ := forall_mem_append.mp h.uses
    exact ⟨object.legible ⟨h.literals, hobject, nofun⟩, hx x mem_cons_self⟩
  | .collection form elements t =>
    have helements := Expr.allLegible elements h
    cases form with
    | set | array | tuple => exact helements
  | .dict entries t => exact Expr.entriesLegible entries h

theorem Expr.allLegible (es : List Expr) (h : Labelled N ν (Expr.allLiterals es) (Expr.usesAll es) []) :
    Script.Expr.AllLegibleBy N (Expr.allNamed ν es) := by
  match es with
  | [] => trivial
  | e :: es =>
    obtain ⟨he, hes⟩ := h.apart
    exact ⟨e.legible he, Expr.allLegible es hes⟩

theorem Expr.entriesLegible (es : List (Expr × Expr))
    (h : Labelled N ν (Expr.entryLiterals es) (Expr.entryUses es) []) :
    Script.Expr.EntriesLegibleBy N (Expr.entriesNamed ν es) := by
  match es with
  | [] => trivial
  | (key, value) :: es =>
    obtain ⟨hentry, hes⟩ := h.apart
    obtain ⟨hkey, hvalue⟩ := hentry.apart
    exact ⟨key.legible hkey, value.legible hvalue, Expr.entriesLegible es hes⟩

end

/-! ## declarations -/

theorem Expr.legible_of_mem {o : Option Expr}
    (h : Labelled N ν (Expr.allLiterals o.toList) (Expr.usesAll o.toList) []) :
    ∀ e ∈ o.map (Expr.named ν), e.LegibleBy N := by
  cases o with
  | none => exact nofun
  | some e =>
    rintro e' ⟨⟩
    exact e.legible h.apart.1

theorem parameters_legible (ps : List Parameter)
    (h : Labelled N ν (ps.flatMap Parameter.literals) (ps.flatMap Parameter.uses) (ps.map Site.parameter)) :
    ∀ p ∈ ps.map (Parameter.named ν), p.LegibleBy N := by
  induction ps with
  | nil => exact nofun
  | cons p ps ih =>
    obtain ⟨hname, h⟩ := h.site
    rw [flatMap_cons, flatMap_cons] at h
    obtain ⟨hdefault, hps⟩ := h.apart
    exact forall_mem_cons.mpr ⟨⟨hname, Expr.legible_of_mem hdefault⟩, ih hps⟩

theorem Update.legible (h : Labelled N ν (Update.literals u) (Update.uses u) []) :
    Script.updateLegibleBy N (Update.named ν u) := by
  cases u with
  | increment | decrement => trivial
  | increase e | decrease e => exact e.legible h

theorem mem_fieldLabels (h : x ∈ fieldLabels ν body) : ∃ d ∈ bodySites body, x = d.label ν := by
  induction body with
  | nil => exact nomatch h
  | cons s body ih =>
    have hbody : x ∈ fieldLabels ν body → ∃ d ∈ bodySites (s :: body), x = d.label ν := by
      intro hx
      obtain ⟨d, hd, heq⟩ := ih hx
      exact ⟨d, mem_append_right _ hd, heq⟩
    cases s with
    | declare constant ds values =>
      rcases mem_append.mp h with h | h
      · obtain ⟨d, hd, rfl⟩ := mem_map.mp h
        exact ⟨.variable constant d, mem_append_left _ (mem_map_of_mem hd), rfl⟩
      · exact hbody h
    | _ => exact hbody h

theorem mem_methodLabels (h : x ∈ methodLabels ν body) : ∃ d ∈ bodySites body, x = d.label ν := by
  induction body with
  | nil => exact nomatch h
  | cons s body ih =>
    have hbody : x ∈ methodLabels ν body → ∃ d ∈ bodySites (s :: body), x = d.label ν := by
      intro hx
      obtain ⟨d, hd, heq⟩ := ih hx
      exact ⟨d, mem_append_right _ hd, heq⟩
    cases s with
    | function head inner =>
      rcases mem_cons.mp h with rfl | h
      · exact ⟨.function head, mem_append_left _ mem_cons_self, rfl⟩
      · exact hbody h
    | _ => exact hbody h

/-! ## statements -/

theorem bodyLegible_append (h : Script.BodyLegibleBy N ss) (h' : Script.BodyLegibleBy N ts) :
    Script.BodyLegibleBy N (ss ++ ts) := by
  induction ss with
  | nil => exact h'
  | cons s ss ih => exact ⟨h.1, ih h.2⟩

theorem bodyLegible_methods {methods : List String} (hname : N name) (h : ∀ m ∈ methods, N m) :
    Script.BodyLegibleBy N (methods.map (.attach name)) := by
  induction methods with
  | nil => trivial
  | cons m ms ih =>
    obtain ⟨hm, hms⟩ := forall_mem_cons.mp h
    exact ⟨⟨hname, hm⟩, ih hms⟩

theorem legible_rangeLoopWith (hindex : N (mangled "range" n)) {first last : Script.Expr}
    (hfirst : first.LegibleBy N) (hlast : last.LegibleBy N) (hbody : Script.BodyLegibleBy N body) :
    (rangeLoopWith (mangled "range" n) first last body).LegibleBy N := by
  exact ⟨hindex, hfirst, ⟨hindex, hlast⟩, hindex, trivial, hbody⟩

theorem bodyLegible_evaluation {e : Script.Expr} (h : e.LegibleBy N) :
    Script.BodyLegibleBy N (Stmt.lower.evaluation scrutinee e) := by
  unfold Stmt.lower.evaluation
  split
  · trivial
  · exact ⟨h, trivial⟩

theorem BranchesLower.ne_nil (h : BranchesLower ν gs gs') (hne : gs ≠ []) : gs' ≠ [] := by
  cases h with
  | nil => exact absurd rfl hne
  | cons _ _ => exact nofun

section

variable (hrange : ∀ n, N (mangled "range" n))

set_option linter.unusedSectionVars false

include hrange

mutual

theorem Stmt.Lowers.legible {s : Stmt} (h : s.Lowers ν ss) (hs : Labelled N ν s.literals s.uses s.sites)
    (hb : s.Branched) : Script.BodyLegibleBy N ss := by
  match h with
  | .expression | .print => exact ⟨Expr.legible _ hs, trivial⟩
  | .declare =>
    refine ⟨⟨?_, Expr.allLegible _ ⟨hs.literals, hs.uses, nofun⟩⟩, trivial⟩
    exact forall_mem_map.mpr fun d hd => hs.sites _ (mem_map_of_mem hd)
  | .assign =>
    obtain ⟨htargets, hvalues⟩ := hs.apart
    exact ⟨⟨Expr.allLegible _ htargets, Expr.allLegible _ hvalues⟩, trivial⟩
  | .function hbody =>
    obtain ⟨hname, hs⟩ := hs.site
    obtain ⟨hparameters, hs⟩ := hs.split
    exact ⟨⟨hname, parameters_legible _ hparameters, hbody.legible hs hb⟩, trivial⟩
  | .classDef hbody =>
    obtain ⟨hname, hs⟩ := hs.site
    obtain ⟨hparameters, hs⟩ := hs.split
    refine bodyLegible_append (hbody.legible hs hb) ⟨⟨hname, parameters_legible _ hparameters, ?_⟩,
      bodyLegible_methods hname ?_⟩
    · intro f hf
      obtain ⟨d, hd, rfl⟩ := mem_fieldLabels hf
      exact hs.sites d hd
    · intro m hm
      obtain ⟨d, hd, rfl⟩ := mem_methodLabels hm
      exact hs.sites d hd
  | .conditional hgs ho =>
    obtain ⟨hbranches, hotherwise⟩ := hs.split
    exact ⟨⟨hgs.ne_nil hb.1, hgs.legible hbranches hb.2.1, ho.legible hotherwise hb.2.2⟩, trivial⟩
  | .whileLoop hbody =>
    obtain ⟨hcondition, hs⟩ := hs.apart
    exact ⟨⟨Expr.legible _ hcondition, hbody.legible hs hb⟩, trivial⟩
  | .forLoop hbody =>
    obtain ⟨hindex, hs⟩ := hs.site
    obtain ⟨hhead, hs⟩ := hs.apart
    obtain ⟨hbounds, hstep⟩ := forall_mem_append.mp hhead.uses
    obtain ⟨hinit, htest⟩ := forall_mem_append.mp hbounds
    obtain ⟨htarget, hupdate⟩ := forall_mem_cons.mp hstep
    obtain ⟨hlbounds, hlupdate⟩ := forall_mem_append.mp hhead.literals
    obtain ⟨hlinit, hltest⟩ := forall_mem_append.mp hlbounds
    exact ⟨⟨hindex, Expr.legible _ ⟨hlinit, hinit, nofun⟩, Expr.legible _ ⟨hltest, htest, nofun⟩,
      htarget, Update.legible ⟨hlupdate, hupdate, nofun⟩, hbody.legible hs hb⟩, trivial⟩
  | .rangeLoop number hbody =>
    obtain ⟨hbounds, hs⟩ := hs.apart
    obtain ⟨hstart, hstop⟩ := hbounds.apart
    have hloop := legible_rangeLoopWith (hrange number) (Expr.legible _ hstart) (Expr.legible _ hstop)
      (hbody.legible hs hb)
    exact ⟨hloop, trivial⟩
  | .switch hgs ho =>
    obtain ⟨hs, hotherwise⟩ := hs.split
    obtain ⟨hscrutinee, hcases⟩ := hs.apart
    refine bodyLegible_append (bodyLegible_evaluation (Expr.legible _ hscrutinee)) ⟨?_, trivial⟩
    exact ⟨hgs.legible hcases hb.1, ho.legible hotherwise hb.2⟩
  | .breakLoop | .continueLoop => exact ⟨trivial, trivial⟩
  | .returnValue => exact ⟨Expr.legible_of_mem hs, trivial⟩
  | .block hbody => exact ⟨hbody.legible hs hb, trivial⟩

theorem BodyLowers.legible (h : BodyLowers ν body ss)
    (hs : Labelled N ν (bodyLiterals body) (bodyUses body) (bodySites body)) (hb : BodyBranched body) :
    Script.BodyLegibleBy N ss := by
  match h with
  | .nil => trivial
  | .cons hfirst hrest =>
    obtain ⟨hs, hbody⟩ := hs.split
    exact bodyLegible_append (hfirst.legible hs hb.1) (hrest.legible hbody hb.2)

theorem BranchesLower.legible (h : BranchesLower ν gs gs')
    (hs : Labelled N ν (branchLiterals gs) (branchUses gs) (branchSites gs)) (hb : BranchesBranched gs) :
    Script.BranchesLegibleBy N gs' := by
  match h with
  | .nil => trivial
  | .cons hbody hgs =>
    obtain ⟨hs, hrest⟩ := hs.split
    obtain ⟨hguard, hs⟩ := hs.apart
    exact ⟨Expr.legible _ hguard, hbody.legible hs hb.1, hgs.legible hrest hb.2⟩

theorem OtherwiseLowers.legible {o : Option (List Stmt)} {o' : Option (List Script.Stmt)}
    (h : OtherwiseLowers ν o o')
    (hs : Labelled N ν (otherwiseLiterals o) (otherwiseUses o) (otherwiseSites o))
    (hb : OtherwiseBranched o) : Script.OtherwiseLegibleBy N o' := by
  match h with
  | .none => trivial
  | .some hbody => exact hbody.legible hs hb

end

end

/-! ## programs -/

/-- the names of a table, and a name that is never given out for what has none in it -/
def Names.label (ns : Names) (id : DeclId) : String := (ns.given.lookup id).getD (mangled "range" 0)

theorem Names.fits_label (ns : Names) : ns.Fits ns.label := by
  intro id s hs
  unfold label
  rw [hs]
  rfl

/-- a table in which entries of the program have names, and nothing else has -/
def Names.Serves (q : Program) (ns : Names) : Prop :=
  ∃ n order, Tracks n order ns ∧ ∀ e ∈ order, e ∈ namedEntries q

/-- the names of a program at the end of a run -/
def naming (q : Program) : DeclId → String := (lowerBody q Names.initial).2.label

theorem lowers_naming (q : Program) : BodyLowers (naming q) q (script q) :=
  (settles_lowerBody q Names.initial _ (Names.fits_label _)).2

theorem Names.Serves.label_eq {ns : Names} (h : ns.Serves q) (id : DeclId) :
    ∃ base number, ns.label id = mangled base number ∧
      ((.declared id, base) ∈ namedEntries q ∨ base = "range") := by
  obtain ⟨n, order, htracks, hentries⟩ := h
  unfold label
  rw [htracks.lookup id]
  cases hs : TypedScript.given order (.declared id) with
  | none => exact ⟨"range", 0, rfl, .inr rfl⟩
  | some s =>
    obtain ⟨base, number, hmem, _, rfl⟩ := mem_of_given hs
    exact ⟨base, number, rfl, .inl (hentries _ hmem)⟩

section

variable {p q : Program} (hp : p.WellFormed) (h : analyse Scope.root p = .ok q)

include hp h

theorem spelled_of_analyse : Spelled (bodyLiterals q) (bodySites q) := by
  obtain ⟨c, hbody⟩ := accepted_of_analyse h
  exact hp.bare.spelled.of_same hbody.spelling

theorem isName_of_mem_namedEntries (he : e ∈ namedEntries q) (number : Nat) :
    IsName (mangled e.2 number) := by
  rcases mem_append.mp he with he | he
  · obtain ⟨d, hd, rfl⟩ := mem_map.mp he
    have hname := (spelled_of_analyse hp h).names d hd
    exact isName_mangled (isWord_of_isName hname) (isNumber_of_isName hname) number
  · obtain ⟨i, _, rfl⟩ := mem_map.mp he
    exact isName_range number

theorem Names.Serves.labelled {ns : Names} (hns : ns.Serves q) :
    Labelled IsName ns.label (bodyLiterals q) (bodyUses q) (bodySites q) := by
  have hν : ∀ id, IsName (ns.label id) := by
    intro id
    obtain ⟨base, number, heq, hentry | rfl⟩ := hns.label_eq id
    · exact heq ▸ isName_of_mem_namedEntries hp h hentry number
    · exact heq ▸ isName_range number
  refine ⟨(spelled_of_analyse hp h).literals, fun x hx => ?_, fun d hd => ?_⟩
  · have hresolved := resolved_of_analyse h x hx
    unfold Symbol.Resolved at hresolved
    unfold Symbol.label
    split at hresolved
    · next id hid =>
      rw [hid]
      exact hν id
    · next native hnative =>
      obtain ⟨b, hb, rfl, _⟩ := hresolved
      rw [hnative]
      exact isName_native hb
    · exact hresolved.elim
  · obtain ⟨id, hid, _⟩ := referent_of_site h hd
    unfold Site.label
    rw [hid]
    exact hν id

omit hp in
theorem serves_lowerBody : (lowerBody q Names.initial).2.Serves q := by
  obtain ⟨order, htracks, hgrows, _⟩ := gives_lowerBody q 0 [] Names.initial tracks_initial
  exact ⟨_, order, htracks, mem_namedEntries_of_grows h htracks hgrows subset_rfl nofun⟩

theorem labelled_naming : Labelled IsName (naming q) (bodyLiterals q) (bodyUses q) (bodySites q) :=
  (serves_lowerBody h).labelled hp h

/-- the script of a program that is read, under a naming by words -/
theorem exists_naming : ∃ ν : DeclId → String, BodyLowers ν q (script q) ∧
    Script.BodyLegible (script q) := by
  have hlowers := lowers_naming q
  obtain ⟨c, hbody⟩ := accepted_of_analyse h
  have hbranched := hbody.branched (bodyBranched_of_forall fun s hs => (hp s hs).branched)
  exact ⟨naming q, hlowers, hlowers.legible isName_range (labelled_naming hp h) hbranched⟩

end

end TypedScript
