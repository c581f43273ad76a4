import TypedScript.Proofs.TypedPlaces
import TypedScript.Proofs.UniqueTexts

/-!
# Expressions are known by their texts

Two expressions of an accepted program that are printed alike, with names from one table, are equal: they
have the same literals, operators, names, marks and parts.  Only types are not printed, and a tuple is
printed as an array.
-/

namespace TypedScript

open Script (IsName)
open List

variable {ν : DeclId → String} {σ : String → Symbol}

/-! ## skeletons -/

/-- arrays and tuples are printed alike -/
def Collection.printed : Collection → Collection
  | .set => .set
  | .array => .array
  | .tuple => .array

mutual

/-- an expression without types, and with arrays for its tuples -/
def Expr.skeleton : Expr → Expr
  | .literal v _ => .literal v none
  | .name x _ => .name x none
  | .binary op left right _ => .binary op left.skeleton right.skeleton none
  | .unary op operand _ => .unary op operand.skeleton none
  | .call callee arguments awaited constructs _ =>
    .call callee.skeleton (Expr.skeletons arguments) awaited constructs none
  | .subscript base index _ => .subscript base.skeleton index.skeleton none
  | .member object x _ => .member object.skeleton x none
  | .collection form elements _ => .collection form.printed (Expr.skeletons elements) none
  | .dict entries _ => .dict (Expr.entrySkeletons entries) none

def Expr.skeletons : List Expr → List Expr
  | [] => []
  | e :: es => e.skeleton :: Expr.skeletons es

def Expr.entrySkeletons : List (Expr × Expr) → List (Expr × Expr)
  | [] => []
  | (key, value) :: es => (key.skeleton, value.skeleton) :: Expr.entrySkeletons es

end

/-- the same call with the mark of `await` -/
def Expr.awaiting : Expr → Expr
  | .call callee arguments _ constructs t => .call callee arguments true constructs t
  | e => e

mutual

/-- the expression that a script stands for, given what its names stand for -/
def Script.Expr.source (σ : String → Symbol) : Script.Expr → TypedScript.Expr
  | .literal v => .literal v none
  | .ident x => .name (σ x) none
  | .binary op l r => .binary op (l.source σ) (r.source σ) none
  | .truncate q => q.source σ
  | .unary op x => .unary op (x.source σ) none
  -- only a plus sign is dropped
  | .group x => .unary .plus (x.source σ) none
  | .call f as => .call (f.source σ) (Script.Expr.sources σ as) false false none
  | .construct f as => .call (f.source σ) (Script.Expr.sources σ as) false true none
  | .await x => (x.source σ).awaiting
  | .subscript b i => .subscript (b.source σ) (i.source σ) none
  | .member o x => .member (o.source σ) (σ x) none
  | .array es => .collection .array (Script.Expr.sources σ es) none
  | .newSet es => .collection .set (Script.Expr.sources σ es) none
  | .object es => .dict (Script.Expr.entrySources σ es) none

def Script.Expr.sources (σ : String → Symbol) : List Script.Expr → List TypedScript.Expr
  | [] => []
  | e :: es => e.source σ :: Script.Expr.sources σ es

def Script.Expr.entrySources (σ : String → Symbol) :
    List (Script.Expr × Script.Expr) → List (TypedScript.Expr × TypedScript.Expr)
  | [] => []
  | (k, v) :: es => (k.source σ, v.source σ) :: Script.Expr.entrySources σ es

end

open Script.Expr (source sources entrySources)

mutual

theorem Expr.source_named (e : Expr) (h : ∀ x ∈ e.uses, σ (x.label ν) = x) :
    (e.named ν).source σ = e.skeleton := by
  match e with
  | .literal v t => rfl
  | .name x t => rw [Expr.named, source, h x mem_cons_self, Expr.skeleton]
  | .binary op left right t =>
    obtain ⟨hleft, hright⟩ := forall_mem_append.mp h
    have hl := left.source_named hleft
    have hr := right.source_named hright
    rw [Expr.named, Expr.skeleton]
    split
    · rw [source, source, hl, hr]
    · rw [source, hl, hr]
  | .unary op operand t =>
    have ho := operand.source_named h
    rw [Expr.named, Expr.skeleton]
    split
    · next hplus => rw [source, ho, hplus.1]
    · rw [source, ho]
  | .call callee arguments awaited constructs t =>
    obtain ⟨hcallee, harguments⟩ := forall_mem_append.mp h
    have hf := callee.source_named hcallee
    have has := Expr.sources_named arguments harguments
    rw [Expr.named, Expr.skeleton, ← hf, ← has]
    cases awaited <;> cases constructs <;> rfl
  | .subscript base index t =>
    obtain ⟨hbase, hindex⟩ := forall_mem_append.mp h
    rw [Expr.named, source, Expr.skeleton, base.source_named hbase, index.source_named hindex]
  | .member object x t =>
    obtain ⟨hobject, hx⟩ := forall_mem_append.mp h
    rw [Expr.named, source, Expr.skeleton, object.source_named hobject, hx x mem_cons_self]
  | .collection form elements t =>
    have hes := Expr.sources_named elements h
    rw [Expr.skeleton, ← hes]
    cases form <;> rfl
  | .dict entries t =>
    rw [Expr.named, source, Expr.skeleton, Expr.entrySources_named entries h]

theorem Expr.sources_named (es : List Expr) (h : ∀ x ∈ Expr.usesAll es, σ (x.label ν) = x) :
    sources σ (Expr.allNamed ν es) = Expr.skeletons es := by
  match es with
  | [] => rfl
  | e :: es =>
    obtain ⟨he, hes⟩ := forall_mem_append.mp h
    rw [Expr.allNamed, sources, Expr.skeletons, e.source_named he, Expr.sources_named es hes]

theorem Expr.entrySources_named (es : List (Expr × Expr)) (h : ∀ x ∈ Expr.entryUses es, σ (x.label ν) = x) :
    entrySources σ (Expr.entriesNamed ν es) = Expr.entrySkeletons es := by
  match es with
  | [] => rfl
  | (key, value) :: es =>
    obtain ⟨hentry, hes⟩ := forall_mem_append.mp h
    obtain ⟨hkey, hvalue⟩ := forall_mem_append.mp hentry
    rw [Expr.entriesNamed, entrySources, Expr.entrySkeletons, key.source_named hkey,
      value.source_named hvalue, Expr.entrySources_named es hes]

end

/-! ## scripts with texts of their own -/

variable {e : Expr}

/-- what a node asks of its script -/
def Expr.PrintsWell (ν : DeclId → String) : Expr → Prop
  | .literal v _ => v.WellFormed
  | .name x _ => IsName (x.label ν) ∧ x.label ν ∉ fixedWords
  | .call callee _ _ constructs _ => constructs = true → callee.isName = true
  | .member _ x _ => IsName (x.label ν)
  | _ => True

theorem Literal.WellFormed.readable {v : Literal} (h : v.WellFormed) : Script.Literal.Readable v := by
  cases v with
  | integer n => exact h.1
  | long digits => exact h
  | string | boolean | null => trivial

theorem Script.Expr.readable_applied {f : Script.Expr} {as : List Script.Expr} (hf : f.Readable)
    (has : Script.Expr.AllReadable as) (hident : constructs = true → f.isIdent = true) (awaited : Bool) :
    (Script.Expr.applied constructs awaited f as).Readable := by
  cases constructs with
  | false => cases awaited <;> exact ⟨hf, has⟩
  | true => cases awaited <;> exact ⟨hident rfl, hf, has⟩

theorem Expr.isIdent_named (h : e.isName = true) : (e.named ν).isIdent = true := by
  cases e with
  | name x t => rfl
  | _ => cases h

mutual

theorem Expr.readable (e : Expr) (h : ∀ n ∈ e.nodes, n.PrintsWell ν) : (e.named ν).Readable := by
  match e with
  | .literal v t => exact Literal.WellFormed.readable (h _ mem_cons_self)
  | .name x t => exact h _ mem_cons_self
  | .binary op left right t =>
    obtain ⟨hleft, hright⟩ := forall_mem_append.mp (forall_mem_cons.mp h).2
    have hoperands := And.intro (left.readable hleft) (right.readable hright)
    rw [Expr.named]
    split
    · exact hoperands
    · exact hoperands
  | .unary op operand t =>
    have hoperand := operand.readable (forall_mem_cons.mp h).2
    rw [Expr.named]
    split
    · exact hoperand
    · exact hoperand
  | .call callee arguments awaited constructs t =>
    obtain ⟨hself, hparts⟩ := forall_mem_cons.mp h
    obtain ⟨hcallee, harguments⟩ := forall_mem_append.mp hparts
    exact Script.Expr.readable_applied (callee.readable hcallee) (Expr.allReadable arguments harguments)
      (fun hc => Expr.isIdent_named (hself hc)) awaited
  | .subscript base index t =>
    obtain ⟨hbase, hindex⟩ := forall_mem_append.mp (forall_mem_cons.mp h).2
    exact ⟨base.readable hbase, index.readable hindex⟩
  | .member object x t =>
    obtain ⟨hself, hobject⟩ := forall_mem_cons.mp h
    exact ⟨object.readable hobject, hself⟩
  | .collection form elements t =>
    have helements := Expr.allReadable elements (forall_mem_cons.mp h).2
    cases form with
    | set | array | tuple => exact helements
  | .dict entries t => exact Expr.entriesReadable entries (forall_mem_cons.mp h).2

theorem Expr.allReadable (es : List Expr) (h : ∀ n ∈ Expr.nodesAll es, n.PrintsWell ν) :
    Script.Expr.AllReadable (Expr.allNamed ν es) := by
  match es with
  | [] => trivial
  | e :: es =>
    obtain ⟨he, hes⟩ := forall_mem_append.mp h
    exact ⟨e.readable he, Expr.allReadable es hes⟩

theorem Expr.entriesReadable (es : List (Expr × Expr)) (h : ∀ n ∈ Expr.entryNodes es, n.PrintsWell ν) :
    Script.Expr.EntriesReadable (Expr.entriesNamed ν es) := by
  match es with
  | [] => trivial
  | (key, value) :: es =>
    obtain ⟨hentry, hes⟩ := forall_mem_append.mp h
    obtain ⟨hkey, hvalue⟩ := forall_mem_append.mp hentry
    exact ⟨key.readable hkey, value.readable hvalue, Expr.entriesReadable es hes⟩

end

/-- expressions with one text, under a naming that tells their names apart -/
theorem Expr.skeleton_eq {e' : Expr} (he : ∀ n ∈ e.nodes, n.PrintsWell ν)
    (he' : ∀ n ∈ e'.nodes, n.PrintsWell ν) (hinj : Set.InjOn (Symbol.label ν) {x | x ∈ e.uses ++ e'.uses})
    (htext : (e.named ν).text = (e'.named ν).text) : e.skeleton = e'.skeleton := by
  let σ := Function.invFunOn (Symbol.label ν) {x | x ∈ e.uses ++ e'.uses}
  have hσ : ∀ x ∈ e.uses ++ e'.uses, σ (x.label ν) = x := fun x hx => hinj.leftInvOn_invFunOn hx
  obtain ⟨huses, huses'⟩ := forall_mem_append.mp hσ
  have hscript := Script.Expr.text_injective (e.readable he) (e'.readable he') htext
  calc e.skeleton = (e.named ν).source σ := (e.source_named huses).symm
    _ = (e'.named ν).source σ := by rw [hscript]
    _ = e'.skeleton := e'.source_named huses'

/-! ## tables of one run -/

namespace Names

variable {ns ns' : Names}

/-- a later table: no name is taken back -/
def KeptBy (ns ns' : Names) : Prop := ∀ id s, ns.given.lookup id = some s → ns'.given.lookup id = some s

/-- the table has the name of a symbol, unless the target language has it -/
def Knows (ns : Names) (x : Symbol) : Prop :=
  ∀ id, x.resolution = some (.declared id) → ∃ s, ns.given.lookup id = some s

theorem KeptBy.fits (h : ns.KeptBy ns') (hfits : ns'.Fits ν) : ns.Fits ν :=
  fun id s hs => hfits id s (h id s hs)

theorem KeptBy.knows (h : ns.KeptBy ns') (hx : ns.Knows x) : ns'.Knows x := by
  intro id hid
  obtain ⟨s, hs⟩ := hx id hid
  exact ⟨s, h id s hs⟩

end Names

variable {x : Symbol} {ns : Names} {order : Order} {n : Nat} {q : Program}

theorem Tracks.knows (h : Tracks n order ns)
    (hx : (∃ s, x.referent = .verbatim s) ∨ ∃ base, (x.referent, base) ∈ order) : ns.Knows x := by
  intro id hid
  have hreferent : x.referent = .declared id := by rw [Symbol.referent, hid]
  rw [hreferent] at hx
  rcases hx with ⟨s, hs⟩ | ⟨base, hbase⟩
  · cases hs
  · rw [h.lookup id]
    exact exists_given hbase

theorem Tracks.keptBy (h : Tracks n order ns) (h' : Tracks n' order' ns') (hgrows : Grows M order order') :
    ns.KeptBy ns' := by
  intro id s hs
  rw [h.lookup id] at hs
  rw [h'.lookup id]
  exact hgrows.keeps _ s hs

theorem Symbol.resolution_of_referent {id : DeclId} (h : x.referent = .declared id) :
    x.resolution = some (.declared id) := by
  unfold Symbol.referent at h
  split at h
  · next id' hid =>
    cases h
    exact hid
  · cases h
  · cases h

theorem Names.Serves.keptBy_of_knows (hns : ns.Serves q)
    (he : ∀ x ∈ e.uses, ns.Knows x) : (e.lower ns).2.KeptBy ns := by
  obtain ⟨n, order, htracks, _⟩ := hns
  obtain ⟨order', htracks', hgrows, _⟩ := e.gives_lower n order ns htracks
  intro id s hs
  have hknown : ∃ s', ns.given.lookup id = some s' := by
    rw [htracks'.lookup id] at hs
    obtain ⟨base, _, hmem, _⟩ := mem_of_given hs
    rcases hgrows.new _ hmem with hold | ⟨x, hx, heq⟩
    · rw [htracks.lookup id]
      exact exists_given hold
    · exact he x hx id (Symbol.resolution_of_referent (congrArg Prod.fst heq).symm)
  -- a name that was there before is the same afterwards
  obtain ⟨s', hs'⟩ := hknown
  rw [hs', ← hs, htracks.keptBy htracks' hgrows id s' hs']

theorem knows_lowerBody (hx : x ∈ bodyUses q) : (lowerBody q Names.initial).2.Knows x := by
  obtain ⟨order, htracks, hgrows, _⟩ := gives_lowerBody q 0 [] Names.initial tracks_initial
  exact htracks.knows (hgrows.all (x.referent, x.name) (.inr (.inl ⟨x, hx, rfl⟩)))

section

variable {p q : Program} (h : analyse Scope.root p = .ok q) {ns ns' : Names}

include h

theorem Names.Serves.lower (hns : ns.Serves q) (he : e.uses ⊆ bodyUses q) :
    (e.lower ns).2.Serves q ∧ ns.KeptBy (e.lower ns).2 ∧ ∀ x ∈ e.uses, (e.lower ns).2.Knows x := by
  obtain ⟨n, order, htracks, hentries⟩ := hns
  obtain ⟨order', htracks', hgrows, _⟩ := e.gives_lower n order ns htracks
  have huses : useEntries e.uses ⊆ bodyEntries 0 q := by
    rintro _ ⟨x, hx, rfl⟩
    exact .inr (.inl ⟨x, he hx, rfl⟩)
  refine ⟨⟨n, order', htracks', ?_⟩, htracks.keptBy htracks' hgrows, fun x hx => ?_⟩
  · exact mem_namedEntries_of_grows h htracks' hgrows huses hentries
  · exact htracks'.knows (hgrows.all _ ⟨x, hx, rfl⟩)

/-! ## names -/

variable {y : Symbol}

theorem Symbol.eq_of_referent (hx : x ∈ bodyUses q) (hy : y ∈ bodyUses q)
    (heq : x.referent = y.referent) : x = y := by
  have hresolved := resolved_of_analyse h x hx
  have hresolved' := resolved_of_analyse h y hy
  obtain ⟨name, resolution⟩ := x
  obtain ⟨name', resolution'⟩ := y
  match resolution, resolution' with
  | some (.declared id), some (.declared id') =>
    obtain ⟨d, hd, hid, rfl⟩ := hresolved
    obtain ⟨d', hd', hid', rfl⟩ := hresolved'
    cases heq
    rw [inj_on_of_nodup_map (nodup_siteIds_of_analyse h) hd hd' (hid.trans hid'.symm)]
  | some (.builtin native), some (.builtin native') =>
    obtain ⟨b, hb, rfl, rfl⟩ := hresolved
    obtain ⟨b', hb', rfl, rfl⟩ := hresolved'
    have hnatives : ∀ b ∈ builtins, ∀ b' ∈ builtins, b.native = b'.native → b.name = b'.name := by decide
    have hnative : b.native = b'.native := Referent.verbatim.inj heq
    rw [hnative, hnatives b hb b' hb' hnative]
  | some (.declared id), some (.builtin native) => cases heq
  | some (.builtin native), some (.declared id) => cases heq
  | none, _ => exact hresolved.elim
  | some _, none => exact hresolved'.elim

/-- a table tells apart the names that it knows -/
theorem Names.Serves.label_inj (hns : ns.Serves q) (hx : x ∈ bodyUses q) (hy : y ∈ bodyUses q)
    (hknown : ns.Knows x) (hknown' : ns.Knows y) (heq : x.label ns.label = y.label ns.label) : x = y := by
  obtain ⟨n, order, htracks, _⟩ := hns
  have hname : ∀ z ∈ bodyUses q, ns.Knows z → nameIn order z.referent = some (z.label ns.label) ∧
      ∀ t, z.referent = .verbatim t → t ∈ natives := by
    intro z hz hknown
    have hresolved := resolved_of_analyse h z hz
    unfold Symbol.Resolved at hresolved
    unfold Symbol.label Symbol.referent
    split at hresolved
    · next id hid =>
      obtain ⟨s, hs⟩ := hknown id hid
      rw [hid]
      refine ⟨?_, fun t ht => (by cases ht)⟩
      show TypedScript.given order (.declared id) = some (ns.label id)
      rw [← htracks.lookup id, hs, ns.fits_label id s hs]
    · next native hnative =>
      obtain ⟨b, hb, rfl, _⟩ := hresolved
      rw [hnative]
      refine ⟨rfl, ?_⟩
      rintro t ⟨⟩
      exact mem_natives hb
    · exact hresolved.elim
  obtain ⟨hx', hnative⟩ := hname x hx hknown
  obtain ⟨hy', hnative'⟩ := hname y hy hknown'
  exact Symbol.eq_of_referent h hx hy (nameIn_inj hnative hnative' (heq ▸ hx') hy')

end

/-! ## accepted programs -/

section

variable {p q : Program} (hp : p.WellFormed) (h : analyse Scope.root p = .ok q) {ns ns' : Names}
variable {P : Stmt.Place}

include hp h

theorem Names.Serves.printsWell (hns : ns.Serves q) (hP : P ∈ placesOf Scope.root q)
    (he : e ∈ P.nodes) : ∀ n ∈ e.nodes, n.PrintsWell ns.label := by
  intro n hn
  have hnode : n ∈ P.nodes := P.nodes_closed e he hn
  have hlabelled := (hns.labelled hp h).node hP hnode
  have hdrawn := drawn_bodyPlaces _ [] q P hP n hnode
  have hconstructs := constructsByName_of_analyse hp h hP hnode
  cases n with
  | literal v t => exact hlabelled.literals v mem_cons_self
  | name x t =>
    exact ⟨hlabelled.uses x mem_cons_self,
      label_not_mem_fixedWords h hns (hdrawn.uses mem_cons_self)⟩
  | call => exact hconstructs
  | member object x t => exact hlabelled.uses x (mem_append_right _ mem_cons_self)
  | binary | unary | subscript | collection | dict => trivial

/-- expressions that are printed one after the other, with whatever in between -/
theorem skeleton_eq_of_text_eq (hP : P ∈ placesOf Scope.root q) (hP' : P' ∈ placesOf Scope.root q)
    (he : e ∈ P.nodes) (he' : e' ∈ P'.nodes) (hns : ns.Serves q) (hns' : ns'.Serves q)
    (hkept : (e.lower ns).2.KeptBy ns') (htext : (e.lower ns).1.text = (e'.lower ns').1.text) :
    e.skeleton = e'.skeleton := by
  have huses := (drawn_bodyPlaces _ [] q P hP e he).uses
  have huses' := (drawn_bodyPlaces _ [] q P' hP' e' he').uses
  obtain ⟨_, _, hknows⟩ := hns.lower h huses
  obtain ⟨hserves, hkept', hknows'⟩ := hns'.lower h huses'
  -- both are printed with the names that are known at the end
  have hfits := (e'.lower ns').2.fits_label
  have hlower := (e.settles_lower ns _ (hkept.fits (hkept'.fits hfits))).2
  have hlower' := (e'.settles_lower ns' _ hfits).2
  have hall : ∀ x ∈ e.uses ++ e'.uses, x ∈ bodyUses q ∧ (e'.lower ns').2.Knows x :=
    forall_mem_append.mpr ⟨fun x hx => ⟨huses hx, hkept'.knows (hkept.knows (hknows x hx))⟩,
      fun x hx => ⟨huses' hx, hknows' x hx⟩⟩
  refine Expr.skeleton_eq (hserves.printsWell hp h hP he) (hserves.printsWell hp h hP' he') ?_ ?_
  · intro x hx y hy heq
    exact hserves.label_inj h (hall x hx).1 (hall y hy).1 (hall x hx).2 (hall y hy).2 heq
  · rw [← hlower, ← hlower', htext]

end

/-- Two expressions of an accepted program that have one text have one skeleton: the same literals,
operators, names with what they stand for, marks and parts.  They may be printed at any two times of a run,
or with one table that knows the names of one of them, as the table at the end of the run does. -/
theorem texts_identify_expressions {p q : Program} (hp : p.WellFormed) (h : analyse Scope.root p = .ok q)
    {P P' : Stmt.Place} (hP : P ∈ placesOf Scope.root q) (hP' : P' ∈ placesOf Scope.root q) {e e' : Expr}
    (he : e ∈ P.nodes) (he' : e' ∈ P'.nodes) :
    (∀ ns ns' : Names, ns.Serves q → ns'.Serves q → (e.lower ns).2.KeptBy ns' →
      (e.lower ns).1.text = (e'.lower ns').1.text → e.skeleton = e'.skeleton) ∧
    (∀ ns : Names, ns.Serves q → (∀ x ∈ e.uses, ns.Knows x) →
      (e.lower ns).1.text = (e'.lower ns).1.text → e.skeleton = e'.skeleton) ∧
    (lowerBody q Names.initial).2.Serves q ∧ ∀ x ∈ e.uses, (lowerBody q Names.initial).2.Knows x := by
  refine ⟨fun ns ns' hns hns' => skeleton_eq_of_text_eq hp h hP hP' he he' hns hns', ?_,
    serves_lowerBody h, ?_⟩
  · intro ns hns hknows
    exact skeleton_eq_of_text_eq hp h hP hP' he he' hns hns (hns.keptBy_of_knows hknows)
  · exact fun x hx => knows_lowerBody ((drawn_bodyPlaces _ [] q P hP e he).uses hx)

/-- `let a = 1; [a]; (a,);`, before and behind the check -/
def listedNames (typed : Ty → Option Ty) (a : Option DeclId) (use : Option Resolution) : Program :=
  [.declare false [⟨"a", none, a, typed .int⟩] [.literal (.integer 1) (typed .int)],
   .expression (.collection .array [.name ⟨"a", use⟩ (typed .int)] (typed (.array .int))),
   .expression (.collection .tuple [.name ⟨"a", use⟩ (typed .int)] (typed (.tuple [.int])))]

theorem wellFormed_listedNames : (listedNames (fun _ => none) none none).WellFormed := by
  have hlist : ∀ form, Expr.WellFormed (.collection form [.name ⟨"a", none⟩ none] none) := by
    intro form
    refine .collection (fun _ => cons_ne_nil _ _) (forall_mem_singleton.mpr ?_)
    exact Expr.WellFormed.name (by decide)
  refine forall_mem_cons.mpr ⟨.declare (cons_ne_nil _ _) ?_ ?_, forall_mem_cons.mpr
    ⟨.expression (hlist .array), forall_mem_singleton.mpr (.expression (hlist .tuple))⟩⟩
  · exact forall_mem_singleton.mpr ⟨by decide, fun _ h => (by cases h), rfl, rfl⟩
  · exact forall_mem_singleton.mpr (.literal ⟨by decide, by decide⟩)

/-- the array and the tuple have one text, and one skeleton -/
theorem texts_identify_expressions_tuple : let p := listedNames (fun _ => none) none none
    let q := listedNames some (some 1) (some (.declared 1))
    let ns := (lowerBody q Names.initial).2
    let array := Expr.collection .array [.name ⟨"a", some (.declared 1)⟩ (some .int)] (some (.array .int))
    let tuple := Expr.collection .tuple [.name ⟨"a", some (.declared 1)⟩ (some .int)] (some (.tuple [.int]))
    p.WellFormed ∧ analyse Scope.root p = .ok q ∧ (array.lower ns).1.text = "[a_1]" ∧
      (tuple.lower ns).1.text = "[a_1]" ∧ array.skeleton = tuple.skeleton := by
  intro p q ns array tuple
  have h : analyse Scope.root p = .ok q := by cbv
  have hP : ⟨Scope.root.sight, [q[0]], q[1]⟩ ∈ placesOf Scope.root q :=
    mem_of_getElem? (show (placesOf Scope.root q)[1]? = _ from rfl)
  have hP' : ⟨Scope.root.sight, [q[0], q[1]], q[2]⟩ ∈ placesOf Scope.root q :=
    mem_of_getElem? (show (placesOf Scope.root q)[2]? = _ from rfl)
  have harray : (array.lower ns).1.text = "[a_1]" := by decide +kernel
  have htuple : (tuple.lower ns).1.text = "[a_1]" := by decide +kernel
  obtain ⟨_, hsame, hserves, hknows⟩ :=
    texts_identify_expressions wellFormed_listedNames h hP hP' mem_cons_self mem_cons_self
  exact ⟨wellFormed_listedNames, h, harray, htuple, hsame ns hserves hknows (harray.trans htuple.symm)⟩

end TypedScript
