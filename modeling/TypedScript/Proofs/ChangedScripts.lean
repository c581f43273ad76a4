import TypedScript.Proofs.Legibility
import TypedScript.Proofs.MappedWords
import TypedScript.Proofs.Renaming

/-!
# Scripts of changed programs

The scripts of programs that correspond have the same statements and numbers; their literals correspond, and
so do the source names in their names.  Range loops have no source name: the names of their indices stay.
-/

namespace TypedScript

open List

variable {r : Renaming}

/-! ## names with numbers -/

/-- the source name and the digits of a name with a number -/
def splitMangled? (x : String) : Option (String × List Char) :=
  match x.toList.reverse.takeWhile Text.isDigit, x.toList.reverse.dropWhile Text.isDigit with
  | d :: ds, '_' :: base => some (String.ofList base.reverse, (d :: ds).reverse)
  | _, _ => none

/-- renames the source name in a name with a number, but not in the indices of the range loops with the
numbers `loops` -/
def Renaming.remangle (r : Renaming) (loops : Finset Nat) (x : String) : String :=
  match splitMangled? x with
  | some (base, digits) =>
    if base = "range" ∧ Nat.ofDigitChars 10 digits 0 ∈ loops then x
    else r base ++ "_" ++ String.ofList digits
  | none => x

theorem splitMangled?_mangled (base : String) (number : Nat) :
    splitMangled? (mangled base number) = some (base, Nat.toDigits 10 number) := by
  have hdigits : ∀ c ∈ (Nat.toDigits 10 number).reverse, Text.isDigit c = true := by
    intro c hc
    have hlist : (toString number).toList = Nat.toDigits 10 number := Nat.toList_repr
    exact Script.isDigit_of_mem_toString (hlist ▸ mem_reverse.mp hc)
  have hreverse : (mangled base number).toList.reverse
      = (Nat.toDigits 10 number).reverse ++ '_' :: base.toList.reverse := by
    rw [toList_mangled, reverse_append, reverse_cons, append_assoc]
    rfl
  have htake : (mangled base number).toList.reverse.takeWhile Text.isDigit
      = (Nat.toDigits 10 number).reverse := by
    rw [hreverse, takeWhile_append_of_pos hdigits]
    exact append_nil _
  have hdrop : (mangled base number).toList.reverse.dropWhile Text.isDigit
      = '_' :: base.toList.reverse := by
    rw [hreverse, dropWhile_append_of_pos hdigits]
    rfl
  unfold splitMangled?
  rw [htake, hdrop]
  cases hlist : (Nat.toDigits 10 number).reverse with
  | nil => exact absurd (reverse_eq_nil_iff.mp hlist) Nat.toDigits_ne_nil
  | cons d ds =>
    show some (String.ofList base.toList.reverse.reverse, (d :: ds).reverse) = _
    rw [← hlist, reverse_reverse, reverse_reverse, String.ofList_toList]

theorem Renaming.remangle_mangled (loops : Finset Nat) (base : String) (number : Nat) :
    r.remangle loops (mangled base number)
      = if base = "range" ∧ number ∈ loops then mangled base number else mangled (r base) number := by
  unfold Renaming.remangle
  rw [splitMangled?_mangled]
  dsimp only
  rw [Nat.ofDigitChars_ten_toDigits, ← Nat.toString_eq_ofList_toDigits]
  rfl

theorem eq_of_splitMangled? (h : splitMangled? x = some (base, digits)) :
    x = base ++ "_" ++ String.ofList digits := by
  unfold splitMangled? at h
  split at h
  · next d ds rest htake hdrop =>
    obtain ⟨rfl, rfl⟩ := Prod.mk.inj (Option.some.inj h)
    have hlist : x.toList.reverse = (d :: ds) ++ '_' :: rest := by
      rw [← htake, ← hdrop, takeWhile_append_dropWhile]
    rw [← String.toList_inj, ← reverse_reverse x.toList, hlist]
    simp
  · exact nomatch h

/-- the indices of range loops are no exception if the name `range` stays -/
theorem Renaming.remangle_of_range_fixed (h : r "range" = "range") (loops : Finset Nat) :
    r.remangle loops = r.remangle ∅ := by
  funext x
  unfold Renaming.remangle
  cases hsplit : splitMangled? x with
  | none => rfl
  | some parts =>
    obtain ⟨base, digits⟩ := parts
    dsimp only
    by_cases hloop : base = "range" ∧ Nat.ofDigitChars 10 digits 0 ∈ loops
    · rw [if_pos hloop, if_neg fun hempty => Finset.notMem_empty _ hempty.2, hloop.1, h, ← hloop.1]
      exact eq_of_splitMangled? hsplit
    · rw [if_neg hloop, if_neg fun hempty => Finset.notMem_empty _ hempty.2]

/-- no name is changed -/
def Renaming.refl : Renaming := ⟨id, Function.injective_id, fun _ _ => rfl⟩

theorem Renaming.refl_apply (x : String) : Renaming.refl x = x := by
  by_cases h : isName x = true
  · exact Renaming.apply_of_isName _ h
  · exact Renaming.apply_of_not_isName _ h

theorem Renaming.remangle_refl (loops : Finset Nat) : Renaming.refl.remangle loops = id := by
  funext x
  unfold Renaming.remangle
  split
  · next hsplit =>
    rw [Renaming.refl_apply, ← eq_of_splitMangled? hsplit, ite_self]
    rfl
  · rfl

theorem Renaming.fixesPlain_remangle (loops : Finset Nat) : Script.FixesPlain (r.remangle loops) := by
  intro x hx
  have hnone : splitMangled? x = none := by
    unfold splitMangled?
    split
    · next hdrop =>
      have hmem : '_' ∈ x.toList.reverse.dropWhile Text.isDigit := by
        rw [hdrop]
        exact mem_cons_self
      exact absurd (mem_reverse.mp ((dropWhile_sublist _).subset hmem)) hx
    · rfl
  unfold Renaming.remangle
  rw [hnone]

/-! ## runs side by side -/

/-- the names given out, with other texts -/
def Names.map (f : String → String) (ns : Names) : Names := ⟨ns.given.map fun e => (e.1, f e.2), ns.next⟩

theorem Names.lookup_map (f : String → String) (ns : Names) (id : DeclId) :
    (ns.map f).given.lookup id = (ns.given.lookup id).map f := by
  show List.lookup id (ns.given.map _) = _
  induction ns.given with
  | nil => rfl
  | cons e given ih =>
    rw [map_cons, lookup_cons, lookup_cons]
    by_cases h : id = e.1
    · rw [beq_iff_eq.mpr h]
      rfl
    · rw [beq_eq_false_iff_ne.mpr h]
      exact ih

namespace Naming

/-- From `ns` on, `m` gives the numbers `loops` to range loops.  If these are the numbers of range loops
among those that it gives out, then `m'` does on renamed names what `m` does. -/
structure RenamesFrom {α : Type} (r : Renaming) (m : Naming α) (m' : (String → String) → Naming α)
    (φ : (String → String) → α → α) (ns : Names) (loops : Finset Nat) : Prop where
  le : ns.next ≤ (m ns).2.next
  numbers : ∀ k ∈ loops, ns.next ≤ k ∧ k < (m ns).2.next
  run : ∀ all : Finset Nat, (∀ k, ns.next ≤ k → k < (m ns).2.next → (k ∈ all ↔ k ∈ loops)) →
    m' (r.remangle all) (ns.map (r.remangle all))
      = (φ (r.remangle all) (m ns).1, (m ns).2.map (r.remangle all))

/-- `m` names `n` range loops, and `m'` does on renamed names what `m` does -/
def Renames {α : Type} (r : Renaming) (n : Nat) (m : Naming α) (m' : (String → String) → Naming α)
    (φ : (String → String) → α → α) : Prop :=
  ∀ ns, ∃ loops, loops.card = n ∧ RenamesFrom r m m' φ ns loops

variable {α β : Type} {n k : Nat} {m : Naming α} {m' : (String → String) → Naming α}
  {φ : (String → String) → α → α} {ψ : (String → String) → β → β}

theorem Renames.pure {a : α} {a' : (String → String) → α}
    (h : ∀ all, a' (r.remangle all) = φ (r.remangle all) a) :
    Renames r 0 (Pure.pure a) (fun f => Pure.pure (a' f)) φ := by
  refine fun ns => ⟨∅, rfl, Nat.le_refl _, nofun, fun all _ => ?_⟩
  show (a' (r.remangle all), _) = _
  rw [h all]
  rfl

theorem Renames.bind (hm : Renames r n m m' φ) {g : α → Naming β}
    {g' : (String → String) → α → Naming β} (hg : ∀ a, Renames r k (g a) (fun f => g' f (φ f a)) ψ) :
    Renames r (k + n) (m >>= g) (fun f => m' f >>= g' f) ψ := by
  intro ns
  obtain ⟨loops, hcard, hfirst⟩ := hm ns
  obtain ⟨loops', hcard', hsecond⟩ := hg (m ns).1 (m ns).2
  have hle := hfirst.le
  have hle' := hsecond.le
  -- the numbers of the first part come before those of the second
  have hdisjoint : Disjoint loops' loops := by
    refine Finset.disjoint_left.mpr fun i hi hi' => ?_
    have hlow := (hsecond.numbers i hi).1
    have hhigh := (hfirst.numbers i hi').2
    omega
  refine ⟨loops' ∪ loops, ?_, Nat.le_trans hle hle', fun i hi => ?_, fun all hall => ?_⟩
  · rw [Finset.card_union_of_disjoint hdisjoint, hcard, hcard']
  · rcases Finset.mem_union.mp hi with hi | hi
    · exact ⟨Nat.le_trans hle (hsecond.numbers i hi).1, (hsecond.numbers i hi).2⟩
    · exact ⟨(hfirst.numbers i hi).1, Nat.lt_of_lt_of_le (hfirst.numbers i hi).2 hle'⟩
  · have hrun := hfirst.run all fun i hlow hhigh => by
      rw [hall i hlow (Nat.lt_of_lt_of_le hhigh hle'), Finset.mem_union]
      refine ⟨fun hi => hi.resolve_left fun hi => ?_, .inr⟩
      have hlow' := (hsecond.numbers i hi).1
      omega
    have hrun' := hsecond.run all fun i hlow hhigh => by
      rw [hall i (Nat.le_trans hle hlow) hhigh, Finset.mem_union]
      refine ⟨fun hi => hi.resolve_right fun hi => ?_, .inl⟩
      have hhigh' := (hfirst.numbers i hi).2
      omega
    show g' _ (m' _ _).1 (m' _ _).2 = _
    rw [hrun]
    exact hrun'

theorem Renames.map (hm : Renames r n m m' φ) {g : α → β} {g' : (String → String) → α → β}
    (hg : ∀ f a, g' f (φ f a) = ψ f (g a)) :
    Renames r n (m >>= fun a => Pure.pure (g a)) (fun f => m' f >>= fun a => Pure.pure (g' f a)) ψ := by
  have h : Renames r (0 + n) (m >>= fun a => Pure.pure (g a))
      (fun f => m' f >>= fun a => Pure.pure (g' f a)) ψ := hm.bind fun a => .pure fun all => hg _ a
  rwa [Nat.zero_add] at h

theorem Renames.of_eq (h : Renames r n m m' φ) (hn : k = n) : Renames r k m m' φ := hn ▸ h

/-! ## giving names -/

theorem renames_fresh : Renames r 1 (fresh "range") (fun _ => fresh "range") fun f x => f x := by
  refine fun ns => ⟨{ns.next}, Finset.card_singleton _, Nat.le_succ _, fun k hk => ?_, fun all hall => ?_⟩
  · rw [Finset.mem_singleton] at hk
    subst hk
    exact ⟨Nat.le_refl _, Nat.lt_succ_self _⟩
  · have hnext : ns.next ∈ all :=
      (hall ns.next (Nat.le_refl _) (Nat.lt_succ_self _)).mpr (Finset.mem_singleton_self _)
    show (mangled "range" ns.next, _) = (r.remangle all (mangled "range" ns.next), _)
    rw [Renaming.remangle_mangled, if_pos ⟨rfl, hnext⟩]
    rfl

theorem renames_declared (id : DeclId) (x : String) :
    Renames r 0 (declaration (some id) x) (fun _ => declaration (some id) (r x)) fun f s => f s := by
  intro ns
  cases hlookup : ns.given.lookup id with
  | some s =>
    have hrun := declaration_known hlookup x
    refine ⟨∅, rfl, by rw [hrun], nofun, fun all _ => ?_⟩
    have hlookup' : (ns.map (r.remangle all)).given.lookup id = some (r.remangle all s) := by
      rw [ns.lookup_map, hlookup]
      rfl
    rw [hrun, declaration_known hlookup']
  | none =>
    have hrun := declaration_new hlookup x
    refine ⟨∅, rfl, by rw [hrun]; exact Nat.le_succ _, nofun, fun all hall => ?_⟩
    have hlookup' : (ns.map (r.remangle all)).given.lookup id = none := by
      rw [ns.lookup_map, hlookup]
      rfl
    -- the number that is given out here is not that of a range loop
    have hnext : ns.next ∉ all := fun hmem =>
      absurd ((hall ns.next (Nat.le_refl _) (by rw [hrun]; exact Nat.lt_succ_self _)).mp hmem)
        (Finset.notMem_empty _)
    have hname : r.remangle all (mangled x ns.next) = mangled (r x) ns.next := by
      rw [Renaming.remangle_mangled, if_neg fun h => hnext h.2]
    rw [hrun, declaration_new hlookup']
    show _ = (r.remangle all (mangled x ns.next), Names.mk ((id, r.remangle all (mangled x ns.next)) :: _) _)
    rw [hname]
    rfl

theorem renames_declaration {id : Option DeclId} (h : id.isSome = true) (x : String) :
    Renames r 0 (declaration id x) (fun _ => declaration id (r x)) fun f s => f s := by
  cases id with
  | none => exact nomatch h
  | some id => exact renames_declared id x

end Naming

/-! ## trees whose names are resolved -/

/-- the symbol stands for a declaration, or for a native name without an underscore -/
def Symbol.Grounded (x : Symbol) : Prop :=
  match x.resolution with
  | some (.declared _) => True
  | some (.builtin native) => '_' ∉ native.toList
  | none => False

/-- the symbols in use are resolved, and the sites have their identities -/
structure Grounded (uses : List Symbol) (sites : List Site) : Prop where
  uses : ∀ x ∈ uses, x.Grounded
  sites : ∀ d ∈ sites, d.id.isSome = true

namespace Grounded

variable {us vs : List Symbol} {ds fs : List Site}

theorem split (h : Grounded (us ++ vs) (ds ++ fs)) : Grounded us ds ∧ Grounded vs fs :=
  ⟨⟨(forall_mem_append.mp h.uses).1, (forall_mem_append.mp h.sites).1⟩,
    ⟨(forall_mem_append.mp h.uses).2, (forall_mem_append.mp h.sites).2⟩⟩

theorem apart (h : Grounded (us ++ vs) ds) : (∀ x ∈ us, x.Grounded) ∧ Grounded vs ds :=
  ⟨(forall_mem_append.mp h.uses).1, (forall_mem_append.mp h.uses).2, h.sites⟩

theorem site (h : Grounded us (d :: ds)) : d.id.isSome = true ∧ Grounded us ds :=
  ⟨(forall_mem_cons.mp h.sites).1, h.uses, (forall_mem_cons.mp h.sites).2⟩

end Grounded

open Naming (Renames renames_fresh renames_declaration)

/-! ## expressions -/

variable {m : Change}

theorem Expr.Alike.type {e e' : Expr} (h : e.Alike m e') : m.Slot e.type e'.type := by
  cases h <;> assumption

theorem Expr.Alike.isAtom {e e' : Expr} (h : e.Alike m e') : e'.isAtom = e.isAtom := by
  cases h <;> rfl

theorem Expr.Alike.evaluation {scrutinee scrutinee' : Expr} (h : scrutinee.Alike m scrutinee')
    (f : String → String) (e : Script.Expr) :
    Stmt.lower.evaluation scrutinee' (e.map f m.literal)
      = Script.mapBody f m.literal (Stmt.lower.evaluation scrutinee e) := by
  unfold Stmt.lower.evaluation
  rw [h.isAtom]
  cases scrutinee.isAtom <;> rfl

section

variable (hm : m.Exact) (hr : ∀ x, m.name x = r x)

include hm

theorem Change.Slot.eq_some_iff (ht : ∀ u : Ty, u.change m (fun i => i) = t ↔ u = t) (h : m.Slot slot slot') :
    slot' = some t ↔ slot = some t := by
  rw [h hm, Option.map_eq_some_iff]
  constructor
  · rintro ⟨u, hu, hut⟩
    rw [hu, (ht u).mp hut]
  · exact fun he => ⟨t, he, (ht t).mpr rfl⟩

include hr

theorem Symbol.Alike.renames_symbol {x x' : Symbol} (h : x.Alike m x') (hx : x.Grounded) :
    Renames r 0 (Naming.symbol x) (fun _ => Naming.symbol x') fun f s => f s := by
  obtain ⟨name, resolution⟩ := x
  obtain ⟨name', resolution'⟩ := x'
  cases h.name.trans (hr name)
  cases h.resolution hm
  match resolution, hx with
  | some (.declared id), _ => exact Naming.renames_declared id name
  | some (.builtin native), h => exact .pure fun all => (Renaming.fixesPlain_remangle all native h).symm

omit hm hr in
mutual

theorem Expr.Alike.renames_lower (hm : m.Exact) (hr : ∀ x, m.name x = r x) {e e' : Expr}
    (h : e.Alike m e') (hu : ∀ x ∈ e.uses, x.Grounded) :
    Renames r 0 e.lower (fun _ => e'.lower) fun f => Script.Expr.map f m.literal := by
  match h with
  | .literal _ =>
    rw [Expr.lower, Expr.lower]
    exact .pure fun _ => rfl
  | .name hx _ =>
    rw [Expr.lower, Expr.lower]
    exact (hx.renames_symbol hm hr (hu _ mem_cons_self)).map fun _ _ => rfl
  | @Expr.Alike.binary _ op left left' _ _ _ _ hleft hright _ =>
    obtain ⟨hl, hr'⟩ := forall_mem_append.mp hu
    rw [Expr.lower, Expr.lower]
    have hcond : (op = .divide ∧ left'.type = some .int) ↔ (op = .divide ∧ left.type = some .int) :=
      and_congr_right fun _ => hleft.type.eq_some_iff hm fun u => by cases u <;> simp [Ty.change]
    refine (hleft.renames_lower hm hr hl).bind fun l => ?_
    simp only [hcond]
    by_cases hdivide : op = .divide ∧ left.type = some .int
    · simp only [if_pos hdivide]
      exact (hright.renames_lower hm hr hr').map fun _ _ => rfl
    · simp only [if_neg hdivide]
      exact (hright.renames_lower hm hr hr').map fun _ _ => rfl
  | @Expr.Alike.unary _ op operand operand' _ _ ho _ =>
    rw [Expr.lower, Expr.lower]
    have hcond : (op = .plus ∧ operand'.type = some .long) ↔ (op = .plus ∧ operand.type = some .long) :=
      and_congr_right fun _ => ho.type.eq_some_iff hm fun u => by cases u <;> simp [Ty.change]
    simp only [hcond]
    by_cases hplus : op = .plus ∧ operand.type = some .long
    · simp only [if_pos hplus]
      exact (ho.renames_lower hm hr hu).map fun _ _ => rfl
    · simp only [if_neg hplus]
      exact (ho.renames_lower hm hr hu).map fun _ _ => rfl
  | @Expr.Alike.call _ _ _ _ _ awaited constructs _ _ hcallee has _ =>
    obtain ⟨hc, ha⟩ := forall_mem_append.mp hu
    rw [Expr.lower, Expr.lower]
    refine (hcallee.renames_lower hm hr hc).bind fun g => ?_
    cases awaited <;> cases constructs <;> exact (has.renames_lower hm hr ha).map fun _ _ => rfl
  | .subscript hbase hindex _ =>
    obtain ⟨hb, hi⟩ := forall_mem_append.mp hu
    rw [Expr.lower, Expr.lower]
    exact (hbase.renames_lower hm hr hb).bind fun b => (hindex.renames_lower hm hr hi).map fun _ _ => rfl
  | .member hobject hx _ =>
    obtain ⟨ho, hs⟩ := forall_mem_append.mp hu
    rw [Expr.lower, Expr.lower]
    exact (hobject.renames_lower hm hr ho).bind fun o =>
      (hx.renames_symbol hm hr (hs _ mem_cons_self)).map fun _ _ => rfl
  | @Expr.Alike.collection _ form _ _ _ _ hes _ =>
    rw [Expr.lower, Expr.lower]
    cases form <;> exact (hes.renames_lower hm hr hu).map fun _ _ => rfl
  | .dict hes _ =>
    rw [Expr.lower, Expr.lower]
    exact (hes.renames_lower hm hr hu).map fun _ _ => rfl

theorem Expr.AllAlike.renames_lower (hm : m.Exact) (hr : ∀ x, m.name x = r x)
    (h : Expr.AllAlike m es es') (hu : ∀ x ∈ Expr.usesAll es, x.Grounded) :
    Renames r 0 (Expr.lowerAll es) (fun _ => Expr.lowerAll es') fun f => Script.Expr.mapAll f m.literal := by
  match h with
  | .nil =>
    rw [Expr.lowerAll]
    exact .pure fun _ => rfl
  | .cons he hes =>
    obtain ⟨hu, hus⟩ := forall_mem_append.mp hu
    rw [Expr.lowerAll, Expr.lowerAll]
    exact (he.renames_lower hm hr hu).bind fun e => (hes.renames_lower hm hr hus).map fun _ _ => rfl

theorem Expr.EntriesAlike.renames_lower (hm : m.Exact) (hr : ∀ x, m.name x = r x)
    (h : Expr.EntriesAlike m es es')
    (hu : ∀ x ∈ Expr.entryUses es, x.Grounded) : Renames r 0 (Expr.lowerEntries es)
      (fun _ => Expr.lowerEntries es') fun f => Script.Expr.mapEntries f m.literal := by
  match h with
  | .nil =>
    rw [Expr.lowerEntries]
    exact .pure fun _ => rfl
  | .cons hkey hvalue hes =>
    obtain ⟨hu, hus⟩ := forall_mem_append.mp hu
    obtain ⟨hk, hv⟩ := forall_mem_append.mp hu
    rw [Expr.lowerEntries, Expr.lowerEntries]
    exact (hkey.renames_lower hm hr hk).bind fun k => (hvalue.renames_lower hm hr hv).bind fun v =>
      (hes.renames_lower hm hr hus).map fun _ _ => rfl

end

/-! ## declarations -/

theorem Declarator.Alike.renames_lower {d d' : Declarator} (h : d.Alike m d') (hid : d.id.isSome = true) :
    Renames r 0 d.lower (fun _ => d'.lower) fun f s => f s := by
  unfold Declarator.lower
  rw [h.name, h.id hm, hr]
  exact renames_declaration hid d.name

theorem renames_declarators (h : List.Forall₂ (Declarator.Alike m) ds ds')
    (hid : ∀ d ∈ ds, d.id.isSome = true) :
    Renames r 0 (ds.mapM Declarator.lower) (fun _ => ds'.mapM Declarator.lower) List.map := by
  induction h with
  | nil => exact .pure fun _ => rfl
  | cons hd _ ih =>
    obtain ⟨hid, hids⟩ := forall_mem_cons.mp hid
    rw [mapM_cons, mapM_cons]
    exact (hd.renames_lower hm hr hid).bind fun s => (ih hids).map fun _ _ => rfl

theorem Parameter.Alike.renames_lower {p p' : Parameter} (h : p.Alike m p') (hid : p.id.isSome = true)
    (hu : ∀ x ∈ p.uses, x.Grounded) :
    Renames r 0 p.lower (fun _ => p'.lower) fun f => Script.Param.map f m.literal := by
  obtain ⟨name, written, default, id, type⟩ := p
  obtain ⟨name', written', default', id', type'⟩ := p'
  cases h.name.trans (hr name)
  cases h.id hm
  have hdefault := h.default
  unfold Parameter.lower
  refine (renames_declaration hid name).bind fun s => ?_
  cases hdefault with
  | none => exact .pure fun _ => rfl
  | some he => exact (he.renames_lower hm hr (forall_mem_append.mp hu).1).map fun _ _ => rfl

theorem ParametersAlike.renames_lower (h : ParametersAlike m ps ps')
    (hps : Grounded (ps.flatMap Parameter.uses) (ps.map .parameter)) :
    Renames r 0 (ps.mapM Parameter.lower) (fun _ => ps'.mapM Parameter.lower)
      fun f => List.map (Script.Param.map f m.literal) := by
  induction h with
  | nil => exact .pure fun _ => rfl
  | cons hp _ ih =>
    obtain ⟨hid, hps⟩ := hps.site
    obtain ⟨hu, hps⟩ := hps.apart
    rw [mapM_cons, mapM_cons]
    exact (hp.renames_lower hm hr hid hu).bind fun p => (ih hps).map fun _ _ => rfl

theorem Update.Alike.renames_lower {u u' : Update Expr} (h : u.Alike m u')
    (hu : ∀ x ∈ Update.uses u, x.Grounded) :
    Renames r 0 (Update.lower u) (fun _ => Update.lower u') fun f => Script.mapUpdate f m.literal := by
  cases h with
  | increment | decrement => exact .pure fun _ => rfl
  | increase he | decrease he => exact (he.renames_lower hm hr hu).map fun _ _ => rfl

theorem FunctionHead.Alike.renames_lowerName {h h' : FunctionHead} (hh : h.Alike m h')
    (hid : h.id.isSome = true) : Renames r 0 h.lowerName (fun _ => h'.lowerName) fun f s => f s := by
  unfold FunctionHead.lowerName
  rw [hh.name, hh.id hm, hr]
  exact renames_declaration hid h.name

theorem Stmt.Alike.renames_memberNames {s s' : Stmt} (h : s.Alike m s') (hs : Grounded s.uses s.sites) :
    Renames r 0 s.memberNames (fun _ => s'.memberNames) fun f names => (names.1.map f, names.2.map f) := by
  cases h with
  | declare hds _ => exact (renames_declarators hm hr hds (forall_mem_map.mp hs.sites)).map fun _ _ => rfl
  | function hh _ => exact (hh.renames_lowerName hm hr hs.site.1).map fun _ _ => rfl
  | _ => exact .pure fun _ => rfl

/-! ## statements -/

omit hm hr in
mutual

theorem Stmt.Alike.renames_lower (hm : m.Exact) (hr : ∀ x, m.name x = r x) {s s' : Stmt}
    (h : s.Alike m s') (hs : Grounded s.uses s.sites) :
    Renames r s.loops s.lower (fun _ => s'.lower) fun f => Script.mapBody f m.literal := by
  match h with
  | .expression he | .print he =>
    rw [Stmt.lower, Stmt.lower]
    exact (he.renames_lower hm hr hs.uses).map fun _ _ => rfl
  | .declare hds hes =>
    rw [Stmt.lower, Stmt.lower]
    exact (renames_declarators hm hr hds (forall_mem_map.mp hs.sites)).bind fun names =>
      (hes.renames_lower hm hr hs.uses).map fun _ _ => rfl
  | .assign htargets hvalues =>
    obtain ⟨ht, hv⟩ := forall_mem_append.mp hs.uses
    rw [Stmt.lower, Stmt.lower]
    exact (htargets.renames_lower hm hr ht).bind fun ts => (hvalues.renames_lower hm hr hv).map fun _ _ => rfl
  | .function hh hb =>
    obtain ⟨hname, hs⟩ := hs.site
    obtain ⟨hps, hbody⟩ := hs.split
    rw [Stmt.lower, Stmt.lower, hh.async]
    exact (hh.renames_lowerName hm hr hname).bind fun name =>
      (hh.parameters.renames_lower hm hr hps).bind fun ps => (hb.renames_lower hm hr hbody).map fun _ _ => rfl
  | @Stmt.Alike.classDef _ head _ _ _ hh hb =>
    obtain ⟨hname, hs⟩ := hs.site
    obtain ⟨hps, hbody⟩ := hs.split
    rw [Stmt.lower, Stmt.lower, hh.name, hh.id hm, hr]
    refine (renames_declaration hname head.name).bind fun name =>
      (hh.parameters.renames_lower hm hr hps).bind fun ps =>
        (hb.renames_lowerMembers hm hr hbody).map fun f members => ?_
    rw [Script.mapBody_append, Script.mapBody, Script.mapBody_attach]
    rfl
  | .conditional hgs =>
    obtain ⟨hbranches, _⟩ := hs.split
    rw [Stmt.lower, Stmt.lower]
    exact (hgs.renames_lower hm hr hbranches).map fun _ _ => rfl
  | .conditionalElse hgs hb =>
    obtain ⟨hbranches, hbody⟩ := hs.split
    rw [Stmt.lower, Stmt.lower]
    exact ((hgs.renames_lower hm hr hbranches).bind fun gs =>
      (hb.renames_lower hm hr hbody).map fun _ _ => rfl).of_eq (Nat.add_comm _ _)
  | .whileLoop he hb =>
    obtain ⟨hcondition, hbody⟩ := hs.apart
    rw [Stmt.lower, Stmt.lower]
    exact (he.renames_lower hm hr hcondition).bind fun c => (hb.renames_lower hm hr hbody).map fun _ _ => rfl
  | .forLoop hh hb =>
    obtain ⟨hindex, hs⟩ := hs.site
    obtain ⟨hhead, hbody⟩ := hs.apart
    obtain ⟨hfirst, hlast⟩ := forall_mem_append.mp hhead
    obtain ⟨hinit, htest⟩ := forall_mem_append.mp hfirst
    obtain ⟨htarget, hupdate⟩ := forall_mem_cons.mp hlast
    rw [Stmt.lower, Stmt.lower]
    exact (hh.index.renames_lower hm hr hindex).bind fun index =>
      (hh.init.renames_lower hm hr hinit).bind fun init =>
        (hh.test.renames_lower hm hr htest).bind fun test =>
      (hh.target.renames_symbol hm hr htarget).bind fun target =>
      (hh.update.renames_lower hm hr hupdate).bind fun update =>
        (hb.renames_lower hm hr hbody).map fun _ _ => rfl
  | .rangeLoop hstart hstop hb =>
    obtain ⟨hends, hbody⟩ := hs.apart
    obtain ⟨hfirst, hlast⟩ := forall_mem_append.mp hends
    rw [Stmt.lower, Stmt.lower]
    exact ((hstart.renames_lower hm hr hfirst).bind fun first =>
      (hstop.renames_lower hm hr hlast).bind fun last =>
      renames_fresh.bind fun index => (hb.renames_lower hm hr hbody).map fun _ _ => rfl).of_eq
        (Nat.add_comm _ _)
  | .switch he hgs =>
    obtain ⟨hs, _⟩ := hs.split
    obtain ⟨hscrutinee, hcases⟩ := hs.apart
    rw [Stmt.lower, Stmt.lower]
    refine (he.renames_lower hm hr hscrutinee).bind fun e =>
      (hgs.renames_lower hm hr hcases).map fun f gs => ?_
    rw [he.evaluation, Script.mapBody_append]
    rfl
  | .switchDefault he hgs hb =>
    obtain ⟨hs, hbody⟩ := hs.split
    obtain ⟨hscrutinee, hcases⟩ := hs.apart
    rw [Stmt.lower, Stmt.lower]
    refine ((he.renames_lower hm hr hscrutinee).bind fun e => (hgs.renames_lower hm hr hcases).bind fun gs =>
      (hb.renames_lower hm hr hbody).map fun f ss => ?_).of_eq (Nat.add_comm _ _)
    rw [he.evaluation, Script.mapBody_append]
    rfl
  | .breakLoop | .continueLoop | .returnValue .none =>
    rw [Stmt.lower]
    exact .pure fun _ => rfl
  | .returnValue (.some he) =>
    rw [Stmt.lower, Stmt.lower]
    exact (he.renames_lower hm hr (forall_mem_append.mp hs.uses).1).map fun _ _ => rfl
  | .block hb =>
    rw [Stmt.lower, Stmt.lower]
    exact (hb.renames_lower hm hr hs).map fun _ _ => rfl

theorem BodyAlike.renames_lower (hm : m.Exact) (hr : ∀ x, m.name x = r x) (h : BodyAlike m body body')
    (hbody : Grounded (bodyUses body) (bodySites body)) :
    Renames r (bodyLoops body) (lowerBody body) (fun _ => lowerBody body')
      fun f => Script.mapBody f m.literal := by
  match h with
  | .nil =>
    rw [lowerBody]
    exact .pure fun _ => rfl
  | .cons hs hss =>
    obtain ⟨hfirst, hrest⟩ := hbody.split
    rw [lowerBody, lowerBody]
    refine ((hs.renames_lower hm hr hfirst).bind fun ss =>
      (hss.renames_lower hm hr hrest).map fun f ts => ?_).of_eq
      (Nat.add_comm _ _)
    exact (Script.mapBody_append ss ts).symm
  | .swap hn .. => exact absurd hm hn

theorem BranchesAlike.renames_lower (hm : m.Exact) (hr : ∀ x, m.name x = r x) (h : BranchesAlike m gs gs')
    (hgs : Grounded (branchUses gs) (branchSites gs)) :
    Renames r (branchLoops gs) (lowerBranches gs) (fun _ => lowerBranches gs')
      fun f => Script.mapBranches f m.literal := by
  match h with
  | .nil =>
    rw [lowerBranches]
    exact .pure fun _ => rfl
  | .cons hg hb hgs' =>
    obtain ⟨hfirst, hrest⟩ := hgs.split
    obtain ⟨hguard, hbody⟩ := hfirst.apart
    rw [lowerBranches, lowerBranches]
    exact ((hg.renames_lower hm hr hguard).bind fun g => (hb.renames_lower hm hr hbody).bind fun ss =>
      (hgs'.renames_lower hm hr hrest).map fun _ _ => rfl).of_eq (Nat.add_comm _ _)

theorem BodyAlike.renames_lowerMembers (hm : m.Exact) (hr : ∀ x, m.name x = r x) (h : BodyAlike m body body')
    (hbody : Grounded (bodyUses body) (bodySites body)) :
    Renames r (bodyLoops body) (lowerMembers body) (fun _ => lowerMembers body') fun f members =>
      (Script.mapBody f m.literal members.1, members.2.1.map f, members.2.2.map f) := by
  match h with
  | .nil =>
    rw [lowerMembers]
    exact .pure fun _ => rfl
  | .cons hs hss =>
    obtain ⟨hfirst, hrest⟩ := hbody.split
    rw [lowerMembers, lowerMembers]
    refine ((hs.renames_memberNames hm hr hfirst).bind fun names =>
      (hs.renames_lower hm hr hfirst).bind fun ss =>
      (hss.renames_lowerMembers hm hr hrest).map fun f members => ?_).of_eq (Nat.add_comm _ _)
    rw [Script.mapBody_append, map_append, map_append]
  | .swap hn .. => exact absurd hm hn

end

end

/-! ## accepted programs -/

theorem grounded_of_analyse (h : analyse Scope.root p = .ok q) : Grounded (bodyUses q) (bodySites q) := by
  refine ⟨fun x hx => ?_, fun d hd => ?_⟩
  · have hnatives : ∀ s ∈ natives, '_' ∉ s.toList := by decide
    have hresolved := resolved_of_analyse h x hx
    unfold Symbol.Resolved at hresolved
    split at hresolved
    · next hid =>
      unfold Symbol.Grounded
      rw [hid]
      trivial
    · next hnative =>
      obtain ⟨b, hb, rfl, _⟩ := hresolved
      unfold Symbol.Grounded
      rw [hnative]
      exact hnatives _ (mem_natives hb)
    · exact hresolved.elim
  · obtain ⟨id, hid, _⟩ := referent_of_site h hd
    rw [hid]
    rfl

theorem script_alike (hm : m.Exact) (hr : ∀ x, m.name x = r x) (hq : analyse Scope.root p = .ok q)
    (h : BodyAlike m q q') : ∃ loops : Finset Nat,
      loops.card = bodyLoops q ∧ script q' = Script.mapBody (r.remangle loops) m.literal (script q) := by
  obtain ⟨loops, hcard, hfrom⟩ := h.renames_lower hm hr (grounded_of_analyse hq) Names.initial
  exact ⟨loops, hcard, congrArg Prod.fst (hfrom.run loops fun _ _ _ => Iff.rfl)⟩

end TypedScript
