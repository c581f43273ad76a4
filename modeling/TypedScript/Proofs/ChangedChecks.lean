import TypedScript.Proofs.Changes

/-!
# Checks of changed expressions

The checks of two expressions that correspond, in scopes that correspond, go the same way: they fail with
the same kind of fault, or their types and the annotated expressions correspond.  Messages may differ, since
they show names.

* `TypeTerm.twin_resolve`: written types;
* `Expr.Alike`: expressions that correspond.
-/

namespace TypedScript

open List

variable {m : Change} {K L : Counterparts m}

/-! ## results of two runs -/

/-- values that correspond, or faults of one kind -/
inductive Twin {β γ : Type} (S : β → γ → Prop) : Except Cause β → Except Cause γ → Prop
  | ok {b : β} {c : γ} : S b c → Twin S (.ok b) (.ok c)
  | error {e e' : Cause} : e'.name = e.name → Twin S (.error e) (.error e')

/-- nothing is asked -/
abbrev anyPair {α β : Type} (_ : α) (_ : β) : Prop := True

namespace Twin

variable {β γ β' γ' : Type} {S : β → γ → Prop} {T : β' → γ' → Prop}
variable {x' : Except Cause γ} {x : Except Cause β}

theorem bind (h : Twin S x x') {f : β → Except Cause β'}
    {f' : γ → Except Cause γ'} (hf : ∀ b c, S b c → Twin T (f b) (f' c)) : Twin T (x >>= f) (x' >>= f') := by
  cases h with
  | ok hS => exact hf _ _ hS
  | error he => exact .error he

theorem map (h : Twin S x x') {f : β → β'} {f' : γ → γ'}
    (hf : ∀ b c, S b c → T (f b) (f' c)) : Twin T (x.map f) (x'.map f') := by
  cases h with
  | ok hS => exact .ok (hf _ _ hS)
  | error he => exact .error he

theorem ite [Decidable p] [Decidable p'] (hp : p' ↔ p) {y : Except Cause β} {y' : Except Cause γ}
    (h : Twin S x x') (h' : Twin S y y') : Twin S (if p then x else y) (if p' then x' else y') := by
  by_cases hcase : p
  · rw [if_pos hcase, if_pos (hp.mpr hcase)]
    exact h
  · rw [if_neg hcase, if_neg fun hp' => hcase (hp.mp hp')]
    exact h'

theorem or (h : Twin S x x') :
    (∃ b c, x = .ok b ∧ x' = .ok c ∧ S b c) ∨ ∃ e e', x = .error e ∧ x' = .error e' ∧ e'.name = e.name := by
  cases h with
  | ok hS => exact .inl ⟨_, _, rfl, rfl, hS⟩
  | error he => exact .inr ⟨_, _, rfl, rfl, he⟩

end Twin

/-- the trees correspond by `T` and the values by `S`, or there are faults of one kind -/
inductive Checked.Twin {α α' β β' : Type} (T : α → α' → Prop) (S : β → β' → Prop) :
    Checked α β → Checked α' β' → Prop
  | ok {a : α} {a' : α'} {b : β} {b' : β'} : T a a' → S b b' → Checked.Twin T S ⟨a, .ok b⟩ ⟨a', .ok b'⟩
  | error {a : α} {a' : α'} {e e' : Cause} : e'.name = e.name →
    Checked.Twin T S ⟨a, .error e⟩ ⟨a', .error e'⟩

namespace Checked.Twin

variable {α α' β β' γ γ' δ δ' : Type} {T : α → α' → Prop} {S : β → β' → Prop} {U : γ → γ' → Prop}
  {V : δ → δ' → Prop} {x : Checked α β} {x' : Checked α' β'}

theorem of_result {a : α} {a' : α'} {r : Except Cause β} {r' : Except Cause β'} (hT : T a a')
    (h : TypedScript.Twin S r r') : Checked.Twin T S ⟨a, r⟩ ⟨a', r'⟩ := by
  cases h with
  | ok hS => exact .ok hT hS
  | error he => exact .error he

theorem andThen (h : x.Twin T S x') {wrap : α → γ} {wrap' : α' → γ'} {next : α → β → Checked γ δ}
    {next' : α' → β' → Checked γ' δ'}
    (hnext : ∀ a a' b b', T a a' → S b b' → (next a b).Twin U V (next' a' b')) :
    (x.andThen wrap next).Twin U V (x'.andThen wrap' next') := by
  cases h with
  | ok hT hS => exact hnext _ _ _ _ hT hS
  | error he => exact .error he

theorem map (h : x.Twin T S x') {f : α → γ} {f' : α' → γ'} {g : β → δ} {g' : β' → δ'}
    (hf : ∀ a a', T a a' → U (f a) (f' a')) (hg : ∀ b b', S b b' → V (g b) (g' b')) :
    (x.map f g).Twin U V (x'.map f' g') := by
  cases h with
  | ok hT hS => exact .ok (hf _ _ hT) (hg _ _ hS)
  | error he => exact .error he

end Checked.Twin

/-! ## rules of types -/

variable {t t' u u' : Ty} {ts ts' : List Ty}

theorem Ty.Changed.eq_iff (ht : t.Changed K t') (hu : u.Changed K u') : t' = u' ↔ t = u := by
  rw [ht.eq, hu.eq]
  exact Ty.change_eq_iff ht.within hu.within

theorem Ty.Changed.assignable (ht : t.Changed K t') (hu : u.Changed K u') :
    t'.assignable u' = t.assignable u := by
  have hnone : t' = .none ↔ t = .none := ht.eq_iff ⟨rfl, trivial⟩
  have heq : t' = u' ↔ t = u := ht.eq_iff hu
  unfold Ty.assignable
  simp only [heq]
  rw [hu.eq]
  cases u with
  | nullable u =>
    have hinner : t' = u.change m K.id ↔ t = u := ht.eq_iff ⟨rfl, hu.within⟩
    simp only [Ty.change, hinner, hnone]
  | _ => rfl

theorem Ty.Changed.isIntegral (ht : t.Changed K t') : t'.isIntegral = t.isIntegral := by
  rw [ht.eq]
  cases t <;> rfl

theorem BinaryOp.twin_result (op : BinaryOp) (ht : t.Changed K t') (hu : u.Changed K u') :
    Twin (Ty.Changed K) (op.result t u) (op.result t' u') := by
  have hint : t' = .int ∧ u' = .int ↔ t = .int ∧ u = .int :=
    and_congr (ht.eq_iff ⟨rfl, trivial⟩) (hu.eq_iff ⟨rfl, trivial⟩)
  have hbool : t' = .bool ∧ u' = .bool ↔ t = .bool ∧ u = .bool :=
    and_congr (ht.eq_iff ⟨rfl, trivial⟩) (hu.eq_iff ⟨rfl, trivial⟩)
  have hstring : t' = .string ∧ u' = .string ↔ t = .string ∧ u = .string :=
    and_congr (ht.eq_iff ⟨rfl, trivial⟩) (hu.eq_iff ⟨rfl, trivial⟩)
  have hordered : t' = u' ∧ (t' = .int ∨ t' = .string) ↔ t = u ∧ (t = .int ∨ t = .string) :=
    and_congr (ht.eq_iff hu) (or_congr (ht.eq_iff ⟨rfl, trivial⟩) (ht.eq_iff ⟨rfl, trivial⟩))
  unfold BinaryOp.result
  cases op with
  | add => exact .ite hint (.ok ⟨rfl, trivial⟩) (.ite hstring (.ok ⟨rfl, trivial⟩) (.error rfl))
  | power | subtract | multiply | modulo | divide => exact .ite hint (.ok ⟨rfl, trivial⟩) (.error rfl)
  | and | or => exact .ite hbool (.ok ⟨rfl, trivial⟩) (.error rfl)
  | less | lessEquals | greater | greaterEquals =>
    exact .ite hordered (.ok ⟨rfl, trivial⟩) (.error rfl)
  | equals | notEquals => exact .ite (ht.eq_iff hu) (.ok ⟨rfl, trivial⟩) (.error rfl)

theorem UnaryOp.twin_result (op : UnaryOp) (ht : t.Changed K t') :
    Twin (Ty.Changed K) (op.result t) (op.result t') := by
  rw [ht.eq]
  cases op with
  | not =>
    cases t with
    | bool => exact .ok ⟨rfl, trivial⟩
    | _ => exact .error rfl
  | negate | plus =>
    cases t with
    | int | long => exact .ok ⟨rfl, trivial⟩
    | _ => exact .error rfl

/-! ## tests -/

variable {f f' : Signature}

/-- tests of lists and types that correspond go the same way -/
abbrev TestTwin (K : Counterparts m) (test test' : List Ty → Ty → Except Cause Unit) : Prop :=
  ∀ {ts ts' t t'}, Ty.ChangedAll K ts ts' → Ty.Changed K t t' → Twin anyPair (test ts t) (test' ts' t')

theorem twin_elementTest : TestTwin K elementTest elementTest := by
  intro ts ts' t t' hts ht
  rw [hts.eq]
  have hts := hts.within
  cases ts with
  | nil => exact .ok trivial
  | cons u us =>
    have hu : t'.assignable (u.change m K.id) = t.assignable u := ht.assignable (hts u mem_cons_self).changed
    exact .ite (by rw [hu]) (.ok trivial) (.error rfl)

structure ParamsChanged (K : Counterparts m) (ps ps' : List (Param Ty)) : Prop where
  eq : ps' = ps.map (Param.change m K.id)
  within : ∀ p ∈ ps, p.type.Within K

theorem Signature.Changed.params (h : f.Changed K f') :
    ParamsChanged K f.params f'.params := ⟨congrArg Signature.params h.eq, h.within.params⟩

theorem Signature.Changed.returns (h : f.Changed K f') :
    f.returns.Changed K f'.returns := ⟨congrArg Signature.returns h.eq, h.within.returns⟩

theorem twin_argumentTest (h : ParamsChanged K params params') :
    TestTwin K (argumentTest params) (argumentTest params') := by
  intro ts ts' t t' hts ht
  unfold argumentTest
  rw [h.eq, hts.eq, length_map, List.getElem?_map]
  cases hp : params[ts.length]? with
  | none => exact .ok trivial
  | some p =>
    have hassignable : t'.assignable (p.change m K.id).type = t.assignable p.type :=
      ht.assignable (h.within p (mem_of_getElem? hp)).changed
    exact .ite (by rw [hassignable]) (.ok trivial) (.error rfl)

theorem twin_assignedTest (h : Ty.ChangedAll K targets targets') :
    TestTwin K (assignedTest targets) (assignedTest targets') := by
  intro ts ts' t t' hts ht
  unfold assignedTest
  rw [h.eq, hts.eq, length_map, List.getElem?_map]
  cases hu : targets[ts.length]? with
  | none => exact .ok trivial
  | some u =>
    have hassignable : t'.assignable (u.change m K.id) = t.assignable u :=
      ht.assignable (h.within u (mem_of_getElem? hu)).changed
    exact .ite (by rw [hassignable]) (.ok trivial) (.error rfl)

theorem Collection.twin_test (form : Collection) : TestTwin K form.test form.test := by
  cases form with
  | tuple => exact fun _ _ => .ok trivial
  | array | set => exact twin_elementTest

theorem Collection.changed_type (form : Collection) (hts : Ty.ChangedAll K ts ts') :
    (form.type ts).Changed K (form.type ts') := by
  -- without elements the element type is `none`
  have hhead : (ts.headD .none).Changed K (ts'.headD .none) := by
    rw [hts.eq]
    have hts := hts.within
    cases ts with
    | nil => exact ⟨rfl, trivial⟩
    | cons u us => exact ⟨rfl, hts u mem_cons_self⟩
  cases form with
  | array => exact ⟨congrArg Ty.array hhead.eq, hhead.within⟩
  | set => exact ⟨congrArg Ty.set hhead.eq, hhead.within⟩
  | tuple =>
    rw [hts.eq]
    exact ⟨Ty.tupleOf_change hts.within, Ty.within_tupleOf hts.within⟩

/-- the types of the first entry of a dict -/
abbrev EntryChanged (K : Counterparts m) : Option (Ty × Ty) → Option (Ty × Ty) → Prop :=
  Option.Rel fun e e' => e.1.Changed K e'.1 ∧ e.2.Changed K e'.2

theorem twin_entryTest (h : EntryChanged K first first') (ht : t.Changed K t') (hu : u.Changed K u') :
    Twin anyPair (entryTest first t u) (entryTest first' t' u') := by
  cases h with
  | none => exact .ok trivial
  | some he =>
    refine .ite (by rw [ht.assignable he.1]) (.error rfl) ?_
    exact .ite (by rw [hu.assignable he.2]) (.error rfl) (.ok trivial)

theorem Ty.Changed.subscript (ht : t.Changed K t') :
    Option.Rel (Ty.Changed K) t.subscript? t'.subscript? := by
  rw [ht.eq]
  have ht := ht.within
  cases t with
  | array t => exact .some ⟨rfl, ht⟩
  | dict k v => exact .some ⟨rfl, ht.2⟩
  | string => exact .some ⟨rfl, trivial⟩
  | tuple ts =>
    rw [Ty.change, Ty.changeAll_eq_map]
    rcases ts with _ | ⟨t, _ | ⟨t', ts⟩⟩
    · exact .none
    · exact .some ⟨rfl, ht.1⟩
    · exact .none
  | _ => exact .none

theorem twin_subscriptType (ht : t.Changed K t') (hu : u.Changed K u') :
    Twin (Ty.Changed K) (subscriptType t u) (subscriptType t' u') := by
  have helement := ht.subscript
  unfold subscriptType
  generalize t.subscript? = o at helement
  generalize t'.subscript? = o' at helement
  cases helement with
  | none => exact .error rfl
  | some h => exact .ite (hu.eq_iff (u := .int) ⟨rfl, trivial⟩) (.ok h) (.error rfl)

theorem Signature.Changed.arityTest (h : f.Changed K f') (received : Nat) :
    Twin anyPair (f.arityTest received) (f'.arityTest received) := by
  have hlength : f'.params.length = f.params.length := by
    rw [h.params.eq]
    exact length_map _
  unfold Signature.arityTest
  rw [h.required, hlength]
  exact .ite Iff.rfl (.error rfl) (.ite Iff.rfl (.error rfl) (.ok trivial))

/-- callees of one signature; their names are for messages only -/
abbrev Callee.Changed (K : Counterparts m) (f f' : Callee) : Prop :=
  f.signature.Changed K f'.signature

theorem Callee.Changed.awaitTest {f f' : Callee} (h : f.Changed K f') (awaited : Bool)
    (haround : Option.Rel (Signature.Changed K) around around') :
    Twin anyPair (f.awaitTest awaited around) (f'.awaitTest awaited around') := by
  have hany : around'.any (·.async) = around.any (·.async) := by
    cases haround with
    | none => rfl
    | some hf => rw [hf.eq]; rfl
  unfold Callee.awaitTest
  rw [h.eq, hany]
  exact .ite Iff.rfl (.error rfl) (.ite Iff.rfl (.error rfl) (.ok trivial))

/-! ## written types -/

mutual

def TypeTerm.change (m : Change) : TypeTerm → TypeTerm
  | .named x => .named (m.name x)
  | .generic x as => .generic (m.name x) (TypeTerm.changeAll m as)
  | .nullable w => .nullable (w.change m)

def TypeTerm.changeAll (m : Change) : List TypeTerm → List TypeTerm
  | [] => []
  | w :: ws => w.change m :: TypeTerm.changeAll m ws

end

mutual

theorem TypeTerm.change_eq_self (h : ∀ x, m.name x = x) (w : TypeTerm) : w.change m = w := by
  match w with
  | .named x => exact congrArg TypeTerm.named (h x)
  | .generic x as => exact congrArg₂ TypeTerm.generic (h x) (TypeTerm.changeAll_eq_self h as)
  | .nullable w => exact congrArg TypeTerm.nullable (w.change_eq_self h)

theorem TypeTerm.changeAll_eq_self (h : ∀ x, m.name x = x) (ws : List TypeTerm) :
    TypeTerm.changeAll m ws = ws := by
  match ws with
  | [] => rfl
  | w :: ws => exact congrArg₂ List.cons (w.change_eq_self h) (TypeTerm.changeAll_eq_self h ws)

end

theorem TypeTerm.length_changeAll (ws : List TypeTerm) : (TypeTerm.changeAll m ws).length = ws.length := by
  induction ws with
  | nil => rfl
  | cons w ws ih => rw [TypeTerm.changeAll, length_cons, length_cons, ih]

theorem Generic.ofName?_change (x : String) : Generic.ofName? (m.name x) = Generic.ofName? x := by
  by_cases hknown : x ∈ knownNames
  · rw [m.fixes x hknown]
  · have hnone : ∀ y : String, y ∉ knownNames → Generic.ofName? y = none := by
      intro y hy
      unfold Generic.ofName?
      split
      · exact absurd (by decide) hy
      · exact absurd (by decide) hy
      · exact absurd (by decide) hy
      · exact absurd (by decide) hy
      · rfl
    rw [hnone x hknown, hnone (m.name x) fun h => hknown (m.name_mem_known.mp h)]

theorem Generic.changed_build (g : Generic) (hts : Ty.ChangedAll K ts ts') :
    (g.build ts).Changed K (g.build ts') := by
  rw [hts.eq]
  have h := hts.within
  have htuple : (Ty.tupleOf ts).Changed K (Ty.tupleOf (ts.map (Ty.change m K.id))) :=
    ⟨Ty.tupleOf_change h, Ty.within_tupleOf h⟩
  cases g with
  | tuple => rcases ts with _ | ⟨t, _ | ⟨t', ts⟩⟩ <;> exact htuple
  | array | set =>
    cases ts with
    | nil => exact htuple
    | cons t ts => exact ⟨rfl, h t mem_cons_self⟩
  | dict =>
    rcases ts with _ | ⟨t, _ | ⟨t', ts⟩⟩
    · exact htuple
    · exact htuple
    · exact ⟨rfl, h t mem_cons_self, h t' (mem_cons_of_mem _ mem_cons_self)⟩

variable {s s' : Scope}

mutual

theorem TypeTerm.twin_resolve (hs : s.Changed K s') (w : TypeTerm) :
    Twin (Ty.Changed K) (w.resolve s) ((w.change m).resolve s') := by
  match w with
  | .named x =>
    have hclass := hs.classes x
    rw [TypeTerm.change, TypeTerm.resolve, TypeTerm.resolve, Generic.ofName?_change]
    generalize s.findClass? x = o at hclass
    generalize s'.findClass? (m.name x) = o' at hclass
    cases Generic.ofName? x with
    | some g => exact .error rfl
    | none =>
      cases hclass with
      | none => exact .error rfl
      | some hb => exact .ok hb.type
  | .generic x as =>
    have hclass := hs.classes x
    rw [TypeTerm.change, TypeTerm.resolve, TypeTerm.resolve, Generic.ofName?_change,
      TypeTerm.length_changeAll]
    generalize s.findClass? x = o at hclass
    generalize s'.findClass? (m.name x) = o' at hclass
    cases Generic.ofName? x with
    | some g =>
      refine .ite Iff.rfl ?_ (.error rfl)
      exact (TypeTerm.twin_resolveAll hs as).bind fun ts ts' hts => .ok (g.changed_build hts)
    | none => cases hclass <;> exact .error rfl
  | .nullable w =>
    rw [TypeTerm.change, TypeTerm.resolve, TypeTerm.resolve]
    exact (w.twin_resolve hs).bind fun t t' ht => .ok ⟨congrArg Ty.nullable ht.eq, ht.within⟩

theorem TypeTerm.twin_resolveAll (hs : s.Changed K s') (ws : List TypeTerm) :
    Twin (Ty.ChangedAll K) (TypeTerm.resolveAll s ws) (TypeTerm.resolveAll s' (TypeTerm.changeAll m ws)) := by
  match ws with
  | [] => exact .ok Ty.changedAll_nil
  | w :: ws =>
    rw [TypeTerm.changeAll, TypeTerm.resolveAll, TypeTerm.resolveAll]
    refine (w.twin_resolve hs).bind fun t t' ht => ?_
    exact (TypeTerm.twin_resolveAll hs ws).bind fun ts ts' hts => .ok (ht.cons hts)

end

/-! ## expressions that correspond -/

structure Symbol.Alike (m : Change) (x x' : Symbol) : Prop where
  name : x'.name = m.name x.name
  allowed : m.Allows x.name
  resolution : m.Exact → x'.resolution = x.resolution

def Change.Slot (m : Change) (slot slot' : Option Ty) : Prop :=
  m.Exact → slot' = slot.map (Ty.change m fun i => i)

theorem Ty.Changed.slot (h : t.Changed K t') : m.Slot (some t) (some t') := fun hm => by
  rw [h.eq, K.id_of_exact hm]
  rfl

theorem Symbol.Alike.resolved {x x' : Symbol} (h : x.Alike m x') (hr : m.Exact → r' = r) :
    (x.resolved r).Alike m (x'.resolved r') :=
  ⟨h.name, h.allowed, fun hm => congrArg some (hr hm)⟩

section

variable (m : Change)

mutual

inductive Expr.Alike : Expr → Expr → Prop
  | literal {v : Literal} {slot slot' : Option Ty} : m.Slot slot slot' →
    Expr.Alike (.literal v slot) (.literal (m.literal v) slot')
  | name {x x' : Symbol} {slot slot' : Option Ty} : x.Alike m x' → m.Slot slot slot' →
    Expr.Alike (.name x slot) (.name x' slot')
  | binary {op : BinaryOp} {left left' right right' : Expr} {slot slot' : Option Ty} :
    Expr.Alike left left' → Expr.Alike right right' → m.Slot slot slot' →
    Expr.Alike (.binary op left right slot) (.binary op left' right' slot')
  | unary {op : UnaryOp} {e e' : Expr} {slot slot' : Option Ty} : Expr.Alike e e' → m.Slot slot slot' →
    Expr.Alike (.unary op e slot) (.unary op e' slot')
  | call {callee callee' : Expr} {as as' : List Expr} {awaited constructs : Bool} {slot slot' : Option Ty} :
    Expr.Alike callee callee' → Expr.AllAlike as as' → m.Slot slot slot' →
    Expr.Alike (.call callee as awaited constructs slot) (.call callee' as' awaited constructs slot')
  | subscript : Expr.Alike base base' → Expr.Alike index index' → m.Slot slot slot' →
    Expr.Alike (.subscript base index slot) (.subscript base' index' slot')
  | member {object object' : Expr} {x x' : Symbol} {slot slot' : Option Ty} :
    Expr.Alike object object' → x.Alike m x' → m.Slot slot slot' →
    Expr.Alike (.member object x slot) (.member object' x' slot')
  | collection {form : Collection} {es es' : List Expr} {slot slot' : Option Ty} : Expr.AllAlike es es' →
    m.Slot slot slot' → Expr.Alike (.collection form es slot) (.collection form es' slot')
  | dict : Expr.EntriesAlike entries entries' → m.Slot slot slot' →
    Expr.Alike (.dict entries slot) (.dict entries' slot')

inductive Expr.AllAlike : List Expr → List Expr → Prop
  | nil : Expr.AllAlike [] []
  | cons : Expr.Alike e e' → Expr.AllAlike es es' → Expr.AllAlike (e :: es) (e' :: es')

inductive Expr.EntriesAlike : List (Expr × Expr) → List (Expr × Expr) → Prop
  | nil : Expr.EntriesAlike [] []
  | cons : Expr.Alike key key' → Expr.Alike value value' → Expr.EntriesAlike es es' →
    Expr.EntriesAlike ((key, value) :: es) ((key', value') :: es')

end

end

theorem Expr.AllAlike.length_eq (h : Expr.AllAlike m es es') : es'.length = es.length := by
  match h with
  | .nil => rfl
  | .cons _ h => exact congrArg Nat.succ h.length_eq

theorem Symbol.Alike.unique (hm : m.Exact) {x x₁ x₂ : Symbol} (h : x.Alike m x₁) (h' : x.Alike m x₂) :
    x₁ = x₂ := by
  obtain ⟨name₁, resolution₁⟩ := x₁
  obtain ⟨name₂, resolution₂⟩ := x₂
  exact congrArg₂ Symbol.mk (h.name.trans h'.name.symm) ((h.resolution hm).trans (h'.resolution hm).symm)

theorem Change.Slot.unique (hm : m.Exact) (h : m.Slot slot slot₁) (h' : m.Slot slot slot₂) : slot₁ = slot₂ :=
  (h hm).trans (h' hm).symm

mutual

theorem Expr.Alike.unique (hm : m.Exact) {e e₁ e₂ : Expr} (h : e.Alike m e₁) (h' : e.Alike m e₂) :
    e₁ = e₂ := by
  match h, h' with
  | .literal hs, .literal hs' => rw [hs.unique hm hs']
  | .name hx hs, .name hx' hs' => rw [hx.unique hm hx', hs.unique hm hs']
  | .binary hl hr hs, .binary hl' hr' hs' => rw [hl.unique hm hl', hr.unique hm hr', hs.unique hm hs']
  | .unary he hs, .unary he' hs' => rw [he.unique hm he', hs.unique hm hs']
  | .call hf has hs, .call hf' has' hs' => rw [hf.unique hm hf', has.unique hm has', hs.unique hm hs']
  | .subscript hb hi hs, .subscript hb' hi' hs' => rw [hb.unique hm hb', hi.unique hm hi', hs.unique hm hs']
  | .member ho hx hs, .member ho' hx' hs' => rw [ho.unique hm ho', hx.unique hm hx', hs.unique hm hs']
  | .collection hes hs, .collection hes' hs' | .dict hes hs, .dict hes' hs' =>
    rw [hes.unique hm hes', hs.unique hm hs']

theorem Expr.AllAlike.unique (hm : m.Exact) (h : Expr.AllAlike m es es₁) (h' : Expr.AllAlike m es es₂) :
    es₁ = es₂ := by
  match h, h' with
  | .nil, .nil => rfl
  | .cons he hes, .cons he' hes' => rw [he.unique hm he', hes.unique hm hes']

theorem Expr.EntriesAlike.unique (hm : m.Exact) (h : Expr.EntriesAlike m es es₁)
    (h' : Expr.EntriesAlike m es es₂) : es₁ = es₂ := by
  match h, h' with
  | .nil, .nil => rfl
  | .cons hk hv hes, .cons hk' hv' hes' => rw [hk.unique hm hk', hv.unique hm hv', hes.unique hm hes']

end

/-! ## their checks -/

variable {x x' : Symbol}

theorem twin_settle (hnode : ∀ {slot slot'}, m.Slot slot slot' → (node slot).Alike m (node' slot'))
    (h : Twin (Ty.Changed K) r r') :
    (settle node slot r).Twin (Expr.Alike m) (Ty.Changed K) (settle node' slot' r') := by
  cases h with
  | ok ht => exact .ok (hnode ht.slot) ht
  | error he => exact .error he

theorem Scope.Changed.lookupVariable (hs : s.Changed K s') (hx : x.Alike m x') :
    Twin (Binding.Changed K) (s.lookupVariable x.name) (s'.lookupVariable x'.name) := by
  have hvar := hs.vars x.name hx.allowed
  unfold Scope.lookupVariable
  rw [hx.name]
  generalize s.findVariable? x.name = o at hvar
  generalize s'.findVariable? (m.name x.name) = o' at hvar
  cases hvar with
  | none => exact .error rfl
  | some hb => exact .ok hb

theorem Scope.Changed.callee (hs : s.Changed K s') (hx : x.Alike m x')
    (slot slot' : Option Ty) (constructs : Bool) :
    (s.callee x slot constructs).Twin (fun e e' => e.1.Alike m e'.1 ∧ e.2 = e'.2) (Callee.Changed K)
      (s'.callee x' slot' constructs) := by
  have hvar := hs.vars x.name hx.allowed
  have hclass := hs.classes x.name
  unfold Scope.callee
  rw [hx.name]
  generalize s.findVariable? x.name = o at hvar
  generalize s'.findVariable? (m.name x.name) = o' at hvar
  generalize s.findClass? x.name = k at hclass
  generalize s'.findClass? (m.name x.name) = k' at hclass
  cases hvar with
  | some hb =>
    refine .of_result ⟨.name (hx.resolved hb.resolution) hb.type.slot, rfl⟩ ?_
    rename_i b b'
    have hsignature := hb.type.signature
    generalize b.type.signature? = f at hsignature
    generalize b'.type.signature? = f' at hsignature
    cases hsignature with
    | none => exact .error rfl
    | some hf => exact .ok hf
  | none =>
    cases hclass with
    | none => exact .error rfl
    | some hb =>
      rename_i b b'
      obtain ⟨resolution, type, constructor⟩ := b
      obtain ⟨resolution', type', constructor'⟩ := b'
      cases hb.constructor with
      | none => exact .error rfl
      | some hf => exact .ok ⟨.name (hx.resolved hb.resolution) hb.type.slot, rfl⟩ hf

theorem Expr.Alike.checkCallee (hs : s.Changed K s') {e e' : Expr} (h : e.Alike m e')
    (hcheck : (e.check s).Twin (Expr.Alike m) (Ty.Changed K) (e'.check s')) (constructs : Bool) :
    (Expr.checkCallee s constructs e).Twin (fun e e' => e.1.Alike m e'.1 ∧ e.2 = e'.2) (Callee.Changed K)
      (Expr.checkCallee s' constructs e') := by
  cases h with
  | name hx _ => exact hs.callee hx _ _ constructs
  | _ =>
    rw [Expr.checkCallee_of_not_name (by rintro ⟨_, _, ⟨⟩⟩),
      Expr.checkCallee_of_not_name (by rintro ⟨_, _, ⟨⟩⟩)]
    refine hcheck.andThen fun _ _ t t' he ht => .of_result ⟨he, rfl⟩ ?_
    have hsignature := ht.signature
    generalize t.signature? = f at hsignature
    generalize t'.signature? = f' at hsignature
    cases hsignature with
    | none => exact .error rfl
    | some hf => exact .ok hf

mutual

theorem Expr.Alike.check (hs : s.Changed K s') {e e' : Expr} (h : e.Alike m e') :
    (e.check s).Twin (Expr.Alike m) (Ty.Changed K) (e'.check s') := by
  match h with
  | .literal (v := v) _ =>
    have hv : v.type.Changed K (m.literal v).type := by
      rw [m.type_literal]
      cases v <;> exact ⟨rfl, trivial⟩
    exact .ok (.literal hv.slot) hv
  | .name hx _ =>
    rw [Expr.check, Expr.check]
    rcases (hs.lookupVariable hx).or with ⟨b, b', hb, hb', hchanged⟩ | ⟨_, _, he, he', hname⟩
    · rw [hb, hb']
      exact .ok (.name (hx.resolved hchanged.resolution) hchanged.type.slot) hchanged.type
    · rw [he, he']
      exact .error hname
  | .binary hleft hright _ =>
    rw [Expr.check, Expr.check]
    refine (hleft.check hs).andThen fun _ _ t t' hleft ht => ?_
    refine (hright.check hs).andThen fun _ _ u u' hright hu => ?_
    exact twin_settle (.binary hleft hright) (BinaryOp.twin_result _ ht hu)
  | .unary he _ =>
    rw [Expr.check, Expr.check]
    refine (he.check hs).andThen fun _ _ t t' he ht => ?_
    exact twin_settle (.unary he) (UnaryOp.twin_result _ ht)
  | .call hcallee has _ =>
    rw [Expr.check_call, Expr.check_call]
    refine (hcallee.checkCallee hs (hcallee.check hs) _).andThen ?_
    rintro ⟨callee, constructs⟩ ⟨callee', _⟩ f f' ⟨hcallee, rfl⟩ hf
    unfold Expr.checkApplied
    rw [has.length_eq]
    rcases (hf.arityTest _).or with ⟨_, _, hok, hok', _⟩ | ⟨_, _, he, he', hname⟩
    · rw [hok, hok']
      refine (has.checkAll hs (twin_argumentTest hf.params) Ty.changedAll_nil).andThen ?_
      intro _ _ _ _ has _
      refine twin_settle (.call hcallee has) ?_
      exact (Callee.Changed.awaitTest hf _ hs.function).map fun _ _ _ => hf.returns
    · rw [he, he']
      exact .error hname
  | .subscript hbase hindex _ =>
    rw [Expr.check, Expr.check]
    refine (hbase.check hs).andThen fun _ _ t t' hbase ht => ?_
    refine (hindex.check hs).andThen fun _ _ u u' hindex hu => ?_
    exact twin_settle (.subscript hbase hindex) (twin_subscriptType ht hu)
  | .member hobject hx _ =>
    rw [Expr.check, Expr.check]
    refine (hobject.check hs).andThen fun _ _ _ _ hobject _ => ?_
    rcases (hs.lookupVariable hx).or with ⟨b, b', hb, hb', hchanged⟩ | ⟨_, _, he, he', hname⟩
    · rw [hb, hb']
      exact .ok (.member hobject (hx.resolved hchanged.resolution) hchanged.type.slot) hchanged.type
    · rw [he, he']
      exact .error hname
  | .collection hes _ =>
    rw [Expr.check, Expr.check]
    refine (hes.checkAll hs (Collection.twin_test _) Ty.changedAll_nil).andThen fun _ _ ts ts' hes hts => ?_
    exact twin_settle (.collection hes) (.ok (Collection.changed_type _ hts))
  | .dict hentries _ =>
    rw [Expr.check, Expr.check]
    refine (hentries.checkEntries hs .none).andThen fun _ _ _ _ hentries hfirst => ?_
    refine twin_settle (.dict hentries) (.ok ?_)
    cases hfirst with
    | none => exact ⟨rfl, trivial, trivial⟩
    | some he => exact ⟨congrArg₂ Ty.dict he.1.eq he.2.eq, he.1.within, he.2.within⟩

theorem Expr.AllAlike.checkAll (hs : s.Changed K s') (htest : TestTwin K test test')
    (hseen : Ty.ChangedAll K seen seen') (h : Expr.AllAlike m es es') :
    (Expr.checkAll s test seen es).Twin (Expr.AllAlike m) (Ty.ChangedAll K)
      (Expr.checkAll s' test' seen' es') := by
  match h with
  | .nil => exact .ok .nil hseen
  | .cons he hes =>
    rw [Expr.checkAll, Expr.checkAll]
    refine (he.check hs).andThen fun _ _ t t' he ht => ?_
    rcases (htest hseen ht).or with ⟨_, _, hok, hok', _⟩ | ⟨_, _, he, he', hname⟩
    · rw [hok, hok']
      exact (hes.checkAll hs htest (hseen.append ht)).map (fun _ _ hes => .cons he hes) fun _ _ h => h
    · rw [he, he']
      exact .error hname

theorem Expr.EntriesAlike.checkEntries (hs : s.Changed K s') (hfirst : EntryChanged K first first')
    (h : Expr.EntriesAlike m es es') :
    (Expr.checkEntries s first es).Twin (Expr.EntriesAlike m) (EntryChanged K)
      (Expr.checkEntries s' first' es') := by
  match h with
  | .nil => exact .ok .nil hfirst
  | .cons hkey hvalue hes =>
    rw [Expr.checkEntries, Expr.checkEntries]
    refine (hkey.check hs).andThen fun _ _ t t' hkey ht => ?_
    refine (hvalue.check hs).andThen fun _ _ u u' hvalue hu => ?_
    rcases (twin_entryTest hfirst ht hu).or with ⟨_, _, hok, hok', _⟩ | ⟨_, _, he, he', hname⟩
    · rw [hok, hok']
      have hor : EntryChanged K (first.or (some (t, u))) (first'.or (some (t', u'))) := by
        cases hfirst with
        | none => exact .some ⟨ht, hu⟩
        | some he => exact .some he
      exact (hes.checkEntries hs hor).map (fun _ _ hes => .cons hkey hvalue hes) fun _ _ h => h
    · rw [he, he']
      exact .error hname

end

theorem Expr.AllAlike.checkEach (hs : s.Changed K s') (h : Expr.AllAlike m es es') :
    (Expr.checkEach s es).Twin (Expr.AllAlike m) (Ty.ChangedAll K) (Expr.checkEach s' es') :=
  h.checkAll hs (fun _ _ => .ok trivial) Ty.changedAll_nil

end TypedScript
