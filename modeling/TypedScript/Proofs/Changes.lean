import Mathlib.Logic.Basic
import Mathlib.Logic.Function.Basic
import TypedScript.Proofs.TypeNames

/-!
# Changes that no check notices

The names of a program can be replaced by others, and its literals by others of the same types; a `Change`
says how.  The classes that are declared on the way may get other identities.  Types are compared by
identities before names, so it matters which classes are known, and that their identities stay in order.
-/

namespace TypedScript

open List

/-! ## the classes that are known -/

/-- the classes that are known by some point of a check; an identity has one name -/
structure Roster where
  Has : DeclId → String → Prop
  unique : ∀ {id x y}, Has id x → Has id y → x = y

namespace Roster

def empty : Roster := ⟨fun _ _ => False, fun h => h.elim⟩

/-- all identities are smaller than the next one -/
def Below (K : Roster) (next : DeclId) : Prop := ∀ id x, K.Has id x → id < next

end Roster

variable {K : Roster}

mutual

/-- the classes of a type are known -/
def Ty.Within (K : Roster) : Ty → Prop
  | .int => True
  | .long => True
  | .string => True
  | .bool => True
  | .none => True
  | .array t => t.Within K
  | .set t => t.Within K
  | .dict k v => k.Within K ∧ v.Within K
  | .tuple ts => Ty.allWithin K ts
  | .nullable t => t.Within K
  | .classOf id x => K.Has id x
  | .function ps t _ => Ty.paramsWithin K ps ∧ t.Within K

def Ty.allWithin (K : Roster) : List Ty → Prop
  | [] => True
  | t :: ts => t.Within K ∧ Ty.allWithin K ts

def Ty.paramsWithin (K : Roster) : List (Param Ty) → Prop
  | [] => True
  | ⟨t, _⟩ :: ps => t.Within K ∧ Ty.paramsWithin K ps

end

theorem Ty.allWithin_iff : Ty.allWithin K ts ↔ ∀ t ∈ ts, t.Within K := by
  induction ts with
  | nil => simp [Ty.allWithin]
  | cons t ts ih => simp [Ty.allWithin, ih]

theorem Ty.paramsWithin_iff : Ty.paramsWithin K ps ↔ ∀ p ∈ ps, p.type.Within K := by
  induction ps with
  | nil => simp [Ty.paramsWithin]
  | cons p ps ih => simp [Ty.paramsWithin, ih]

structure Signature.Within (K : Roster) (f : Signature) : Prop where
  params : ∀ p ∈ f.params, p.type.Within K
  returns : f.returns.Within K

/-! ## changes -/

/-- the names that every program finds: primitive types, type constructors and built-in functions -/
def knownNames : List String :=
  ["int", "long", "string", "bool", "none", "array", "set", "dict", "tuple", "str", "parseInt",
    "toLong", "toInt"]

/-- what becomes of names and literals -/
structure Change where
  name : String → String
  literal : Literal → Literal
  /-- the names that may occur -/
  Allows : String → Prop
  /-- identities stay, and what checks write on trees is changed in the same way -/
  Exact : Prop
  injective : Function.Injective name
  fixes : ∀ x ∈ knownNames, name x = x
  type_literal : ∀ v, (literal v).type = v.type

theorem Change.name_mem_known (m : Change) : m.name x ∈ knownNames ↔ x ∈ knownNames := by
  constructor
  · intro h
    rwa [m.injective (m.fixes _ h)] at h
  · intro h
    rwa [m.fixes x h]

/-- classes that are known on both sides, in the same order -/
structure Counterparts (m : Change) extends Roster where
  /-- the identity on the other side -/
  id : DeclId → DeclId
  increasing : ∀ {i j x y}, Has i x → Has j y → i < j → id i < id j
  id_of_exact : m.Exact → id = fun i => i

variable {m : Change} {K L : Counterparts m}

namespace Counterparts

variable {next next' next₁ next₁' : DeclId}

instance : CoeOut (Counterparts m) Roster := ⟨toRoster⟩

/-- the classes of a roster, under their own identities -/
def same (m : Change) (K : Roster) : Counterparts m := ⟨K, fun i => i, fun _ _ h => h, fun _ => rfl⟩

def empty (m : Change) : Counterparts m := same m .empty

/-- more classes are known -/
instance : LE (Counterparts m) := ⟨fun K L => ∀ i x, K.Has i x → L.Has i x ∧ L.id i = K.id i⟩

theorem le_refl (K : Counterparts m) : K ≤ K := fun _ _ h => ⟨h, rfl⟩

theorem le_trans {K L M : Counterparts m} (h : K ≤ L) (h' : L ≤ M) : K ≤ M := fun i x hx =>
  ⟨(h' i x (h i x hx).1).1, (h' i x (h i x hx).1).2.trans (h i x hx).2⟩

/-- on both sides all identities are smaller than the next one -/
structure Precedes (K : Counterparts m) (next next' : DeclId) : Prop where
  lt : ∀ {i x}, K.Has i x → i < next ∧ K.id i < next'
  exact : m.Exact → next' = next

theorem Precedes.mono (h : K.Precedes next next') (hle : next ≤ next₁)
    (hle' : next' ≤ next₁') (hexact : m.Exact → next₁' = next₁) : K.Precedes next₁ next₁' :=
  ⟨fun hi => ⟨(h.lt hi).1.trans_le hle, (h.lt hi).2.trans_le hle'⟩, hexact⟩

theorem Precedes.of_le (h : L.Precedes next next') (hKL : K ≤ L) : K.Precedes next next' :=
  ⟨fun hi => (hKL _ _ hi).2 ▸ h.lt (hKL _ _ hi).1, h.exact⟩

theorem Precedes.cross (hn : ¬m.Exact) (h : K.Precedes next next₁')
    (h' : K.Precedes next₁ next') : K.Precedes next next' :=
  ⟨fun hi => ⟨(h.lt hi).1, (h'.lt hi).2⟩, fun hm => absurd hm hn⟩

theorem Precedes.succ (h : K.Precedes next next') : K.Precedes (next + 1) (next' + 1) :=
  h.mono (Nat.le_succ _) (Nat.le_succ _) fun hm => congrArg Nat.succ (h.exact hm)

/-- a class with the next identity -/
def add (K : Counterparts m) {next next' : DeclId} (name : String) (h : K.Precedes next next') :
    Counterparts m where
  Has i x := K.Has i x ∨ (i = next ∧ x = name)
  unique := by
    rintro i x y (hx | ⟨hi, rfl⟩) (hy | ⟨hi', rfl⟩)
    · exact K.unique hx hy
    · exact absurd hi' (h.lt hx).1.ne
    · exact absurd hi (h.lt hy).1.ne
    · rfl
  id i := if i = next then next' else K.id i
  increasing := by
    rintro i j x y (hi | ⟨rfl, -⟩) (hj | ⟨rfl, -⟩) hij
    · rw [if_neg (h.lt hi).1.ne, if_neg (h.lt hj).1.ne]
      exact K.increasing hi hj hij
    · rw [if_neg (h.lt hi).1.ne, if_pos rfl]
      exact (h.lt hi).2
    · exact absurd hij (h.lt hj).1.asymm
    · exact absurd hij (Nat.lt_irrefl _)
  id_of_exact hm := by
    funext i
    rw [h.exact hm, K.id_of_exact hm]
    split
    · next hi => exact hi.symm
    · rfl

variable {next next' : DeclId} {name : String}

theorem le_add (h : K.Precedes next next') : K ≤ K.add name h :=
  fun _ _ hi => ⟨.inl hi, if_neg (h.lt hi).1.ne⟩

theorem add_id (h : K.Precedes next next') : (K.add name h).id next = next' := if_pos rfl

theorem Precedes.add (h : K.Precedes next next') : (K.add name h).Precedes (next + 1) (next' + 1) where
  lt := by
    rintro i x (hi | ⟨rfl, -⟩)
    · rw [(le_add h i x hi).2]
      exact ⟨Nat.lt_succ_of_lt (h.lt hi).1, Nat.lt_succ_of_lt (h.lt hi).2⟩
    · rw [add_id]
      exact ⟨Nat.lt_succ_self _, Nat.lt_succ_self _⟩
  exact hm := congrArg Nat.succ (h.exact hm)

theorem compare_id (hi : K.Has i x) (hj : K.Has j y) : compare (K.id i) (K.id j) = compare i j := by
  rcases Nat.lt_trichotomy i j with h | rfl | h
  · rw [Nat.compare_eq_lt.mpr h, Nat.compare_eq_lt.mpr (K.increasing hi hj h)]
  · rw [Nat.compare_eq_eq.mpr rfl, Nat.compare_eq_eq.mpr rfl]
  · rw [Nat.compare_eq_gt.mpr h, Nat.compare_eq_gt.mpr (K.increasing hj hi h)]

end Counterparts

mutual

def Ty.change (m : Change) (ρ : DeclId → DeclId) : Ty → Ty
  | .int => .int
  | .long => .long
  | .string => .string
  | .bool => .bool
  | .none => .none
  | .array t => .array (t.change m ρ)
  | .set t => .set (t.change m ρ)
  | .dict k v => .dict (k.change m ρ) (v.change m ρ)
  | .tuple ts => .tuple (Ty.changeAll m ρ ts)
  | .nullable t => .nullable (t.change m ρ)
  | .classOf id x => .classOf (ρ id) (m.name x)
  | .function ps t a => .function (Ty.changeParams m ρ ps) (t.change m ρ) a

def Ty.changeAll (m : Change) (ρ : DeclId → DeclId) : List Ty → List Ty
  | [] => []
  | t :: ts => t.change m ρ :: Ty.changeAll m ρ ts

def Ty.changeParams (m : Change) (ρ : DeclId → DeclId) : List (Param Ty) → List (Param Ty)
  | [] => []
  | ⟨t, optional⟩ :: ps => ⟨t.change m ρ, optional⟩ :: Ty.changeParams m ρ ps

end

def Param.change (m : Change) (ρ : DeclId → DeclId) (p : Param Ty) : Param Ty :=
  ⟨p.type.change m ρ, p.optional⟩

def Signature.change (m : Change) (ρ : DeclId → DeclId) (f : Signature) : Signature :=
  ⟨f.params.map (Param.change m ρ), f.returns.change m ρ, f.async⟩

variable {ρ : DeclId → DeclId}

theorem Ty.changeAll_eq_map (ts : List Ty) : Ty.changeAll m ρ ts = ts.map (Ty.change m ρ) := by
  induction ts with
  | nil => rfl
  | cons t ts ih => rw [Ty.changeAll, ih, map_cons]

theorem Ty.changeParams_eq_map (ps : List (Param Ty)) :
    Ty.changeParams m ρ ps = ps.map (Param.change m ρ) := by
  induction ps with
  | nil => rfl
  | cons p ps ih => rw [Ty.changeParams, ih, map_cons]; rfl

mutual

theorem Ty.Within.agree (h : K ≤ L) {t : Ty} (ht : t.Within K) :
    t.change m L.id = t.change m K.id ∧ t.Within L := by
  match t, ht with
  | .int, _ | .long, _ | .string, _ | .bool, _ | .none, _ => exact ⟨rfl, trivial⟩
  | .array t, ht => exact (Ty.Within.agree h (t := t) ht).imp_left (congrArg Ty.array)
  | .set t, ht => exact (Ty.Within.agree h (t := t) ht).imp_left (congrArg Ty.set)
  | .dict k v, ht =>
    obtain ⟨hk, hkL⟩ := Ty.Within.agree h ht.1
    obtain ⟨hv, hvL⟩ := Ty.Within.agree h ht.2
    exact ⟨congrArg₂ Ty.dict hk hv, hkL, hvL⟩
  | .tuple ts, ht =>
    have hts : Ty.allWithin K ts := ht
    exact (Ty.allWithin_agree h hts).imp_left (congrArg Ty.tuple)
  | .nullable t, ht => exact (Ty.Within.agree h (t := t) ht).imp_left (congrArg Ty.nullable)
  | .classOf id x, ht =>
    exact ⟨congrArg₂ Ty.classOf (h id x ht).2 rfl, (h id x ht).1⟩
  | .function ps t a, ht =>
    obtain ⟨hps, hpsL⟩ := Ty.paramsWithin_agree h ht.1
    obtain ⟨ht, htL⟩ := Ty.Within.agree h ht.2
    exact ⟨by rw [Ty.change, Ty.change, hps, ht], hpsL, htL⟩

theorem Ty.allWithin_agree (h : K ≤ L) (ht : Ty.allWithin K ts) :
    Ty.changeAll m L.id ts = Ty.changeAll m K.id ts ∧ Ty.allWithin L ts := by
  match ts, ht with
  | [], _ => exact ⟨rfl, trivial⟩
  | _ :: _, ht =>
    obtain ⟨hhead, hheadL⟩ := Ty.Within.agree h ht.1
    obtain ⟨htail, htailL⟩ := Ty.allWithin_agree h ht.2
    exact ⟨congrArg₂ List.cons hhead htail, hheadL, htailL⟩

theorem Ty.paramsWithin_agree (h : K ≤ L) (hp : Ty.paramsWithin K ps) :
    Ty.changeParams m L.id ps = Ty.changeParams m K.id ps ∧ Ty.paramsWithin L ps := by
  match ps, hp with
  | [], _ => exact ⟨rfl, trivial⟩
  | _ :: _, hp =>
    obtain ⟨hhead, hheadL⟩ := Ty.Within.agree h hp.1
    obtain ⟨htail, htailL⟩ := Ty.paramsWithin_agree h hp.2
    exact ⟨by rw [Ty.changeParams, Ty.changeParams, hhead, htail], hheadL, htailL⟩

end

mutual

theorem Ty.change_eq_self (hname : ∀ x, m.name x = x) (hid : ∀ i, ρ i = i) (t : Ty) : t.change m ρ = t := by
  match t with
  | .int | .long | .string | .bool | .none => rfl
  | .array t => exact congrArg Ty.array (Ty.change_eq_self hname hid t)
  | .set t => exact congrArg Ty.set (Ty.change_eq_self hname hid t)
  | .dict k v => exact congrArg₂ Ty.dict (Ty.change_eq_self hname hid k) (Ty.change_eq_self hname hid v)
  | .tuple ts => exact congrArg Ty.tuple (Ty.changeAll_eq_self hname hid ts)
  | .nullable t => exact congrArg Ty.nullable (Ty.change_eq_self hname hid t)
  | .classOf id x => exact congrArg₂ Ty.classOf (hid id) (hname x)
  | .function ps t a =>
    rw [Ty.change, Ty.changeParams_eq_self hname hid ps, Ty.change_eq_self hname hid t]

theorem Ty.changeAll_eq_self (hname : ∀ x, m.name x = x) (hid : ∀ i, ρ i = i) (ts : List Ty) :
    Ty.changeAll m ρ ts = ts := by
  match ts with
  | [] => rfl
  | t :: ts =>
    exact congrArg₂ List.cons (Ty.change_eq_self hname hid t) (Ty.changeAll_eq_self hname hid ts)

theorem Ty.changeParams_eq_self (hname : ∀ x, m.name x = x) (hid : ∀ i, ρ i = i)
    (ps : List (Param Ty)) : Ty.changeParams m ρ ps = ps := by
  match ps with
  | [] => rfl
  | ⟨t, optional⟩ :: ps =>
    rw [Ty.changeParams, Ty.change_eq_self hname hid t, Ty.changeParams_eq_self hname hid ps]

end

theorem Signature.change_eq_self (hname : ∀ x, m.name x = x) (hid : ∀ i, ρ i = i) (f : Signature) :
    f.change m ρ = f := by
  have hparams : f.params.map (Param.change m ρ) = f.params := by
    rw [← Ty.changeParams_eq_map, Ty.changeParams_eq_self hname hid]
  rw [Signature.change, hparams, Ty.change_eq_self hname hid]

/-! ## the order of types -/

variable {t : Ty} {ts : List Ty}

mutual

/-- names are compared only where the identities are equal, and then the names are equal too -/
theorem Ty.order_change {t u : Ty} (ht : t.Within K) (hu : u.Within K) :
    Ty.order (t.change m K.id) (u.change m K.id) = Ty.order t u := by
  match t, ht with
  | .int, _ | .long, _ | .string, _ | .bool, _ | .none, _ => cases u <;> rfl
  | .array t, ht =>
    cases u with
    | array u => exact Ty.order_change (t := t) ht hu
    | _ => rfl
  | .set t, ht =>
    cases u with
    | set u => exact Ty.order_change (t := t) ht hu
    | _ => rfl
  | .dict k v, ht =>
    cases u with
    | dict k' v' =>
      rw [Ty.change, Ty.change, Ty.order, Ty.order, Ty.order_change ht.1 hu.1, Ty.order_change ht.2 hu.2]
    | _ => rfl
  | .tuple ts, ht =>
    cases u with
    | tuple us =>
      have hts : Ty.allWithin K ts := ht
      exact Ty.orderList_change hts hu
    | _ => rfl
  | .nullable t, ht =>
    cases u with
    | nullable u => exact Ty.order_change (t := t) ht hu
    | _ => rfl
  | .classOf i x, ht =>
    cases u with
    | classOf j y =>
      rw [Ty.change, Ty.change, Ty.order, Ty.order, K.compare_id ht hu]
      cases hcompare : compare i j with
      | lt | gt => rfl
      | eq =>
        cases Nat.compare_eq_eq.mp hcompare
        cases K.unique ht hu
        have hself : ∀ z : String, compare z z = .eq := fun _ => Std.ReflCmp.compare_self
        rw [hself, hself]
    | _ => rfl
  | .function ps t a, ht =>
    cases u with
    | function qs u b =>
      rw [Ty.change, Ty.change, Ty.order, Ty.order, Ty.orderParams_change ht.1 hu.1,
        Ty.order_change ht.2 hu.2]
    | _ => rfl

theorem Ty.orderList_change {ts us : List Ty} (ht : Ty.allWithin K ts) (hu : Ty.allWithin K us) :
    Ty.orderList (Ty.changeAll m K.id ts) (Ty.changeAll m K.id us) = Ty.orderList ts us := by
  match ts, ht with
  | [], _ => cases us <;> rfl
  | t :: ts, ht =>
    cases us with
    | nil => rfl
    | cons u us =>
      rw [Ty.changeAll, Ty.changeAll, Ty.orderList, Ty.orderList, Ty.order_change ht.1 hu.1,
        Ty.orderList_change ht.2 hu.2]

theorem Ty.orderParams_change (hp : Ty.paramsWithin K ps) (hq : Ty.paramsWithin K qs) :
    Ty.orderParams (Ty.changeParams m K.id ps) (Ty.changeParams m K.id qs) = Ty.orderParams ps qs := by
  match ps, hp with
  | [], _ => cases qs <;> rfl
  | p :: ps, hp =>
    cases qs with
    | nil => rfl
    | cons q qs =>
      rw [Ty.changeParams, Ty.changeParams, Ty.orderParams, Ty.orderParams, Ty.order_change hp.1 hq.1,
        Ty.orderParams_change hp.2 hq.2]

end

theorem Ty.change_eq_iff {u : Ty} (ht : t.Within K) (hu : u.Within K) :
    t.change m K.id = u.change m K.id ↔ t = u := by
  rw [← Ty.order_eq_iff, ← Ty.order_eq_iff, Ty.order_change ht hu]

theorem Ty.insertSorted_change (ht : t.Within K) (hu : ∀ u ∈ us, u.Within K) :
    Ty.insertSorted (t.change m K.id) (us.map (Ty.change m K.id))
      = (t.insertSorted us).map (Ty.change m K.id) := by
  induction us with
  | nil => rfl
  | cons u us ih =>
    obtain ⟨hhead, htail⟩ := forall_mem_cons.mp hu
    rw [map_cons, Ty.insertSorted, Ty.insertSorted, Ty.order_change ht hhead]
    cases Ty.order t u with
    | lt | eq => rfl
    | gt => rw [ih htail]; rfl

theorem Ty.sortedSet_change (h : ∀ t ∈ ts, t.Within K) :
    Ty.sortedSet (ts.map (Ty.change m K.id)) = (Ty.sortedSet ts).map (Ty.change m K.id) := by
  -- the members collected so far are known as well
  have hfold : ∀ us : List Ty, (∀ u ∈ us, u.Within K) →
      (ts.map (Ty.change m K.id)).foldl (fun us t => Ty.insertSorted t us) (us.map (Ty.change m K.id))
        = (ts.foldl (fun us t => Ty.insertSorted t us) us).map (Ty.change m K.id) := by
    induction ts with
    | nil => exact fun us _ => rfl
    | cons t ts ih =>
      intro us hus
      obtain ⟨ht, hts⟩ := forall_mem_cons.mp h
      rw [map_cons, foldl_cons, foldl_cons, Ty.insertSorted_change ht hus]
      refine ih hts _ fun u hu => ?_
      rcases Ty.mem_insertSorted.mp hu with rfl | hu
      · exact ht
      · exact hus u hu
  exact hfold [] nofun

theorem Ty.tupleOf_change (h : ∀ t ∈ ts, t.Within K) :
    Ty.tupleOf (ts.map (Ty.change m K.id)) = (Ty.tupleOf ts).change m K.id := by
  unfold Ty.tupleOf
  rw [Ty.sortedSet_change h]
  cases Ty.sortedSet ts with
  | nil => rfl
  | cons u us => rw [map_cons, Ty.change, Ty.changeAll, Ty.changeAll_eq_map]

theorem Ty.within_tupleOf (h : ∀ t ∈ ts, t.Within K) : (Ty.tupleOf ts).Within K := by
  have hsorted : ∀ t ∈ Ty.sortedSet ts, t.Within K := fun t ht => h t (Ty.mem_sortedSet.mp ht)
  unfold Ty.tupleOf
  cases hlist : Ty.sortedSet ts with
  | nil => trivial
  | cons u us =>
    rw [hlist] at hsorted
    exact Ty.allWithin_iff.mpr hsorted

/-! ## types that correspond -/

variable {t' : Ty} {ts' : List Ty} {f f' : Signature}

/-- a type, and the type that it becomes -/
structure Ty.Changed (K : Counterparts m) (t t' : Ty) : Prop where
  eq : t' = t.change m K.id
  within : t.Within K

structure Ty.ChangedAll (K : Counterparts m) (ts ts' : List Ty) : Prop where
  eq : ts' = ts.map (Ty.change m K.id)
  within : ∀ t ∈ ts, t.Within K

structure Signature.Changed (K : Counterparts m) (f f' : Signature) : Prop where
  eq : f' = f.change m K.id
  within : f.Within K

theorem Ty.Within.changed (h : t.Within K) : t.Changed K (t.change m K.id) := ⟨rfl, h⟩

theorem Ty.Changed.agree (h : K ≤ L) (ht : t.Changed K t') : t.Changed L t' :=
  ⟨ht.eq.trans (ht.within.agree h).1.symm, (ht.within.agree h).2⟩

theorem Ty.changedAll_nil : Ty.ChangedAll K [] [] := ⟨rfl, nofun⟩

theorem Ty.Changed.cons {t t' : Ty} (ht : t.Changed K t')
    (hts : Ty.ChangedAll K ts ts') : Ty.ChangedAll K (t :: ts) (t' :: ts') :=
  ⟨congrArg₂ List.cons ht.eq hts.eq, forall_mem_cons.mpr ⟨ht.within, hts.within⟩⟩

theorem Ty.ChangedAll.append (h : Ty.ChangedAll K ts ts')
    (ht : t.Changed K t') : Ty.ChangedAll K (ts ++ [t]) (ts' ++ [t']) := by
  refine ⟨?_, forall_mem_append.mpr ⟨h.within, forall_mem_singleton.mpr ht.within⟩⟩
  rw [h.eq, ht.eq, map_append]
  rfl

theorem Ty.ChangedAll.agree (h : K ≤ L) (hts : Ty.ChangedAll K ts ts') :
    Ty.ChangedAll L ts ts' where
  eq := hts.eq.trans (map_congr_left fun t ht => ((hts.within t ht).agree h).1.symm)
  within t ht := ((hts.within t ht).agree h).2

theorem Ty.ChangedAll.tail (hts : Ty.ChangedAll K ts ts') :
    Ty.ChangedAll K ts.tail ts'.tail where
  eq := by rw [hts.eq, map_tail]
  within t ht := hts.within t (mem_of_mem_tail ht)

theorem Signature.Changed.agree (h : K ≤ L) (hf : f.Changed K f') : f.Changed L f' := by
  have hparams : f.params.map (Param.change m L.id) = f.params.map (Param.change m K.id) :=
    map_congr_left fun p hp => congrArg (Param.mk · p.optional) ((hf.within.params p hp).agree h).1
  refine ⟨?_, fun p hp => ((hf.within.params p hp).agree h).2, (hf.within.returns.agree h).2⟩
  rw [hf.eq, Signature.change, Signature.change, hparams, (hf.within.returns.agree h).1]

theorem Signature.Changed.type (h : f.Changed K f') : f.type.Changed K f'.type := by
  refine ⟨?_, Ty.paramsWithin_iff.mpr h.within.params, h.within.returns⟩
  rw [h.eq, Signature.type, Signature.type, Ty.change, Ty.changeParams_eq_map]
  rfl

theorem Signature.Changed.required (h : f.Changed K f') : f'.required = f.required := by
  rw [h.eq]
  unfold Signature.required Signature.change
  rw [countP_map]
  rfl

theorem Ty.Changed.signature (h : t.Changed K t') :
    Option.Rel (Signature.Changed K) t.signature? t'.signature? := by
  rw [h.eq]
  cases t with
  | function ps t a =>
    refine .some ⟨?_, Ty.paramsWithin_iff.mp h.within.1, h.within.2⟩
    rw [Ty.changeParams_eq_map]
    rfl
  | _ => exact .none

/-! ## scopes that correspond -/

variable {β : Type}

theorem rel_mono {α β : Type} {R R' : α → β → Prop} {o : Option α} {o' : Option β}
    (h : Option.Rel R o o') (hR : ∀ a b, R a b → R' a b) : Option.Rel R' o o' := by
  cases h with
  | some h => exact .some (hR _ _ h)
  | none => exact .none

structure Binding.Changed (K : Counterparts m) (b b' : Binding) : Prop where
  type : b.type.Changed K b'.type
  kind : b'.kind = b.kind
  resolution : m.Exact → b'.resolution = b.resolution

structure ClassBinding.Changed (K : Counterparts m) (b b' : ClassBinding) : Prop where
  type : b.type.Changed K b'.type
  constructor : Option.Rel (Signature.Changed K) b.constructor b'.constructor
  resolution : m.Exact → b'.resolution = b.resolution

theorem Binding.Changed.agree (h : K ≤ L) {b b' : Binding} (hb : b.Changed K b') :
    b.Changed L b' := ⟨hb.type.agree h, hb.kind, hb.resolution⟩

theorem ClassBinding.Changed.agree (h : K ≤ L) {b b' : ClassBinding} (hb : b.Changed K b') : b.Changed L b' :=
  ⟨hb.type.agree h, rel_mono hb.constructor fun _ _ hf => hf.agree h, hb.resolution⟩

/-- `s'` knows under new names what `s` knows, as far as the names may occur -/
structure Scope.Changed (K : Counterparts m) (s s' : Scope) : Prop where
  vars : ∀ x, m.Allows x → Option.Rel (Binding.Changed K) (s.findVariable? x) (s'.findVariable? (m.name x))
  classes : ∀ x, Option.Rel (ClassBinding.Changed K) (s.findClass? x) (s'.findClass? (m.name x))
  ownVars : ∀ x, m.Allows x → (s'.frame.vars.find? (m.name x)).isSome = (s.frame.vars.find? x).isSome
  ownClasses : ∀ x, (s'.frame.classes.find? (m.name x)).isSome = (s.frame.classes.find? x).isSome
  function : Option.Rel (Signature.Changed K) s.frame.function s'.frame.function
  insideLoop : s'.frame.insideLoop = s.frame.insideLoop

theorem isSome_written {o o' : Option β} (h : o'.isSome = o.isSome) (b b' : β) :
    (if m.name x = m.name y then some b' else o').isSome = (if x = y then some b else o).isSome := by
  by_cases hxy : x = y
  · rw [if_pos hxy, if_pos (congrArg m.name hxy)]
    rfl
  · rw [if_neg hxy, if_neg fun heq => hxy (m.injective heq)]
    exact h

namespace Scope.Changed

variable {s s' : Scope}
variable {b b' : Binding}

theorem agree (h : K ≤ L) (hs : s.Changed K s') : s.Changed L s' where
  vars x hx := rel_mono (hs.vars x hx) fun _ _ hb => hb.agree h
  classes x := rel_mono (hs.classes x) fun _ _ hb => hb.agree h
  ownVars := hs.ownVars
  ownClasses := hs.ownClasses
  function := rel_mono hs.function fun _ _ hf => hf.agree h
  insideLoop := hs.insideLoop

theorem enter (h : s.Changed K s') {f f' : Option Signature} (hf : Option.Rel (Signature.Changed K) f f')
    (insideLoop : Bool) : (s.enter f insideLoop).Changed K (s'.enter f' insideLoop) where
  vars x hx := h.vars x hx
  classes x := h.classes x
  ownVars _ _ := rfl
  ownClasses _ := rfl
  function := hf
  insideLoop := rfl

theorem enterFunction (h : s.Changed K s') (hf : f.Changed K f') :
    (s.enterFunction f).Changed K (s'.enterFunction f') := h.enter (.some hf) false

theorem enterLoop (h : s.Changed K s') : s.enterLoop.Changed K s'.enterLoop := h.enter h.function true

theorem enterBlock (h : s.Changed K s') : s.enterBlock.Changed K s'.enterBlock := by
  unfold Scope.enterBlock
  rw [h.insideLoop]
  exact h.enter h.function s.frame.insideLoop

theorem defineVariable (h : s.Changed K s') (y : String) (hb : b.Changed K b') :
    (s.defineVariable y b).Changed K (s'.defineVariable (m.name y) b') where
  vars x hx := by
    rw [Scope.findVariable?_defineVariable, Scope.findVariable?_defineVariable]
    by_cases hxy : x = y
    · rw [if_pos hxy, if_pos (congrArg m.name hxy)]
      exact .some hb
    · rw [if_neg hxy, if_neg fun heq => hxy (m.injective heq)]
      exact h.vars x hx
  classes := h.classes
  ownVars x hx := by
    show ((s'.frame.vars.put (m.name y) b').find? _).isSome = ((s.frame.vars.put y b).find? x).isSome
    rw [Variables.find?_put, Variables.find?_put]
    exact isSome_written (h.ownVars x hx) b b'
  ownClasses := h.ownClasses
  function := h.function
  insideLoop := h.insideLoop

theorem defineBoth (h : s.Changed K s') (hne : y ≠ x) {d d' : Binding} (hb : b.Changed K b')
    (hd : d.Changed K d') : ((s.defineVariable x b).defineVariable y d).Changed K
      ((s'.defineVariable (m.name y) d').defineVariable (m.name x) b') where
  vars z hz := by
    have hboth := ((h.defineVariable x hb).defineVariable y hd).vars z hz
    have hapart : m.name z = m.name y → m.name z ≠ m.name x := fun hzy hzx =>
      hne (m.injective (hzy.symm.trans hzx))
    rw [Scope.findVariable?_defineVariable _ (m.name y),
      Scope.findVariable?_defineVariable _ (m.name x)] at hboth
    rw [Scope.findVariable?_defineVariable _ (m.name x), Scope.findVariable?_defineVariable _ (m.name y)]
    rwa [ite_ite_comm _ _ _ _ hapart] at hboth
  classes := h.classes
  ownVars z hz := by
    have hboth := ((h.defineVariable x hb).defineVariable y hd).ownVars z hz
    have hapart : m.name z = m.name y → m.name z ≠ m.name x := fun hzy hzx =>
      hne (m.injective (hzy.symm.trans hzx))
    refine Eq.trans (congrArg Option.isSome ?_) hboth
    show ((s'.frame.vars.put (m.name y) d').put (m.name x) b').find? (m.name z)
      = ((s'.frame.vars.put (m.name x) b').put (m.name y) d').find? (m.name z)
    simp only [Variables.find?_put]
    exact (ite_ite_comm _ _ _ _ hapart).symm
  ownClasses := h.ownClasses
  function := h.function
  insideLoop := h.insideLoop

theorem defineClass (h : s.Changed K s') (y : String) {b b' : ClassBinding} (hb : b.Changed K b') :
    (s.defineClass y b).Changed K (s'.defineClass (m.name y) b') where
  vars := h.vars
  classes x := by
    rw [Scope.findClass?_defineClass, Scope.findClass?_defineClass]
    by_cases hxy : x = y
    · rw [if_pos hxy, if_pos (congrArg m.name hxy)]
      exact .some hb
    · rw [if_neg hxy, if_neg fun heq => hxy (m.injective heq)]
      exact h.classes x
  ownVars := h.ownVars
  ownClasses x := by
    show ((s'.frame.classes.put (m.name y) b').find? _).isSome = ((s.frame.classes.put y b).find? x).isSome
    rw [Table.find?_put, Table.find?_put]
    exact isSome_written (h.ownClasses x) b b'
  function := h.function
  insideLoop := h.insideLoop

end Scope.Changed

/-! ## the root -/

namespace Table

variable {β : Type} {t : Table β}
variable {b : β} {x : String}

theorem mem_put {e : String × β} (h : e ∈ t.put x b) : e.2 = b ∨ e ∈ t := by
  induction t with
  | nil =>
    cases mem_singleton.mp h
    exact .inl rfl
  | cons e' t ih =>
    obtain ⟨y, a⟩ := e'
    rw [put] at h
    split at h
    · rcases mem_cons.mp h with rfl | h
      · exact .inl rfl
      · exact .inr (mem_cons_of_mem _ h)
    · rcases mem_cons.mp h with rfl | h
      · exact .inr mem_cons_self
      · exact (ih h).imp_right (mem_cons_of_mem _)

theorem mem_of_find? (h : t.find? x = some b) : (x, b) ∈ t := by
  obtain ⟨before, after, heq, _⟩ := lookup_eq_some_iff.mp h
  rw [heq]
  exact mem_append_right _ mem_cons_self

theorem find?_known (hnames : ∀ e ∈ t, e.1 ∈ knownNames) {R : β → β → Prop} (hR : ∀ e ∈ t, R e.2 e.2)
    (x : String) : Option.Rel R (t.find? x) (t.find? (m.name x)) := by
  by_cases hx : x ∈ knownNames
  · rw [m.fixes x hx]
    cases hfind : t.find? x with
    | none => exact .none
    | some b => exact .some (hR _ (mem_of_find? hfind))
  · have hnone : ∀ y, y ∉ knownNames → t.find? y = none := fun y hy =>
      Option.eq_none_iff_forall_ne_some.mpr fun b hb => hy (hnames _ (mem_of_find? hb))
    rw [hnone x hx, hnone (m.name x) fun h => hx (m.name_mem_known.mp h)]
    exact .none

end Table

theorem Variables.mem_of_find? {v : Variables} (h : v.find? x = some b) : (x, b) ∈ v.entries :=
  Table.mem_of_find? (v.find?_eq x ▸ h)

theorem isSome_eq_of_rel {α β : Type} {R : α → β → Prop} {o : Option α} {o' : Option β}
    (h : Option.Rel R o o') : o'.isSome = o.isSome := by
  cases h <;> rfl

theorem Scope.changed_root : Scope.root.Changed (Counterparts.empty m) Scope.root := by
  have hvars : ∀ x, Option.Rel (Binding.Changed (Counterparts.empty m)) (Scope.root.frame.vars.find? x)
      (Scope.root.frame.vars.find? (m.name x)) := by
    intro x
    rw [Variables.find?_eq, Variables.find?_eq]
    refine Table.find?_known (by decide) (fun e he => ?_) x
    rw [Scope.entries_root] at he
    obtain ⟨b, hb, rfl⟩ := mem_map.mp he
    simp only [builtins, mem_cons, not_mem_nil, or_false] at hb
    rcases hb with rfl | rfl | rfl | rfl <;>
      exact ⟨⟨rfl, ⟨trivial, trivial⟩, trivial⟩, rfl, fun _ => rfl⟩
  have hclasses : ∀ x, Option.Rel (ClassBinding.Changed (Counterparts.empty m))
    (Scope.root.frame.classes.find? x)
      (Scope.root.frame.classes.find? (m.name x)) := by
    refine Table.find?_known (by decide) fun e he => ?_
    rw [Scope.root_eq] at he
    obtain ⟨b, hb, rfl⟩ := mem_map.mp he
    simp only [primitives, mem_cons, not_mem_nil, or_false] at hb
    rcases hb with rfl | rfl | rfl | rfl | rfl <;> exact ⟨⟨rfl, trivial⟩, .none, fun _ => rfl⟩
  refine ⟨fun x _ => ?_, fun x => ?_, fun x _ => isSome_eq_of_rel (hvars x),
    fun x => isSome_eq_of_rel (hclasses x), .none, rfl⟩
  · rw [Scope.findVariable?_eq, Scope.findVariable?_eq]
    show Option.Rel _ (Option.or _ none) (Option.or _ none)
    rw [Option.or_none, Option.or_none]
    exact hvars x
  · rw [Scope.findClass?_eq, Scope.findClass?_eq]
    show Option.Rel _ (Option.or _ none) (Option.or _ none)
    rw [Option.or_none, Option.or_none]
    exact hclasses x

end TypedScript
