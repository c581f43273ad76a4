import TypedScript.Proofs.TypeNames

/-!
# The order of types

Types are compared by their outermost form, then component by component.  The comparison is a linear
order, and it calls two types equal only if they are one type.  So the members of a tuple have exactly one
increasing list, and the type of a tuple depends on the set of its members' types alone.
-/

namespace TypedScript.Ty

open List

/-! ## forms -/

variable {a b : Ty}

theorem order_of_rank_ne (h : a.rank ≠ b.rank) : order a b = compare a.rank b.rank := by
  fun_cases order a b <;> first | rfl | exact absurd rfl h

theorem order_lt_of_rank_lt (h : a.rank < b.rank) : order a b = .lt := by
  rw [order_of_rank_ne (Nat.ne_of_lt h)]
  exact Nat.compare_eq_lt.mpr h

theorem rank_le_of_order_lt (h : order a b = .lt) : a.rank ≤ b.rank := by
  by_contra hrank
  rw [order_of_rank_ne (by omega), Nat.compare_eq_lt] at h
  omega

/-! ## both ways -/

mutual

theorem order_swap (a b : Ty) : order b a = (order a b).swap := by
  match a with
  | array a =>
    cases b with
    | array b => exact order_swap a b
    | _ => rfl
  | set a =>
    cases b with
    | set b => exact order_swap a b
    | _ => rfl
  | dict k v =>
    cases b with
    | dict k' v' => rw [order, order, Ordering.swap_then, order_swap k k', order_swap v v']
    | _ => rfl
  | tuple as =>
    cases b with
    | tuple bs => exact orderList_swap as bs
    | _ => rfl
  | nullable a =>
    cases b with
    | nullable b => exact order_swap a b
    | _ => rfl
  | classOf i n =>
    cases b with
    | classOf j m =>
      rw [order, order, Ordering.swap_then]
      congr 1
      · exact Std.OrientedCmp.eq_swap
      · exact Std.OrientedCmp.eq_swap
    | _ => rfl
  | function ps r a =>
    cases b with
    | function qs s b =>
      rw [order, order, Ordering.swap_then, Ordering.swap_then, orderParams_swap ps qs, order_swap r s,
        @Std.OrientedCmp.eq_swap Bool compare _ b a]
    | _ => rfl
  | int | long | string | bool | none => cases b <;> rfl

theorem orderList_swap (as bs : List Ty) : orderList bs as = (orderList as bs).swap := by
  match as, bs with
  | [], [] | [], _ :: _ | _ :: _, [] => rfl
  | a :: as, b :: bs =>
    rw [orderList, orderList, Ordering.swap_then, order_swap a b, orderList_swap as bs]

theorem orderParams_swap (ps qs : List (Param Ty)) : orderParams qs ps = (orderParams ps qs).swap := by
  match ps, qs with
  | [], [] | [], _ :: _ | _ :: _, [] => rfl
  | ⟨a, d⟩ :: ps, ⟨b, e⟩ :: qs =>
    rw [orderParams, orderParams, Ordering.swap_then, Ordering.swap_then, order_swap a b,
      orderParams_swap ps qs, @Std.OrientedCmp.eq_swap Bool compare _ e d]

end

/-! ## one after another -/

variable {α : Type} {x y z : α}

/-- components are compared from left to right, and equal ones can be replaced by each other -/
theorem then_lt_trans {α : Type} {f : α → α → Ordering} (hf : ∀ x y, f x y = .eq → x = y) {x y z : α}
    (hlt : f x y = .lt → f y z = .lt → f x z = .lt) (hrest : p = .lt → q = .lt → r = .lt)
    (h : (f x y).then p = .lt) (h' : (f y z).then q = .lt) : (f x z).then r = .lt := by
  rw [Ordering.then_eq_lt] at h h' ⊢
  rcases h with hxy | ⟨hxy, hp⟩
  · rcases h' with hyz | ⟨hyz, _⟩
    · exact .inl (hlt hxy hyz)
    · rw [← hf y z hyz]
      exact .inl hxy
  · rw [hf x y hxy]
    exact h'.imp_right fun ⟨hyz, hq⟩ => ⟨hyz, hrest hp hq⟩

theorem compare_lt_trans [Ord α] [Std.TransOrd α] (h : compare x y = .lt)
    (h' : compare y z = .lt) : compare x z = .lt := Std.TransCmp.lt_trans h h'

mutual

theorem order_lt_trans {a b c : Ty} (h : order a b = .lt) (h' : order b c = .lt) : order a c = .lt := by
  -- unless all three have one form, their ranks decide
  by_cases hrank : a.rank < c.rank
  · exact order_lt_of_rank_lt hrank
  have hle := rank_le_of_order_lt h
  have hle' := rank_le_of_order_lt h'
  have hab : b.rank = a.rank := by omega
  have hac : c.rank = a.rank := by omega
  match a with
  | array a =>
    cases b with
    | array b =>
      cases c with
      | array c => exact order_lt_trans (a := a) h h'
      | _ => cases hac
    | _ => cases hab
  | set a =>
    cases b with
    | set b =>
      cases c with
      | set c => exact order_lt_trans (a := a) h h'
      | _ => cases hac
    | _ => cases hab
  | dict k v =>
    cases b with
    | dict k₁ v₁ =>
      cases c with
      | dict k₂ v₂ =>
        exact then_lt_trans (fun x y => (order_eq_iff x y).mp) order_lt_trans order_lt_trans h h'
      | _ => cases hac
    | _ => cases hab
  | tuple as =>
    cases b with
    | tuple bs =>
      cases c with
      | tuple cs => exact orderList_lt_trans (show orderList as bs = .lt from h) h'
      | _ => cases hac
    | _ => cases hab
  | nullable a =>
    cases b with
    | nullable b =>
      cases c with
      | nullable c => exact order_lt_trans (a := a) h h'
      | _ => cases hac
    | _ => cases hab
  | classOf i n =>
    cases b with
    | classOf j m =>
      cases c with
      | classOf k l =>
        exact then_lt_trans (fun x y => Std.LawfulEqCmp.eq_of_compare) compare_lt_trans
          compare_lt_trans h h'
      | _ => cases hac
    | _ => cases hab
  | function ps r a =>
    cases b with
    | function qs s b =>
      cases c with
      | function rs t c =>
        refine then_lt_trans (fun x y => (orderParams_eq_iff x y).mp) orderParams_lt_trans ?_ h h'
        exact then_lt_trans (fun x y => (order_eq_iff x y).mp) order_lt_trans compare_lt_trans
      | _ => cases hac
    | _ => cases hab
  | int | long | string | bool | none => cases b <;> simp [order, rank] at h hab
termination_by structural a

theorem orderList_lt_trans {as bs cs : List Ty} (h : orderList as bs = .lt) (h' : orderList bs cs = .lt) :
    orderList as cs = .lt := by
  match as, bs, cs with
  | [], _, _ :: _ => rfl
  | _, [], [] | _, _ :: _, [] => cases h'
  | _ :: _, [], _ => cases h
  | a :: as, b :: bs, c :: cs =>
    exact then_lt_trans (fun x y => (order_eq_iff x y).mp) order_lt_trans orderList_lt_trans h h'

theorem orderParams_lt_trans (h : orderParams ps qs = .lt) (h' : orderParams qs rs = .lt) :
    orderParams ps rs = .lt := by
  match ps, qs, rs with
  | [], _, _ :: _ => rfl
  | _, [], [] | _, _ :: _, [] => cases h'
  | _ :: _, [], _ => cases h
  | ⟨a, d⟩ :: ps, ⟨b, e⟩ :: qs, ⟨c, f⟩ :: rs =>
    rw [orderParams, Ordering.then_assoc] at h h' ⊢
    refine then_lt_trans (fun x y => (order_eq_iff x y).mp) order_lt_trans ?_ h h'
    exact then_lt_trans (fun x y => Std.LawfulEqCmp.eq_of_compare) compare_lt_trans orderParams_lt_trans

end

theorem order_self (a : Ty) : order a a = .eq := (order_eq_iff a a).mpr rfl

theorem order_gt_iff : order a b = .gt ↔ order b a = .lt := by
  rw [order_swap a b]
  cases order a b <;> simp

theorem order_tuple_lt_iff :
    order (tuple ts) (tuple us) = .lt ↔ List.Lex (fun a b => order a b = .lt) ts us := by
  rw [order]
  induction ts generalizing us with
  | nil => cases us <;> simp [orderList]
  | cons t ts ih =>
    cases us with
    | nil => simp [orderList]
    | cons u us =>
      rw [orderList, Ordering.then_eq_lt, order_eq_iff, ih, cons_lex_cons_iff]

/-! ## increasing lists -/

variable {ts : List Ty}

/-- each member comes before those behind it -/
def Ascending (ts : List Ty) : Prop := ts.Pairwise fun a b => order a b = .lt

instance (ts : List Ty) : Decidable (Ascending ts) := inferInstanceAs (Decidable (List.Pairwise _ ts))

theorem Ascending.nodup (h : Ascending ts) : ts.Nodup := by
  refine List.Pairwise.imp ?_ h
  rintro a b hlt rfl
  rw [order_self] at hlt
  cases hlt

/-- a set of types has only one increasing list -/
theorem Ascending.ext (ht : Ascending ts) (hu : Ascending us) (h : ∀ t, t ∈ ts ↔ t ∈ us) : ts = us := by
  have hperm : ts.Perm us := (perm_ext_iff_of_nodup ht.nodup hu.nodup).mpr h
  refine hperm.eq_of_pairwise (fun a b _ _ hab hba => ?_) ht hu
  rw [← order_gt_iff, hab] at hba
  cases hba

theorem ascending_insertSorted (t : Ty) (h : Ascending ts) : Ascending (t.insertSorted ts) := by
  induction ts with
  | nil => exact pairwise_singleton _ t
  | cons u us ih =>
    obtain ⟨hu, hus⟩ := pairwise_cons.mp h
    unfold insertSorted
    split
    · next hlt =>
      refine pairwise_cons.mpr ⟨fun v hv => ?_, h⟩
      rcases mem_cons.mp hv with rfl | hv
      · exact hlt
      · exact order_lt_trans hlt (hu v hv)
    · exact h
    · next hgt =>
      refine pairwise_cons.mpr ⟨fun v hv => ?_, ih hus⟩
      rcases mem_insertSorted.mp hv with rfl | hv
      · exact order_gt_iff.mp hgt
      · exact hu v hv

theorem ascending_sortedSet (ts : List Ty) : Ascending (sortedSet ts) := by
  have hfold : ∀ us, Ascending us → Ascending (ts.foldl (fun us t => t.insertSorted us) us) := by
    induction ts with
    | nil => exact fun us hus => hus
    | cons t ts ih => exact fun us hus => ih _ (ascending_insertSorted t hus)
  exact hfold [] List.Pairwise.nil

theorem Ascending.sortedSet_eq (h : Ascending ts) : sortedSet ts = ts :=
  (ascending_sortedSet ts).ext h fun _ => mem_sortedSet

theorem tupleOf_eq (h : ts ≠ []) : tupleOf ts = .tuple (sortedSet ts) := by
  unfold tupleOf
  split
  · next hnil =>
    obtain ⟨t, ht⟩ := exists_mem_of_ne_nil ts h
    have hmem := mem_sortedSet.mpr ht
    rw [hnil] at hmem
    cases hmem
  · next heq => rw [heq]

/-! ## types of tuples -/

theorem assignable_tuple_iff : (tuple ts).assignable (tuple us) = true ↔ ts = us := by
  simp [assignable]

/-- The comparison of types, by their forms first and from member to member in tuples, is a linear order
that calls nothing equal but a type and itself.  So lists with the same members, in any order and however
often, give the same type of tuples, whose members are that set in increasing order; and two types of
tuples can take each other's place if and only if they have the same members. -/
theorem tupleOf_canonical :
    (∀ a b : Ty, a.rank < b.rank → order a b = .lt) ∧
    (∀ ts us : List Ty, order (tuple ts) (tuple us) = .lt ↔ List.Lex (fun a b => order a b = .lt) ts us) ∧
    (∀ a b : Ty, order a b = .eq ↔ a = b) ∧
    (∀ a b : Ty, order b a = (order a b).swap) ∧
    (∀ a b c : Ty, order a b = .lt → order b c = .lt → order a c = .lt) ∧
    (∀ ts us : List Ty, ts ≠ [] → (∀ t, t ∈ ts ↔ t ∈ us) →
      tupleOf ts = tupleOf us ∧
        ∃ ms, tupleOf ts = .tuple ms ∧ Ascending ms ∧ ∀ t, t ∈ ms ↔ t ∈ ts) ∧
    ∀ ts us : List Ty, Ascending ts → Ascending us →
      ((tuple ts).assignable (tuple us) = true ∧ (tuple us).assignable (tuple ts) = true ↔
        ∀ t, t ∈ ts ↔ t ∈ us) := by
  refine ⟨fun a b => order_lt_of_rank_lt, fun ts us => order_tuple_lt_iff, order_eq_iff, order_swap,
    fun a b c => order_lt_trans, fun ts us hts hsame => ⟨?_, ?_⟩, fun ts us hts hus => ?_⟩
  · obtain ⟨t, ht⟩ := exists_mem_of_ne_nil ts hts
    have hus : us ≠ [] := ne_nil_of_mem ((hsame t).mp ht)
    have hsorted : sortedSet ts = sortedSet us := by
      refine (ascending_sortedSet ts).ext (ascending_sortedSet us) fun t => ?_
      rw [mem_sortedSet, mem_sortedSet, hsame t]
    rw [tupleOf_eq hts, tupleOf_eq hus, hsorted]
  · exact ⟨sortedSet ts, tupleOf_eq hts, ascending_sortedSet ts, fun t => mem_sortedSet⟩
  · rw [assignable_tuple_iff, assignable_tuple_iff]
    constructor
    · rintro ⟨rfl, _⟩ t
      exact Iff.rfl
    · intro hsame
      have heq : ts = us := hts.ext hus hsame
      exact ⟨heq, heq.symm⟩

/-- a tuple and a class among the members, one of them twice; and two tuples that differ in one member -/
theorem tupleOf_canonical_nested : let inner := tuple [int, string]
    let ts := [inner, classOf 2 "A", int, classOf 2 "A"]
    let us := [int, inner, classOf 2 "A"]
    (int.rank < inner.rank ∧ order int inner = .lt) ∧
    (order (tuple [int]) inner = .lt ∧ order inner (nullable int) = .lt ∧
      order (tuple [int]) (nullable int) = .lt) ∧
    (ts ≠ [] ∧ (∀ t, t ∈ ts ↔ t ∈ us) ∧ tupleOf ts = tupleOf us ∧ tupleOf ts = tuple us) ∧
    (Ascending [int] ∧ Ascending us ∧
      ¬((tuple [int]).assignable (tuple us) = true ∧ (tuple us).assignable (tuple [int]) = true)) := by
  intro inner ts us
  obtain ⟨hrank, _, _, _, htrans, htuple, hassignable⟩ := tupleOf_canonical
  have hsame : ∀ t, t ∈ ts ↔ t ∈ us := by
    intro t
    simp only [ts, us, mem_cons, not_mem_nil, or_false]
    tauto
  have hms : Ascending us := by decide
  obtain ⟨heq, ms, hts, hascending, hmem⟩ := htuple ts us (by decide) hsame
  have hus : ms = us := hascending.ext hms fun t => (hmem t).trans (hsame t)
  refine ⟨⟨by decide, hrank int inner (by decide)⟩, ⟨by decide, by decide, ?_⟩,
    ⟨by decide, hsame, heq, hus ▸ hts⟩, by decide, hms, ?_⟩
  · exact htrans (tuple [int]) inner (nullable int) (by decide) (by decide)
  · intro hboth
    have hinner := ((hassignable [int] us (by decide) hms).mp hboth inner).mpr (by decide)
    exact absurd hinner (by decide)

end TypedScript.Ty
