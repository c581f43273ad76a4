import TypedScript.Proofs.Places

/-!
# The names in written types

A written type stands for the same type wherever the names in it do, and the classes that the type
mentions are those that its names stand for.  If new classes come in sight, a signature therefore stays
as it is exactly if none of them has a name that occurs in it.
-/

namespace TypedScript

open List

/-! ## names -/

mutual

def TypeTerm.names : TypeTerm → List String
  | .named n => [n]
  | .generic _ arguments => TypeTerm.namesAll arguments
  | .nullable inner => inner.names

def TypeTerm.namesAll : List TypeTerm → List String
  | [] => []
  | w :: ws => w.names ++ TypeTerm.namesAll ws

end

def FunctionHead.typeNames (h : FunctionHead) : List String :=
  h.parameters.flatMap (·.written.names) ++ h.returns.toList.flatMap TypeTerm.names

section congruence

variable {Γ Δ : Sight}

mutual

theorem TypeTerm.typeAt?_congr {w : TypeTerm} (h : ∀ n ∈ w.names, Γ.lookup n = Δ.lookup n) :
    w.typeAt? Γ = w.typeAt? Δ := by
  match w, h with
  | .named n, h => rw [TypeTerm.typeAt?, TypeTerm.typeAt?, h n mem_cons_self]
  | .generic n arguments, h => rw [TypeTerm.typeAt?, TypeTerm.typeAt?, TypeTerm.typesAt?_congr h]
  | .nullable inner, h =>
    have hinner : ∀ n ∈ inner.names, Γ.lookup n = Δ.lookup n := h
    rw [TypeTerm.typeAt?, TypeTerm.typeAt?, TypeTerm.typeAt?_congr hinner]

theorem TypeTerm.typesAt?_congr (h : ∀ n ∈ TypeTerm.namesAll ws, Γ.lookup n = Δ.lookup n) :
    TypeTerm.typesAt? Γ ws = TypeTerm.typesAt? Δ ws := by
  match ws, h with
  | [], _ => rfl
  | w :: ws, h =>
    obtain ⟨hw, hws⟩ := forall_mem_append.mp h
    rw [TypeTerm.typesAt?, TypeTerm.typesAt?, TypeTerm.typeAt?_congr hw, TypeTerm.typesAt?_congr hws]

end

theorem parametersAt?_congr {ps : List Parameter}
    (h : ∀ n ∈ ps.flatMap (·.written.names), Γ.lookup n = Δ.lookup n) :
    parametersAt? Γ ps = parametersAt? Δ ps := by
  induction ps with
  | nil => rfl
  | cons p ps ih =>
    rw [flatMap_cons] at h
    obtain ⟨hp, hps⟩ := forall_mem_append.mp h
    rw [parametersAt?, parametersAt?, TypeTerm.typeAt?_congr hp, ih hps]

theorem FunctionHead.returnsAt?_congr {h : FunctionHead}
    (hh : ∀ n ∈ h.returns.toList.flatMap TypeTerm.names, Γ.lookup n = Δ.lookup n) :
    h.returnsAt? Γ = h.returnsAt? Δ := by
  unfold FunctionHead.returnsAt?
  cases hw : h.returns with
  | none => rfl
  | some w =>
    refine TypeTerm.typeAt?_congr fun n hn => hh n ?_
    rw [hw]
    exact mem_flatMap.mpr ⟨w, mem_cons_self, hn⟩

theorem FunctionHead.signatureAt?_congr {h : FunctionHead}
    (hh : ∀ n ∈ h.typeNames, Γ.lookup n = Δ.lookup n) : h.signatureAt? Γ = h.signatureAt? Δ := by
  obtain ⟨hps, hr⟩ := forall_mem_append.mp hh
  rw [FunctionHead.signatureAt?, FunctionHead.signatureAt?, parametersAt?_congr hps,
    FunctionHead.returnsAt?_congr hr]

end congruence

/-! ## classes in types -/

mutual

/-- the class with this identity occurs in the type -/
def Ty.Mentions (id : DeclId) : Ty → Prop
  | .array t => t.Mentions id
  | .set t => t.Mentions id
  | .dict k v => k.Mentions id ∨ v.Mentions id
  | .tuple ts => Ty.anyMentions id ts
  | .nullable t => t.Mentions id
  | .classOf i _ => i = id
  | .function ps r _ => Ty.paramsMention id ps ∨ r.Mentions id
  | _ => False

def Ty.anyMentions (id : DeclId) : List Ty → Prop
  | [] => False
  | t :: ts => t.Mentions id ∨ Ty.anyMentions id ts

def Ty.paramsMention (id : DeclId) : List (Param Ty) → Prop
  | [] => False
  | ⟨t, _⟩ :: ps => t.Mentions id ∨ Ty.paramsMention id ps

end

variable {id : DeclId}

theorem Ty.anyMentions_iff : Ty.anyMentions id ts ↔ ∃ t ∈ ts, t.Mentions id := by
  induction ts with
  | nil => simp [Ty.anyMentions]
  | cons t ts ih => simp [Ty.anyMentions, ih]

theorem Ty.mem_insertSorted {t u : Ty} : u ∈ t.insertSorted ts ↔ u = t ∨ u ∈ ts := by
  induction ts with
  | nil => simp [Ty.insertSorted]
  | cons v ts ih =>
    unfold Ty.insertSorted
    split
    · exact mem_cons
    · next heq =>
      rw [(Ty.order_eq_iff t v).mp heq]
      exact ⟨.inr, fun h => h.elim (fun h => h ▸ mem_cons_self) (fun h => h)⟩
    · rw [mem_cons, ih, mem_cons]
      exact or_left_comm

theorem Ty.mem_sortedSet : u ∈ Ty.sortedSet ts ↔ u ∈ ts := by
  have hfold : ∀ ts us : List Ty, u ∈ ts.foldl (fun us t => t.insertSorted us) us ↔ u ∈ ts ∨ u ∈ us := by
    intro ts
    induction ts with
    | nil => simp
    | cons t ts ih =>
      intro us
      rw [foldl_cons, ih, Ty.mem_insertSorted, mem_cons]
      tauto
  have hmem := hfold ts []
  rw [or_iff_left not_mem_nil] at hmem
  exact hmem

theorem Ty.mentions_tupleOf : (Ty.tupleOf ts).Mentions id ↔ Ty.anyMentions id ts := by
  have hmem : Ty.anyMentions id (Ty.sortedSet ts) ↔ Ty.anyMentions id ts := by
    simp only [Ty.anyMentions_iff, Ty.mem_sortedSet]
  rw [← hmem]
  unfold Ty.tupleOf
  cases Ty.sortedSet ts with
  | nil => exact Iff.rfl
  | cons u us => exact Iff.rfl

theorem Generic.mentions_build {g : Generic} {ts : List Ty} (h : g.accepts ts.length = true) :
    (g.build ts).Mentions id ↔ Ty.anyMentions id ts := by
  cases g with
  | tuple => exact Ty.mentions_tupleOf
  | array | set =>
    obtain ⟨t, rfl⟩ := length_eq_one_iff.mp (of_decide_eq_true h)
    exact (iff_of_eq (or_false _)).symm
  | dict =>
    obtain ⟨k, v, rfl⟩ := length_eq_two.mp (of_decide_eq_true h)
    exact (or_congr_right (iff_of_eq (or_false _))).symm

/-! ## classes in written types -/

variable {Γ : Sight}

/-- one of the names stands for a type in which the class occurs -/
def Sight.Reveals (Γ : Sight) (id : DeclId) (names : List String) : Prop :=
  ∃ n ∈ names, ∃ t, Γ.lookup n = some t ∧ t.Mentions id

theorem Sight.reveals_append :
    Sight.Reveals Γ id (ns ++ ms) ↔ Sight.Reveals Γ id ns ∨ Sight.Reveals Γ id ms := by
  unfold Sight.Reveals
  simp only [mem_append, or_and_right, exists_or]

theorem TypeTerm.length_typesAt? (h : TypeTerm.typesAt? Γ ws = some ts) : ts.length = ws.length := by
  induction ws generalizing ts with
  | nil =>
    cases h
    rfl
  | cons w ws ih =>
    obtain ⟨t, _, h⟩ := Option.bind_eq_some_iff.mp h
    obtain ⟨ts, hts, rfl⟩ := Option.map_eq_some_iff.mp h
    exact congrArg (· + 1) (ih hts)

mutual

theorem TypeTerm.mentions_typeAt? {w : TypeTerm} {t : Ty} (h : w.typeAt? Γ = some t) :
    t.Mentions id ↔ Sight.Reveals Γ id w.names := by
  match w, h with
  | .named n, h =>
    rw [TypeTerm.typeAt?] at h
    split at h
    · exact nomatch h
    · simp [Sight.Reveals, TypeTerm.names, h]
  | .generic n arguments, h =>
    rw [TypeTerm.typeAt?] at h
    split at h
    · exact nomatch h
    · split at h
      · next haccepts =>
        obtain ⟨ts, hts, rfl⟩ := Option.map_eq_some_iff.mp h
        rw [← TypeTerm.length_typesAt? hts] at haccepts
        rw [Generic.mentions_build haccepts]
        exact TypeTerm.anyMentions_typesAt? hts
      · exact nomatch h
  | .nullable inner, h =>
    rw [TypeTerm.typeAt?] at h
    obtain ⟨u, hu, rfl⟩ := Option.map_eq_some_iff.mp h
    exact @TypeTerm.mentions_typeAt? inner u hu

theorem TypeTerm.anyMentions_typesAt? (h : TypeTerm.typesAt? Γ ws = some ts) :
    Ty.anyMentions id ts ↔ Sight.Reveals Γ id (TypeTerm.namesAll ws) := by
  match ws, h with
  | [], h =>
    cases h
    exact ⟨nofun, nofun⟩
  | w :: ws, h =>
    rw [TypeTerm.typesAt?] at h
    obtain ⟨t, ht, h⟩ := Option.bind_eq_some_iff.mp h
    obtain ⟨ts, hts, rfl⟩ := Option.map_eq_some_iff.mp h
    rw [TypeTerm.namesAll, Sight.reveals_append, ← TypeTerm.mentions_typeAt? ht,
      ← TypeTerm.anyMentions_typesAt? hts]
    exact Iff.rfl

end

theorem paramsMention_parametersAt? (h : parametersAt? Γ ps = some params) :
    Ty.paramsMention id params ↔ Sight.Reveals Γ id (ps.flatMap (·.written.names)) := by
  induction ps generalizing params with
  | nil =>
    cases h
    exact ⟨nofun, nofun⟩
  | cons p ps ih =>
    obtain ⟨t, ht, h⟩ := Option.bind_eq_some_iff.mp h
    obtain ⟨params, hparams, rfl⟩ := Option.map_eq_some_iff.mp h
    rw [flatMap_cons, Sight.reveals_append, ← TypeTerm.mentions_typeAt? ht, ← ih hparams]
    exact Iff.rfl

theorem FunctionHead.mentions_returnsAt? {h : FunctionHead} (hr : h.returnsAt? Γ = some r) :
    r.Mentions id ↔ Sight.Reveals Γ id (h.returns.toList.flatMap TypeTerm.names) := by
  unfold FunctionHead.returnsAt? at hr
  cases hw : h.returns with
  | none =>
    rw [hw] at hr
    cases hr
    exact ⟨nofun, nofun⟩
  | some w =>
    rw [hw] at hr
    rw [TypeTerm.mentions_typeAt? hr, Option.toList_some, flatMap_cons, flatMap_nil,
      append_nil]

theorem FunctionHead.mentions_signatureAt? {h : FunctionHead} (hf : h.signatureAt? Γ = some f) :
    f.type.Mentions id ↔ Sight.Reveals Γ id h.typeNames := by
  obtain ⟨params, hparams, hf⟩ := Option.bind_eq_some_iff.mp hf
  obtain ⟨r, hr, rfl⟩ := Option.map_eq_some_iff.mp hf
  rw [FunctionHead.typeNames, Sight.reveals_append, ← paramsMention_parametersAt? hparams,
    ← FunctionHead.mentions_returnsAt? hr]
  exact Iff.rfl

/-! ## new classes in sight -/

theorem lookup_append_of_not_mem {Δ : Sight} (h : n ∉ Δ.map Prod.fst) : (Δ ++ Γ).lookup n = Γ.lookup n := by
  rw [lookup_append, lookup_eq_none_iff.mpr, Option.none_or]
  intro e he
  rw [bne_iff_ne]
  rintro rfl
  exact h (mem_map.mpr ⟨e, he, rfl⟩)

theorem exists_lookup_append {Δ : Sight} {n : String} (h : n ∈ Δ.map Prod.fst) :
    ∃ e ∈ Δ, (Δ ++ Γ).lookup n = some e.2 := by
  induction Δ with
  | nil => exact nomatch h
  | cons e Δ ih =>
    rw [cons_append, lookup_cons]
    by_cases hn : n = e.1
    · rw [beq_iff_eq.mpr hn]
      exact ⟨e, mem_cons_self, rfl⟩
    · rw [beq_eq_false_iff_ne.mpr hn]
      rw [map_cons, mem_cons] at h
      obtain ⟨e', he', hlookup⟩ := ih (h.resolve_left hn)
      exact ⟨e', mem_cons_of_mem e he', hlookup⟩

/-- Where new classes come in sight, a signature stays the same exactly if none of them has a name that
is written in it. -/
theorem signatureAt?_append_eq_iff {h : FunctionHead}
    (hnew : ∀ e ∈ Δ, ∃ id, e.2.Mentions id ∧ ∀ e' ∈ Γ, ¬ e'.2.Mentions id) (hf : h.signatureAt? Γ = some f)
    (hg : h.signatureAt? (Δ ++ Γ) = some g) : f = g ↔ ∀ n ∈ h.typeNames, n ∉ Δ.map Prod.fst := by
  constructor
  · rintro rfl n hn hmem
    obtain ⟨e, he, hlookup⟩ := @exists_lookup_append Γ Δ n hmem
    obtain ⟨id, hid, hfresh⟩ := hnew e he
    have hmentions : f.type.Mentions id :=
      (FunctionHead.mentions_signatureAt? hg).mpr ⟨n, hn, e.2, hlookup, hid⟩
    -- the class would have to be in sight before it came in sight
    obtain ⟨m, _, t, hm, ht⟩ := (FunctionHead.mentions_signatureAt? hf).mp hmentions
    obtain ⟨earlier, later, hΓ, _⟩ := lookup_eq_some_iff.mp hm
    exact hfresh (m, t) (hΓ ▸ mem_append_right _ mem_cons_self) ht
  · intro hnames
    have hsame : h.signatureAt? (Δ ++ Γ) = h.signatureAt? Γ :=
      FunctionHead.signatureAt?_congr fun n hn => lookup_append_of_not_mem (hnames n hn)
    exact Option.some.inj (hf.symm.trans (hsame.symm.trans hg))

end TypedScript
