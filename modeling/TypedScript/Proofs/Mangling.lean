import Mathlib.Data.Set.Insert
import TypedScript.Proofs.Referents

/-!
# Names that are given out

A run of `Naming` gives out names one after the other.  An `Order` is the list of what they were given
to, the latest first, with the source names; the place of an entry is the number in its name.
-/

namespace TypedScript

open List

/-! ## names with numbers -/

def mangled (base : String) (number : Nat) : String := base ++ "_" ++ toString number

theorem toList_mangled (base : String) (number : Nat) :
    (mangled base number).toList = base.toList ++ '_' :: Nat.toDigits 10 number := by
  have hdigits : (toString number).toList = Nat.toDigits 10 number := Nat.toList_repr
  unfold mangled
  rw [String.toList_append, String.toList_append, hdigits, append_assoc]
  rfl

theorem underscore_mem_mangled (base : String) (number : Nat) : '_' ∈ (mangled base number).toList := by
  rw [toList_mangled]
  exact mem_append_right _ mem_cons_self

theorem takeWhile_mangled (base : String) (number : Nat) :
    (mangled base number).toList.reverse.takeWhile (· ≠ '_') = (Nat.toDigits 10 number).reverse := by
  have hdigits : ∀ c ∈ (Nat.toDigits 10 number).reverse, decide (c ≠ '_') = true := by
    intro c hc
    have hdigit := Nat.isDigit_of_mem_toDigits (by decide) (by decide) (mem_reverse.mp hc)
    refine decide_eq_true ?_
    rintro rfl
    exact absurd hdigit (by decide)
  rw [toList_mangled, reverse_append, reverse_cons, append_assoc,
    takeWhile_append_of_pos hdigits]
  exact append_nil _

theorem mangled_inj (h : mangled base number = mangled base' number') : number = number' := by
  have hdigits : Nat.toDigits 10 number = Nat.toDigits 10 number' := by
    rw [← reverse_inj, ← takeWhile_mangled base, h, takeWhile_mangled]
  rw [← Nat.ofDigitChars_ten_toDigits (n := number), hdigits, Nat.ofDigitChars_ten_toDigits]

/-! ## orders -/

variable {r : Referent} {s : String}

/-- what names were given to, the latest first, each with its source name -/
abbrev Order := List (Referent × String)

variable {order : Order}

def given : Order → Referent → Option String
  | [], _ => none
  | (r', base) :: order, r =>
    if r = r' then some (mangled base (order.length + 1)) else given order r

/-- how something is called: names of the target language are not given out -/
def nameIn (order : Order) : Referent → Option String
  | .verbatim s => some s
  | r => given order r

theorem exists_given (h : (r, base) ∈ order) : ∃ s, given order r = some s := by
  induction order with
  | nil => exact nomatch h
  | cons e order ih =>
    obtain ⟨r', base'⟩ := e
    rw [given]
    split
    · exact ⟨_, rfl⟩
    · next hne =>
      rcases mem_cons.mp h with heq | h
      · exact absurd (congrArg Prod.fst heq) hne
      · exact ih h

theorem mem_of_given (h : given order r = some s) :
    ∃ base number, (r, base) ∈ order ∧ number ≤ order.length ∧ s = mangled base number := by
  induction order with
  | nil => exact nomatch h
  | cons e order ih =>
    obtain ⟨r', base'⟩ := e
    rw [given] at h
    split at h
    · next heq =>
      cases h
      exact ⟨base', order.length + 1, heq ▸ mem_cons_self, Nat.le_refl _, rfl⟩
    · obtain ⟨base, number, hmem, hle, hs⟩ := ih h
      exact ⟨base, number, mem_cons_of_mem _ hmem, Nat.le_succ_of_le hle, hs⟩

theorem not_mem_of_given_eq_none (h : given order r = none) : r ∉ order.map Prod.fst := by
  intro hmem
  obtain ⟨⟨r', base⟩, he, rfl⟩ := mem_map.mp hmem
  obtain ⟨s, hs⟩ := exists_given he
  exact nomatch h.symm.trans hs

theorem given_inj (h : given order r = some s) (h' : given order r' = some s) : r = r' := by
  induction order with
  | nil => exact nomatch h
  | cons e order ih =>
    obtain ⟨r₀, base₀⟩ := e
    rw [given] at h h'
    split at h
    · next heq =>
      split at h'
      · next heq' => rw [heq, heq']
      · -- the latest number is larger than those before it
        obtain ⟨base, number, _, hle, hs⟩ := mem_of_given h'
        cases h
        have hnumber := mangled_inj hs
        omega
    · split at h'
      · obtain ⟨base, number, _, hle, hs⟩ := mem_of_given h
        cases h'
        have hnumber := mangled_inj hs
        omega
      · exact ih h h'

/-! ## runs -/

variable {M M' : Set (Referent × String)} {order' order'' : Order}

/-- the state after the names of `order` were given out, with the range loops up to `n` among them -/
structure Tracks (n : Nat) (order : Order) (ns : Names) : Prop where
  lookup : ∀ id, ns.given.lookup id = given order (.declared id)
  next : ns.next = order.length + 1
  nodup : (order.map Prod.fst).Nodup
  loops : ∀ i base, (.loop i, base) ∈ order → i < n
  proper : ∀ s base, (.verbatim s, base) ∉ order

/-- names were given to the entries of `M` that had none -/
structure Grows (M : Set (Referent × String)) (order order' : Order) : Prop where
  keeps : ∀ r s, given order r = some s → given order' r = some s
  old : ∀ e ∈ order, e ∈ order'
  new : ∀ e ∈ order', e ∈ order ∨ e ∈ M
  all : ∀ e ∈ M, (∃ s, e.1 = .verbatim s) ∨ ∃ base, (e.1, base) ∈ order'

theorem Grows.of_known
    (h : ∀ e ∈ M, (∃ s, e.1 = .verbatim s) ∨ ∃ base, (e.1, base) ∈ order) : Grows M order order where
  keeps _ _ hs := hs
  old _ he := he
  new _ he := .inl he
  all := h

theorem Grows.trans
    (h : Grows M order order') (h' : Grows M' order' order'') : Grows (M ∪ M') order order'' where
  keeps r s hs := h'.keeps r s (h.keeps r s hs)
  old e he := h'.old e (h.old e he)
  new e he := by
    rcases h'.new e he with he | he
    · exact (h.new e he).imp_right .inl
    · exact .inr (.inr he)
  all e he := by
    rcases he with he | he
    · exact (h.all e he).imp_right fun ⟨base, hbase⟩ => ⟨base, h'.old _ hbase⟩
    · exact h'.all e he

theorem Grows.nameIn_eq (h : Grows M order order') (h' : Grows M' order' order'') (he : e ∈ M) :
    nameIn order'' e.1 = nameIn order' e.1 := by
  obtain ⟨r, base⟩ := e
  rcases h.all _ he with ⟨s, hs⟩ | ⟨base', hbase⟩
  · rw [show r = .verbatim s from hs]
    rfl
  · obtain ⟨s, hs⟩ := exists_given hbase
    cases r with
    | verbatim t => rfl
    | declared id | loop i => exact (h'.keeps _ s hs).trans hs.symm

theorem Grows.cons {base : String} (h : r ∉ order.map Prod.fst) :
    Grows {(r, base)} order ((r, base) :: order) where
  keeps r' s hs := by
    have hne : r' ≠ r := by
      rintro rfl
      obtain ⟨base', _, hmem, _⟩ := mem_of_given hs
      exact h (mem_map.mpr ⟨_, hmem, rfl⟩)
    rw [given, if_neg hne]
    exact hs
  old e he := mem_cons_of_mem _ he
  new e he := by
    rcases mem_cons.mp he with rfl | he
    · exact .inr rfl
    · exact .inl he
  all e he := by
    cases he
    exact .inr ⟨base, mem_cons_self⟩

/-! ## computations -/

variable {n n' : Nat}

/-- A computation gives names to the entries of `M`, range loops from `n` up to `n'` among them, and
returns something that fits every naming with those names. -/
def Gives {α : Type} (m : Naming α) (n n' : Nat) (M : Set (Referent × String))
    (P : (Referent → Option String) → α → Prop) : Prop :=
  ∀ order ns, Tracks n order ns → ∃ order', Tracks n' order' (m ns).2 ∧ Grows M order order' ∧
    ∀ ν : Referent → Option String, (∀ e ∈ M, ν e.1 = nameIn order' e.1) → P ν (m ns).1

theorem Gives.pure {α : Type} {a : α} {P : (Referent → Option String) → α → Prop}
    (h : ∀ ν, P ν a) : Gives (Pure.pure a) n n ∅ P :=
  fun order _ htracks => ⟨order, htracks, .of_known nofun, fun ν _ => h ν⟩

theorem Gives.bind {α β : Type} {m : Naming α} {f : α → Naming β} {P : (Referent → Option String) → α → Prop}
    {Q : (Referent → Option String) → β → Prop} (hm : Gives m n n₁ M P)
    (hf : ∀ a, Gives (f a) n₁ n₂ M' fun ν b => P ν a → Q ν b) : Gives (m >>= f) n n₂ (M ∪ M') Q := by
  intro order ns htracks
  obtain ⟨order₁, htracks₁, hgrows₁, hP⟩ := hm order ns htracks
  obtain ⟨order₂, htracks₂, hgrows₂, hQ⟩ := hf (m ns).1 order₁ (m ns).2 htracks₁
  refine ⟨order₂, htracks₂, hgrows₁.trans hgrows₂, fun ν hν => ?_⟩
  refine hQ ν (fun e he => hν e (.inr he)) (hP ν fun e he => ?_)
  rw [hν e (.inl he), hgrows₁.nameIn_eq hgrows₂ he]

theorem Gives.of_eq {α : Type} {m : Naming α} {P : (Referent → Option String) → α → Prop}
    (h : Gives m n n' M P) (hM : M' = M) : Gives m n n' M' P := hM ▸ h

theorem Gives.ite {α : Type} [Decidable c] {m m' : Naming α} {P : (Referent → Option String) → α → Prop}
    (h : c → Gives m n n' M P) (h' : ¬c → Gives m' n n' M P) : Gives (if c then m else m') n n' M P := by
  split
  · next hc => exact h hc
  · next hc => exact h' hc

/-! ## giving names -/

variable {ns : Names} {id : DeclId}

theorem Tracks.cons {ns' : Names} {base : String}
    (h : Tracks n order ns) (hnew : r ∉ order.map Prod.fst) (hproper : ∀ s, r ≠ .verbatim s)
    (hn : n ≤ n') (hloop : ∀ i, r = .loop i → i < n') (hnext : ns'.next = ns.next + 1)
    (hlookup : ∀ id, ns'.given.lookup id = given ((r, base) :: order) (.declared id)) :
    Tracks n' ((r, base) :: order) ns' where
  lookup := hlookup
  next := by rw [hnext, h.next, length_cons]
  nodup := nodup_cons.mpr ⟨hnew, h.nodup⟩
  loops i base' hmem := by
    rcases mem_cons.mp hmem with heq | hmem
    · exact hloop i (congrArg Prod.fst heq).symm
    · exact Nat.lt_of_lt_of_le (h.loops i base' hmem) hn
  proper s base' hmem := by
    rcases mem_cons.mp hmem with heq | hmem
    · exact hproper s (congrArg Prod.fst heq).symm
    · exact h.proper s base' hmem

theorem gives_fresh (n : Nat) : Gives (Naming.fresh "range") n (n + 1) {(.loop n, "range")}
    fun ν s => ν (.loop n) = some s := by
  intro order ns htracks
  have hnew : Referent.loop n ∉ order.map Prod.fst := by
    intro hmem
    obtain ⟨⟨r, base⟩, he, rfl⟩ := mem_map.mp hmem
    exact Nat.lt_irrefl n (htracks.loops n base he)
  refine ⟨(.loop n, "range") :: order, ?_, .cons hnew, fun ν hν => ?_⟩
  · refine htracks.cons hnew nofun (Nat.le_succ n) ?_ rfl htracks.lookup
    rintro i ⟨⟩
    exact Nat.lt_succ_self n
  · show ν (.loop n) = some (mangled "range" ns.next)
    rw [hν (.loop n, "range") rfl, htracks.next]
    exact if_pos rfl

theorem gives_verbatim (s x : String) (n : Nat) :
    Gives (Pure.pure s) n n {(.verbatim s, x)} fun ν t => ν (.verbatim s) = some t := by
  intro order ns htracks
  refine ⟨order, htracks, .of_known ?_, fun ν hν => hν (.verbatim s, x) rfl⟩
  rintro e rfl
  exact .inl ⟨s, rfl⟩

theorem declaration_known (h : ns.given.lookup id = some s)
    (x : String) : Naming.declaration (some id) x ns = (s, ns) := by
  unfold Naming.declaration
  dsimp only
  rw [h]

theorem declaration_new (h : ns.given.lookup id = none) (x : String) :
    Naming.declaration (some id) x ns
      = (mangled x ns.next, ⟨(id, mangled x ns.next) :: ns.given, ns.next + 1⟩) := by
  unfold Naming.declaration
  dsimp only
  rw [h]
  rfl

/-- a declaration gets its name when it is met for the first time -/
theorem gives_declared (id : DeclId) (x : String) (n : Nat) :
    Gives (Naming.declaration (some id) x) n n {(.declared id, x)} fun ν s => ν (.declared id) = some s := by
  intro order ns htracks
  cases hlookup : ns.given.lookup id with
  | some s =>
    have hgiven : given order (.declared id) = some s := (htracks.lookup id).symm.trans hlookup
    rw [declaration_known hlookup]
    refine ⟨order, htracks, .of_known ?_, fun ν hν => (hν (.declared id, x) rfl).trans hgiven⟩
    rintro e rfl
    obtain ⟨base, _, hmem, _⟩ := mem_of_given hgiven
    exact .inr ⟨base, hmem⟩
  | none =>
    have hnew := not_mem_of_given_eq_none ((htracks.lookup id).symm.trans hlookup)
    have hself : given ((.declared id, x) :: order) (.declared id) = some (mangled x ns.next) := by
      rw [given, if_pos rfl, htracks.next]
    rw [declaration_new hlookup]
    refine ⟨(.declared id, x) :: order, ?_, .cons hnew,
      fun ν hν => (hν (.declared id, x) rfl).trans hself⟩
    refine htracks.cons hnew nofun (Nat.le_refl n) nofun rfl fun id' => ?_
    rw [lookup_cons]
    by_cases heq : id' = id
    · rw [heq, hself, beq_self_eq_true]
    · rw [beq_eq_false_iff_ne.mpr heq, given, if_neg fun h => heq (Referent.declared.inj h)]
      exact htracks.lookup id'

theorem gives_declaration (id : Option DeclId) (x : String) (n : Nat) :
    Gives (Naming.declaration id x) n n {(.ofId id x, x)} fun ν s => ν (.ofId id x) = some s := by
  cases id with
  | none => exact gives_verbatim x x n
  | some id => exact gives_declared id x n

theorem gives_symbol (x : Symbol) (n : Nat) :
    Gives (Naming.symbol x) n n {(x.referent, x.name)} fun ν s => ν x.referent = some s := by
  unfold Naming.symbol Symbol.referent
  cases x.resolution with
  | none => exact gives_verbatim x.name x.name n
  | some r =>
    cases r with
    | declared id => exact gives_declared id x.name n
    | builtin native => exact gives_verbatim native x.name n

end TypedScript
