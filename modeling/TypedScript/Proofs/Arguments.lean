import TypedScript.Proofs.Nodes

/-!
# Arguments that calls leave out

A call is tested by the number of its arguments: as many as there are parameters without a default, and
not more than there are parameters.  Arguments go to parameters by position, though, so that the test is
right exactly for signatures whose defaults come last.

* `Signature.DefaultsTrail`: no parameter without a default follows one with a default;
* `exists_signature_of_call`: accepted calls pass the test.
-/

namespace TypedScript

open List

/-! ## counting and positions -/

variable {ps : List (Param Ty)} {k : Nat} {f : Signature}

/-- the parameters that a call with `k` arguments leaves out have defaults -/
def Signature.Covers (f : Signature) (k : Nat) : Prop := ∀ p ∈ f.params.drop k, p.optional = true

def Signature.DefaultsTrail (f : Signature) : Prop :=
  f.params.Pairwise fun a b => a.optional = true → b.optional = true

instance (f : Signature) (k : Nat) : Decidable (f.Covers k) :=
  inferInstanceAs (Decidable (∀ p ∈ f.params.drop k, p.optional = true))

instance (f : Signature) : Decidable f.DefaultsTrail :=
  inferInstanceAs (Decidable (f.params.Pairwise fun a b => a.optional = true → b.optional = true))

/-- how many parameters have no default -/
def requiredOf (params : List (Param Ty)) : Nat := params.countP fun p => !p.optional

theorem requiredOf_cons_of_optional {p : Param Ty} (hp : p.optional = true) (ps : List (Param Ty)) :
    requiredOf (p :: ps) = requiredOf ps := by
  simp [requiredOf, hp]

theorem requiredOf_cons_of_required {p : Param Ty} (hp : p.optional = false) (ps : List (Param Ty)) :
    requiredOf (p :: ps) = requiredOf ps + 1 := by
  simp [requiredOf, hp]

theorem requiredOf_eq_zero : requiredOf ps = 0 ↔ ∀ p ∈ ps, p.optional = true := by
  simp [requiredOf, countP_eq_zero]

/-- behind as many parameters as are required, none is required if defaults trail -/
theorem optional_of_trail (h : ps.Pairwise fun a b => a.optional = true → b.optional = true)
    (hk : requiredOf ps ≤ k) : ∀ p ∈ ps.drop k, p.optional = true := by
  induction ps generalizing k with
  | nil => simp
  | cons p ps ih =>
    obtain ⟨hp, hps⟩ := pairwise_cons.mp h
    cases hoptional : p.optional with
    | true =>
      intro p' hp'
      rcases mem_cons.mp (mem_of_mem_drop hp') with rfl | hp'
      · exact hoptional
      · exact hp p' hp' hoptional
    | false =>
      rw [requiredOf_cons_of_required hoptional] at hk
      obtain ⟨k, rfl⟩ : ∃ k', k = k' + 1 := ⟨k - 1, by omega⟩
      exact ih hps (by omega)

/-- if none is required behind as many parameters as are required, these are the first ones -/
theorem trail_of_optional (h : ∀ p ∈ ps.drop (requiredOf ps), p.optional = true) :
    ps.Pairwise fun a b => a.optional = true → b.optional = true := by
  induction ps with
  | nil => exact .nil
  | cons p ps ih =>
    cases hoptional : p.optional with
    | false =>
      rw [requiredOf_cons_of_required hoptional, drop_succ_cons] at h
      exact .cons (fun _ _ hp => absurd (hoptional.symm.trans hp) Bool.false_ne_true) (ih h)
    | true =>
      rw [requiredOf_cons_of_optional hoptional] at h
      -- a required parameter among `ps` would leave one too few places for the required ones
      have hnone : requiredOf ps = 0 := by
        by_contra hne
        obtain ⟨k, hk⟩ : ∃ k, requiredOf ps = k + 1 := ⟨requiredOf ps - 1, by omega⟩
        rw [hk, drop_succ_cons] at h
        have hcount : requiredOf ps = requiredOf (ps.take k) + requiredOf (ps.drop k) := by
          unfold requiredOf
          rw [← countP_append, take_append_drop]
        have htake : requiredOf (ps.take k) ≤ k :=
          le_trans countP_le_length (length_take_le k ps)
        have hdrop : requiredOf (ps.drop k) = 0 := requiredOf_eq_zero.mpr h
        omega
      have hall := requiredOf_eq_zero.mp hnone
      have hrest := pairwise_of_forall (l := ps) fun _ _ => trivial
      exact .cons (fun p' hp' _ => hall p' hp') (hrest.imp_of_mem fun _ hb _ _ => hall _ hb)

theorem Signature.DefaultsTrail.covers (h : f.DefaultsTrail)
    (hk : f.required ≤ k) : f.Covers k := optional_of_trail h hk

/-- the test of the number of arguments is right for the signature exactly if its defaults trail -/
theorem defaultsTrail_iff : f.DefaultsTrail ↔ ∀ k, f.arityTest k = .ok () → f.Covers k := by
  constructor
  · intro h k hk
    exact h.covers (Signature.arityTest_eq_ok_iff.mp hk).1
  · intro h
    have hok : f.arityTest f.required = .ok () :=
      Signature.arityTest_eq_ok_iff.mpr ⟨le_rfl, countP_le_length⟩
    exact trail_of_optional (h _ hok)

/-! ## calls -/

/-- the signature that a call has to respect: the one of the callee's type, or that of the constructor of
a class, which a place of the tree declares or the root has -/
def Signature.CalledBy (root : Scope) (L : List Stmt.Place) (callee : Expr) (constructs : Bool)
    (f : Signature) : Prop :=
  callee.type = some f.type ∨ constructs = true ∧ ∃ (x : Symbol) (b : ClassBinding),
    callee = .name x (some b.type) ∧ x.resolution = some b.resolution ∧ b.constructor = some f ∧
      (root.findClass? x.name = some b ∨ ∃ P ∈ L, P.DeclaresClass x.name b)

theorem exists_signature_of_call {P : Stmt.Place} (h : P.Accepted root L) (hP : P ∈ L)
    (hcall : .call callee arguments awaited constructs t ∈ P.nodes) :
    ∃ f : Signature, f.CalledBy root L callee constructs ∧ f.arityTest arguments.length = .ok () := by
  obtain ⟨Γ, s, hs, ⟨e₀, u, he⟩ | ⟨x, b, _, hname⟩⟩ := h.node hP hcall
  · cases he with
    | @call _ _ _ _ _ _ _ _ f _ hcallee hsig hallows hall =>
      refine ⟨f, .inl ?_, ?_⟩
      · rw [hcallee.type, Ty.signature?_eq_some hsig]
      · rw [hall.length]
        exact Signature.arityTest_eq_ok_iff.mpr ⟨hallows.enough, hallows.notMore⟩
    | @construct _ _ _ _ _ _ _ _ f _ _ hclass hf hallows hall =>
      refine ⟨f, .inr ⟨rfl, _, _, rfl, rfl, hf, hs.classes _ _ hclass⟩, ?_⟩
      rw [hall.length]
      exact Signature.arityTest_eq_ok_iff.mpr ⟨hallows.enough, hallows.notMore⟩
  · exact nomatch hname

/-! ## programs -/

/-- Every call of an accepted program has a signature and as many arguments as the test asks for.  The
test keeps calls with that signature from leaving out a required argument exactly if its defaults
trail. -/
theorem analyse_covers_iff_defaults_trail {root : Scope} {p q : Program} (h : analyse root p = .ok q) :
    ∀ P ∈ placesOf root q, ∀ callee arguments awaited constructs t,
      .call callee arguments awaited constructs t ∈ P.nodes →
      ∃ f : Signature, f.CalledBy root (placesOf root q) callee constructs ∧
        arguments.length ≤ f.params.length ∧ f.required ≤ arguments.length ∧
        (f.DefaultsTrail → f.Covers arguments.length) ∧
        (f.DefaultsTrail ↔ ∀ k, f.arityTest k = .ok () → f.Covers k) := by
  intro P hP callee arguments awaited constructs t hcall
  obtain ⟨f, hf, harity⟩ := exists_signature_of_call (places_of_analyse h P hP) hP hcall
  obtain ⟨henough, hnotMore⟩ := Signature.arityTest_eq_ok_iff.mp harity
  exact ⟨f, hf, hnotMore, henough, fun htrail => htrail.covers henough, defaultsTrail_iff⟩

/-- `class O { } let o = O(); fn f(a: int, b: int = 2) { } o.f(1);`: a call through a member leaves out
the argument for `b` -/
theorem analyse_covers_iff_defaults_trail_member : let int := TypeTerm.named "int"
    let number := fun (n : Int) t => Expr.literal (.integer n) t
    let object := Ty.classOf 2 "O"
    let f : Signature := ⟨[⟨.int, false⟩, ⟨.int, true⟩], .none, false⟩
    let p : Program :=
      [.classDef ⟨"O", none, []⟩ [],
       .declare false [⟨"o", none, none, none⟩] [.call (.name (.ofName "O") none) [] false false none],
       .function ⟨"f", none, [⟨"a", int, none, none, none⟩,
         ⟨"b", int, some (number 2 none), none, none⟩], none, false⟩ [],
       .expression (.call (.member (.name (.ofName "o") none) (.ofName "f") none) [number 1 none]
         false false none)]
    let callee := Expr.member (.name ⟨"o", some (.declared 3)⟩ (some object)) ⟨"f", some (.declared 1)⟩
      (some f.type)
    let q : Program :=
      [.classDef ⟨"O", some 2, []⟩ [],
       .declare false [⟨"o", none, some 3, some object⟩]
         [.call (.name ⟨"O", some (.declared 2)⟩ (some object)) [] false true (some object)],
       .function ⟨"f", some 1, [⟨"a", int, none, some 4, some .int⟩,
         ⟨"b", int, some (number 2 (some .int)), some 5, some .int⟩], none, false⟩ [],
       .expression (.call callee [number 1 (some .int)] false false (some .none))]
    analyse Scope.root p = .ok q ∧ f.DefaultsTrail ∧ f.Covers 1 := by
  intro int number object f p callee q
  have h : analyse Scope.root p = .ok q := by cbv
  obtain ⟨g, hg, _, _, hcovers, _⟩ := analyse_covers_iff_defaults_trail h
    ⟨Scope.root.sight, q.take 3, q[3]⟩
    (mem_of_getElem? (show (placesOf Scope.root q)[3]? = _ from rfl))
    callee [number 1 (some .int)] false false (some .none) mem_cons_self
  -- the call does not construct, so that its signature is in the type of the callee
  have hfg : some f.type = some g.type := hg.resolve_right fun h => Bool.false_ne_true h.1
  cases Signature.type_inj (Option.some.inj hfg)
  have htrail : f.DefaultsTrail := by decide
  exact ⟨h, htrail, hcovers htrail⟩

/-- `fn f(a: int = 1, b: int) { } f(5);` is accepted, and `b` gets no argument -/
theorem analyse_accepts_missing_argument : let int := TypeTerm.named "int"
    let number := fun (n : Int) t => Expr.literal (.integer n) t
    let f : Signature := ⟨[⟨.int, true⟩, ⟨.int, false⟩], .none, false⟩
    let p : Program :=
      [.function ⟨"f", none, [⟨"a", int, some (number 1 none), none, none⟩,
         ⟨"b", int, none, none, none⟩], none, false⟩ [],
       .expression (.call (.name (.ofName "f") none) [number 5 none] false false none)]
    let callee := Expr.name ⟨"f", some (.declared 1)⟩ (some f.type)
    let call := Expr.call callee [number 5 (some .int)] false false (some .none)
    let q : Program :=
      [.function ⟨"f", some 1, [⟨"a", int, some (number 1 (some .int)), some 2, some .int⟩,
         ⟨"b", int, none, some 3, some .int⟩], none, false⟩ [],
       .expression call]
    analyse Scope.root p = .ok q ∧ (∃ P ∈ placesOf Scope.root q, call ∈ P.nodes) ∧
      f.CalledBy Scope.root (placesOf Scope.root q) callee false ∧ ¬ f.Covers 1 ∧ ¬ f.DefaultsTrail := by
  intro int number f p callee call q
  have h : analyse Scope.root p = .ok q := by cbv
  have hP : ⟨Scope.root.sight, [q[0]], q[1]⟩ ∈ placesOf Scope.root q :=
    mem_of_getElem? (show (placesOf Scope.root q)[1]? = _ from rfl)
  exact ⟨h, ⟨_, hP, mem_cons_self⟩, .inl rfl, by decide, by decide⟩

end TypedScript
