import TypedScript.Proofs.Surroundings

/-!
# What may be overwritten

Names are written by assignments, to a variable or through a member, and by the updates of counting
loops.  Assignments are tested for constants.  Updates are not: their target only has to count, so that
a loop may overwrite a constant.
-/

namespace TypedScript

open List

/-! ## writes -/

inductive Write where
  | assigned (x : Symbol)
  | updated (x : Symbol)

def Write.symbol : Write → Symbol
  | .assigned x => x
  | .updated x => x

/-- the name that an assignment to the expression writes; an element of a collection has none -/
def Expr.written? : Expr → Option Symbol
  | .name x _ => some x
  | .member _ x _ => some x
  | _ => none

/-- the writes of a statement, those of the statements inside it aside -/
def Stmt.writes : Stmt → List Write
  | .assign targets _ => (targets.filterMap Expr.written?).map .assigned
  | .forLoop h _ => [.updated h.target]
  | _ => []

def writesOf (q : Program) : List Write := (placesOf Scope.root q).flatMap (·.statement.writes)

/-! ## sites -/

/-- variables that are not constant, loop indices among them, and parameters -/
def Site.overwritable : Site → Bool
  | .variable constant _ => !constant
  | .parameter _ => true
  | .function _ => false
  | .classDef _ => false

def Symbol.Reaches (D : List Site) (x : Symbol) (d : Site) : Prop :=
  d ∈ D ∧ d.name = x.name ∧ ∃ id, x.resolution = some (.declared id) ∧ d.id = some id

def Symbol.Overwrites (D : List Site) (x : Symbol) : Prop := ∃ d, x.Reaches D d ∧ d.overwritable = true

theorem Symbol.Reaches.eq (hq : (siteIds q).Nodup) {x : Symbol} (h : x.Reaches (bodySites q) d)
    (h' : x.Reaches (bodySites q) d') : d = d' := by
  obtain ⟨hmem, _, id, hid, hd⟩ := h
  obtain ⟨hmem', _, id', hid', hd'⟩ := h'
  have hsame : id = id' := Resolution.declared.inj (Option.some.inj (hid.symm.trans hid'))
  exact inj_on_of_nodup_map hq hmem hmem' (by rw [hd, hd', hsame])

variable {D : List Site} {x : Symbol} {b : Binding}

theorem Binding.At.overwrites (h : b.At D x.name) (hb : b.writable = true) :
    (x.resolved b.resolution).Overwrites D := by
  cases h with
  | «variable» hd hname hid _ => exact ⟨_, ⟨hd, hname, _, rfl, hid⟩, hb⟩
  | parameter hp hname hid _ => exact ⟨_, ⟨hp, hname, _, rfl, hid⟩, rfl⟩
  | function _ _ _ _ | builtin _ _ => exact nomatch hb

/-- what counts is a variable or a parameter, since functions do not -/
theorem Binding.At.overwrites_or_constant (h : b.At D x.name) (hb : b.type.isIntegral = true) :
    (x.resolved b.resolution).Overwrites D ∨
      ∃ d, (x.resolved b.resolution).Reaches D (.variable true d) := by
  cases h with
  | @«variable» t constant d id hd hname hid _ =>
    have hreaches : (x.resolved (.declared id)).Reaches D (.variable constant d) :=
      ⟨hd, hname, id, rfl, hid⟩
    cases constant with
    | false => exact .inl ⟨_, hreaches, rfl⟩
    | true => exact .inr ⟨d, hreaches⟩
  | parameter hp hname hid _ => exact .inl ⟨_, ⟨hp, hname, _, rfl, hid⟩, rfl⟩
  | function _ _ _ _ | builtin _ _ => exact nomatch hb

/-! ## accepted writes -/

theorem Scope.writable_of_fault {s : Scope} {x : String} {b : Binding}
    (hb : s.findVariable? x = some b)
    (h : (match s.lookupVariable x with
      | .ok b => if b.writable = true then none else some (Cause.constantAssignment x)
      | .error e => some e) = none) : b.writable = true := by
  unfold Scope.lookupVariable at h
  rw [hb] at h
  dsimp only at h
  split at h
  · next hwritable => exact hwritable
  · exact nomatch h

theorem TargetsAccepted.writable (h : TargetsAccepted s es es' ts) :
    ∀ y ∈ es'.filterMap Expr.written?, ∃ (x : Symbol) (b : Binding),
      s.findVariable? x.name = some b ∧ b.writable = true ∧ y = x.resolved b.resolution := by
  induction h with
  | nil => exact nofun
  | @cons e e' es es' t ts htarget he hmember _ ih =>
    intro y hmem
    obtain ⟨e₁, he₁, hy⟩ := mem_filterMap.mp hmem
    rcases mem_cons.mp he₁ with rfl | he₁
    · cases he with
      | name hb =>
        cases hy
        exact ⟨_, _, hb, Scope.writable_of_fault hb htarget, rfl⟩
      | member _ hb =>
        cases hy
        exact ⟨_, _, hb, Scope.writable_of_fault hb hmember, rfl⟩
      | _ => exact nomatch hy
    · exact ih y (mem_filterMap.mpr ⟨e₁, he₁, hy⟩)

theorem ForHead.Accepted.updates (hh : ForHead.Accepted h c h' c') :
    ∃ b, c'.scope.findVariable? h.target.name = some b ∧ b.type.isIntegral = true ∧
      h'.target = h.target.resolved b.resolution := by
  cases hh with
  | intro _ _ _ hc₁ _ hb hintegral _ =>
    subst hc₁
    exact ⟨_, hb, hintegral, rfl⟩

variable {p q : Program}

theorem overwrites_of_assigned (h : analyse Scope.root p = .ok q) (hx : .assigned x ∈ writesOf q) :
    x.Overwrites (bodySites q) := by
  obtain ⟨P, hP, hw⟩ := mem_flatMap.mp hx
  obtain ⟨c, s, c', hs, hc⟩ := places_of_analyse h P hP
  generalize P.statement = s' at hs hw
  cases hs with
  | assign _ htargets _ =>
    obtain ⟨y, hy, hyx⟩ := mem_map.mp hw
    cases hyx
    obtain ⟨z, b, hb, hwritable, rfl⟩ := htargets.writable x hy
    exact (hc.records.vars _ _ hb).overwrites hwritable
  | forLoop _ _ => exact nomatch mem_singleton.mp hw
  | _ => exact nomatch hw

theorem overwrites_or_constant_of_updated (h : analyse Scope.root p = .ok q)
    (hx : .updated x ∈ writesOf q) :
    x.Overwrites (bodySites q) ∨ ∃ d, x.Reaches (bodySites q) (.variable true d) := by
  obtain ⟨P, hP, hw⟩ := mem_flatMap.mp hx
  obtain ⟨c, s, c', hs, hc⟩ := places_of_analyse h P hP
  generalize hs' : P.statement = s' at hs hw
  cases hs with
  | assign _ _ _ =>
    obtain ⟨y, _, hyx⟩ := mem_map.mp hw
    exact nomatch hyx
  | forLoop hhead _ =>
    cases mem_singleton.mp hw
    have hc₁ := hhead.known (hc.enter c.scope.frame.function true) hP hs'
    obtain ⟨b, hb, hintegral, htarget⟩ := hhead.updates
    rw [htarget]
    exact (hc₁.records.vars _ _ hb).overwrites_or_constant hintegral
  | _ => exact nomatch hw

/-! ## programs -/

/-- Every write of an accepted program refers to one declaration.  An assignment overwrites what may be
overwritten; the update of a loop does so exactly if it does not hit a constant. -/
theorem analyse_overwrites_iff_not_constant {p q : Program} (h : analyse Scope.root p = .ok q) :
    (∀ w ∈ writesOf q, ∃! d, w.symbol.Reaches (bodySites q) d) ∧
    (∀ x, .assigned x ∈ writesOf q → x.Overwrites (bodySites q)) ∧
    (∀ x, .updated x ∈ writesOf q →
      (x.Overwrites (bodySites q) ↔ ¬ ∃ d, x.Reaches (bodySites q) (.variable true d))) := by
  have hids := nodup_siteIds_of_analyse h
  refine ⟨fun w hw => ?_, fun x hx => overwrites_of_assigned h hx,
    fun x hx => ⟨?_, fun hconstant => ?_⟩⟩
  · have hreaches : ∃ d, w.symbol.Reaches (bodySites q) d := by
      cases w with
      | assigned x =>
        obtain ⟨d, hd, _⟩ := overwrites_of_assigned h hw
        exact ⟨d, hd⟩
      | updated x =>
        rcases overwrites_or_constant_of_updated h hw with ⟨d, hd, _⟩ | ⟨d, hd⟩
        · exact ⟨d, hd⟩
        · exact ⟨_, hd⟩
    obtain ⟨d, hd⟩ := hreaches
    exact ⟨d, hd, fun d' hd' => hd'.eq hids hd⟩
  · rintro ⟨d, hd, hoverwritable⟩ ⟨d', hd'⟩
    rw [hd.eq hids hd'] at hoverwritable
    exact nomatch hoverwritable
  · exact (overwrites_or_constant_of_updated h hx).resolve_right hconstant

/-- `const n = 1; fn f(n: int) { n = 2; for (let i = 0; i < n; i++) { } }`: a parameter hides the
constant of the same name -/
theorem analyse_overwrites_iff_not_constant_hidden :
    let int := TypeTerm.named "int"
    let use (x : String) := Expr.name (.ofName x) none
    let ref (x : String) (id : DeclId) (t : Ty) := Expr.name ⟨x, some (.declared id)⟩ (some t)
    let number := fun (n : Int) t => Expr.literal (.integer n) t
    let p : Program :=
      [.declare true [⟨"n", none, none, none⟩] [number 1 none],
       .function ⟨"f", none, [⟨"n", int, none, none, none⟩], none, false⟩
         [.assign [use "n"] [number 2 none],
          .forLoop ⟨⟨"i", none, none, none⟩, number 0 none, .binary .less (use "i") (use "n") none,
            .ofName "i", .increment⟩ []]]
    let q : Program :=
      [.declare true [⟨"n", none, some 2, some .int⟩] [number 1 (some .int)],
       .function ⟨"f", some 1, [⟨"n", int, none, some 3, some .int⟩], none, false⟩
         [.assign [ref "n" 3 .int] [number 2 (some .int)],
          .forLoop ⟨⟨"i", none, some 4, some .int⟩, number 0 (some .int),
            .binary .less (ref "i" 4 .int) (ref "n" 3 .int) (some .bool),
            ⟨"i", some (.declared 4)⟩, .increment⟩ []]]
    analyse Scope.root p = .ok q ∧ Symbol.Overwrites (bodySites q) ⟨"n", some (.declared 3)⟩ ∧
      Symbol.Overwrites (bodySites q) ⟨"i", some (.declared 4)⟩ := by
  intro int use ref number p q
  have h : analyse Scope.root p = .ok q := by cbv
  obtain ⟨hreaches, hassigned, hupdated⟩ := analyse_overwrites_iff_not_constant h
  have hn : .assigned ⟨"n", some (.declared 3)⟩ ∈ writesOf q :=
    mem_of_getElem? (show (writesOf q)[0]? = _ from rfl)
  have hi : .updated ⟨"i", some (.declared 4)⟩ ∈ writesOf q :=
    mem_of_getElem? (show (writesOf q)[1]? = _ from rfl)
  refine ⟨h, hassigned _ hn, (hupdated _ hi).mpr ?_⟩
  rintro ⟨d, hmem, _, id, hid, hd⟩
  cases hid
  have hsite : d = ⟨"n", none, some 2, some .int⟩ := by simpa [q, bodySites, Stmt.sites] using hmem
  rw [hsite] at hd
  exact absurd hd (by decide)

/-- `const n = 1; for (let i = 0; i < 3; n++) { }` is accepted, and its loop overwrites the constant -/
theorem analyse_accepts_update_of_constant :
    let use (x : String) := Expr.name (.ofName x) none
    let number := fun (n : Int) t => Expr.literal (.integer n) t
    let p : Program :=
      [.declare true [⟨"n", none, none, none⟩] [number 1 none],
       .forLoop ⟨⟨"i", none, none, none⟩, number 0 none, .binary .less (use "i") (number 3 none) none,
         .ofName "n", .increment⟩ []]
    let n : Symbol := ⟨"n", some (.declared 1)⟩
    let q : Program :=
      [.declare true [⟨"n", none, some 1, some .int⟩] [number 1 (some .int)],
       .forLoop ⟨⟨"i", none, some 2, some .int⟩, number 0 (some .int),
         .binary .less (.name ⟨"i", some (.declared 2)⟩ (some .int)) (number 3 (some .int)) (some .bool),
         n, .increment⟩ []]
    analyse Scope.root p = .ok q ∧ .updated n ∈ writesOf q ∧
      n.Reaches (bodySites q) (.variable true ⟨"n", none, some 1, some .int⟩) ∧
      ¬ n.Overwrites (bodySites q) := by
  intro use number p n q
  have h : analyse Scope.root p = .ok q := by cbv
  have hn : .updated n ∈ writesOf q := mem_of_getElem? (show (writesOf q)[0]? = _ from rfl)
  refine ⟨h, hn, ⟨mem_cons_self, rfl, 1, rfl, rfl⟩, ?_⟩
  rintro ⟨d, ⟨hmem, _, id, hid, hd⟩, hoverwritable⟩
  cases hid
  rcases mem_cons.mp hmem with rfl | hmem
  · exact Bool.false_ne_true hoverwritable
  · rw [mem_singleton.mp hmem] at hd
    have hid : some 2 = some 1 := hd
    exact absurd hid (by decide)

end TypedScript
