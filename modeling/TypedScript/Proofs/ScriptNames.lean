import TypedScript.Proofs.Mangling
import TypedScript.Proofs.Pieces

/-!
# The identifiers of a script

Each identifier in the text of a script is the name of what the program has at that place.  The names
of a script are known only at the end of the run that gives them out, so the parts of a script are
compared with a naming that agrees with the end of the run (`Gives`).
-/

namespace TypedScript

open Script (namesOf)
open List

/-! ## entries -/

def useEntries (xs : List Symbol) : Set (Referent × String) :=
  {e | ∃ x ∈ xs, e = (x.referent, x.name)}

def siteEntries (ds : List Site) : Set (Referent × String) :=
  {e | ∃ d ∈ ds, e = (d.referent, d.name)}

/-- `k` range loops from `n` on -/
def loopEntries (n k : Nat) : Set (Referent × String) :=
  {e | ∃ i, n ≤ i ∧ i < n + k ∧ e = (.loop i, "range")}

@[simp] theorem useEntries_nil : useEntries [] = ∅ := by simp [useEntries]

@[simp] theorem useEntries_cons (x : Symbol) (xs : List Symbol) :
    useEntries (x :: xs) = {(x.referent, x.name)} ∪ useEntries xs := by
  ext e
  simp [useEntries]

@[simp] theorem useEntries_append (xs ys : List Symbol) :
    useEntries (xs ++ ys) = useEntries xs ∪ useEntries ys := by
  ext e
  simp [useEntries, or_and_right, exists_or]

@[simp] theorem siteEntries_nil : siteEntries [] = ∅ := by simp [siteEntries]

@[simp] theorem siteEntries_cons (d : Site) (ds : List Site) :
    siteEntries (d :: ds) = {(d.referent, d.name)} ∪ siteEntries ds := by
  ext e
  simp [siteEntries]

@[simp] theorem siteEntries_append (ds ds' : List Site) :
    siteEntries (ds ++ ds') = siteEntries ds ∪ siteEntries ds' := by
  ext e
  simp [siteEntries, or_and_right, exists_or]

@[simp] theorem loopEntries_zero (n : Nat) : loopEntries n 0 = ∅ := by
  ext e
  refine ⟨?_, fun h => h.elim⟩
  rintro ⟨i, hn, hi, _⟩
  omega

theorem loopEntries_add (n a b : Nat) : loopEntries n (a + b) = loopEntries n a ∪ loopEntries (n + a) b := by
  ext e
  constructor
  · rintro ⟨i, hn, hi, rfl⟩
    by_cases hlt : i < n + a
    · exact .inl ⟨i, hn, hlt, rfl⟩
    · exact .inr ⟨i, by omega, by omega, rfl⟩
  · rintro (⟨i, hn, hi, rfl⟩ | ⟨i, hn, hi, rfl⟩)
    · exact ⟨i, hn, by omega, rfl⟩
    · exact ⟨i, by omega, by omega, rfl⟩

theorem loopEntries_one (n : Nat) : loopEntries n 1 = {(.loop n, "range")} := by
  ext e
  constructor
  · rintro ⟨i, hn, hi, rfl⟩
    have hi' : i = n := by omega
    rw [hi']
    rfl
  · rintro rfl
    exact ⟨n, Nat.le_refl n, Nat.lt_succ_self n, rfl⟩

/-! ## identifiers and what they stand for -/

variable {ν : Referent → Option String}
variable {rs : List Referent} {names names' : List String}

/-- identifiers that a naming gives to a list -/
def Named (ν : Referent → Option String) (names : List String) (rs : List Referent) : Prop :=
  names.map some = rs.map ν

theorem Named.nil : Named ν [] [] := rfl

theorem Named.cons {s : String} {r : Referent}
    (h : ν r = some s) (hs : Named ν names rs) : Named ν (s :: names) (r :: rs) := by
  unfold Named at hs ⊢
  rw [map_cons, map_cons, h, hs]

theorem Named.append (h : Named ν names rs) (h' : Named ν names' rs') :
    Named ν (names ++ names') (rs ++ rs') := by
  unfold Named at h h' ⊢
  rw [map_append, map_append, h, h']

theorem Named.flatMap (h : Named ν names rs) (hfg : ∀ s r, ν r = some s → Named ν (f s) (g r)) :
    Named ν (names.flatMap f) (rs.flatMap g) := by
  induction names generalizing rs with
  | nil =>
    cases rs with
    | nil => exact .nil
    | cons r rs => exact nomatch h
  | cons s names ih =>
    cases rs with
    | nil => exact nomatch h
    | cons r rs =>
      obtain ⟨hr, hrs⟩ := List.cons.inj h
      rw [flatMap_cons, flatMap_cons]
      exact (hfg s r hr.symm).append (ih hrs)

theorem Named.uses {xs ys : List Symbol}
    (h : Named ν names (xs.map Symbol.referent)) (h' : Named ν names' (ys.map Symbol.referent)) :
    Named ν (names ++ names') ((xs ++ ys).map Symbol.referent) := by
  rw [map_append]
  exact h.append h'

/-! ## expressions -/

mutual

theorem Expr.gives_lower (e : Expr) (n : Nat) :
    Gives e.lower n n (useEntries e.uses) fun ν e' => Named ν (namesOf e'.pieces) e.referents := by
  cases e with
  | literal v t =>
    rw [Expr.lower]
    exact Gives.of_eq (.pure fun ν => .nil) useEntries_nil
  | name x t =>
    rw [Expr.lower]
    refine Gives.of_eq ((gives_symbol x n).bind fun s => .pure fun ν hs => ?_) ?_
    · exact .cons hs .nil
    · simp [Expr.uses]
  | binary op left right t =>
    rw [Expr.lower]
    refine Gives.of_eq ((left.gives_lower n).bind fun l => (right.gives_lower n).bind fun r =>
      .ite (fun _ => .pure fun ν hr hl => ?_) (fun _ => .pure fun ν hr hl => ?_)) ?_
    · simpa [Script.Expr.pieces, Expr.referents, Expr.uses] using hl.uses hr
    · simpa [Script.Expr.pieces, Expr.referents, Expr.uses] using hl.uses hr
    · simp [Expr.uses]
  | unary op operand t =>
    rw [Expr.lower]
    refine Gives.of_eq ((operand.gives_lower n).bind fun x =>
      .ite (fun _ => .pure fun ν hx => ?_) (fun _ => .pure fun ν hx => ?_)) ?_
    · simpa [Script.Expr.pieces, Expr.referents, Expr.uses] using hx
    · simpa [Script.Expr.pieces, Expr.referents, Expr.uses] using hx
    · simp [Expr.uses]
  | call callee arguments awaited constructs t =>
    rw [Expr.lower]
    have hcall : ∀ (ν : Referent → Option String) (f : Script.Expr) (as : List Script.Expr),
        Named ν ((as.map Script.Expr.pieces).flatMap namesOf) (Expr.allReferents arguments) →
        Named ν (namesOf f.pieces) callee.referents →
        Named ν (namesOf (if constructs then Script.Expr.construct f as else .call f as).pieces)
          (Expr.call callee arguments awaited constructs t).referents := by
      intro ν f as has hf
      cases constructs <;>
        simpa [Script.Expr.pieces, Script.Expr.allPieces_eq_map, Expr.referents, Expr.allReferents,
          Expr.uses] using hf.uses has
    refine Gives.of_eq ((callee.gives_lower n).bind fun f => (Expr.gives_lowerAll arguments n).bind
      fun as => .ite (fun _ => .pure fun ν has hf => ?_) (fun _ => .pure fun ν has hf => ?_)) ?_
    · simpa [Script.Expr.pieces] using hcall ν f as has hf
    · exact hcall ν f as has hf
    · simp [Expr.uses]
  | subscript base index t =>
    rw [Expr.lower]
    refine Gives.of_eq ((base.gives_lower n).bind fun b => (index.gives_lower n).bind fun i =>
      .pure fun ν hi hb => ?_) ?_
    · simpa [Script.Expr.pieces, Expr.referents, Expr.uses] using hb.uses hi
    · simp [Expr.uses]
  | member object x t =>
    rw [Expr.lower]
    refine Gives.of_eq ((object.gives_lower n).bind fun o => (gives_symbol x n).bind fun s =>
      .pure fun ν hs ho => ?_) ?_
    · have hx : Named ν [s] ([x].map Symbol.referent) := .cons hs .nil
      simpa [Script.Expr.pieces, Expr.referents, Expr.uses] using ho.uses hx
    · simp [Expr.uses]
  | collection form elements t =>
    rw [Expr.lower]
    refine Gives.of_eq ((Expr.gives_lowerAll elements n).bind fun es => ?_) (Set.union_empty _).symm
    cases form <;> refine .pure fun ν hes => ?_ <;>
      simpa [Script.Expr.pieces, Script.Expr.allPieces_eq_map, Expr.referents, Expr.allReferents,
          Expr.uses] using hes
  | dict entries t =>
    rw [Expr.lower]
    refine Gives.of_eq ((Expr.gives_lowerEntries entries n).bind fun es => .pure fun ν hes => ?_)
      (Set.union_empty _).symm
    cases es with
    | nil => exact hes
    | cons e es => simpa [Script.Expr.pieces, Expr.referents, Expr.uses] using hes

theorem Expr.gives_lowerAll (es : List Expr) (n : Nat) :
    Gives (Expr.lowerAll es) n n (useEntries (Expr.usesAll es)) fun ν es' =>
      Named ν ((es'.map Script.Expr.pieces).flatMap namesOf) (Expr.allReferents es) := by
  cases es with
  | nil =>
    rw [Expr.lowerAll]
    exact Gives.of_eq (.pure fun ν => .nil) useEntries_nil
  | cons e es =>
    rw [Expr.lowerAll]
    refine Gives.of_eq ((e.gives_lower n).bind fun e' => (Expr.gives_lowerAll es n).bind fun es' =>
      .pure fun ν hes he => ?_) ?_
    · rw [map_cons, flatMap_cons]
      exact he.uses hes
    · simp [Expr.usesAll]

theorem Expr.gives_lowerEntries (es : List (Expr × Expr)) (n : Nat) :
    Gives (Expr.lowerEntries es) n n (useEntries (Expr.entryUses es)) fun ν es' =>
      Named ν ((Script.Expr.entryPieces es').flatMap namesOf)
        ((Expr.entryUses es).map Symbol.referent) := by
  cases es with
  | nil =>
    rw [Expr.lowerEntries]
    exact Gives.of_eq (.pure fun ν => .nil) useEntries_nil
  | cons e es =>
    obtain ⟨key, value⟩ := e
    rw [Expr.lowerEntries]
    refine Gives.of_eq ((key.gives_lower n).bind fun k => (value.gives_lower n).bind fun v =>
      (Expr.gives_lowerEntries es n).bind fun es' => .pure fun ν hes hv hk => ?_) ?_
    · simpa [Script.Expr.entryPieces, Expr.referents, Expr.entryUses] using (hk.uses hv).uses hes
    · simp [Expr.entryUses]

end

/-! ## declarations -/

theorem gives_declarators (constant : Bool) (ds : List Declarator) (n : Nat) :
    Gives (ds.mapM Declarator.lower) n n (siteEntries (ds.map (.variable constant)))
      fun ν names => Named ν names (ds.map Declarator.referent) := by
  induction ds with
  | nil => exact Gives.of_eq (.pure fun ν => .nil) siteEntries_nil
  | cons d ds ih =>
    rw [mapM_cons]
    refine Gives.of_eq ((gives_declaration d.id d.name n).bind fun s => ih.bind fun names =>
      .pure fun ν hnames hs => .cons hs hnames) ?_
    simp [Site.referent, Site.id, Site.name]

theorem Parameter.gives_lower (p : Parameter) (n : Nat) :
    Gives p.lower n n ({(.ofId p.id p.name, p.name)} ∪ useEntries p.uses)
      fun ν p' => Named ν (namesOf p'.pieces) p.referents := by
  unfold Parameter.lower
  refine (gives_declaration p.id p.name n).bind fun s => ?_
  unfold Parameter.referents Parameter.uses
  cases p.default with
  | none => exact Gives.of_eq (.pure fun ν hs => .cons hs .nil) useEntries_nil
  | some e =>
    refine Gives.of_eq ((e.gives_lower n).bind fun e' => .pure fun ν he hs => ?_) ?_
    · have huses : Expr.usesAll (some e).toList = e.uses := append_nil e.uses
      rw [huses]
      exact .cons hs he
    · simp [Expr.usesAll]

theorem gives_parameters (ps : List Parameter) (n : Nat) :
    Gives (ps.mapM Parameter.lower) n n
      (siteEntries (ps.map .parameter) ∪ useEntries (ps.flatMap Parameter.uses))
      fun ν ps' => Named ν ((ps'.map Script.Param.pieces).flatMap namesOf)
        (ps.flatMap Parameter.referents) := by
  induction ps with
  | nil => exact Gives.of_eq (.pure fun ν => .nil) (by simp)
  | cons p ps ih =>
    rw [mapM_cons]
    refine Gives.of_eq ((p.gives_lower n).bind fun p' => ih.bind fun ps' =>
      .pure fun ν hps hp => ?_) ?_
    · rw [map_cons, flatMap_cons, flatMap_cons]
      exact hp.append hps
    · simp only [map_cons, flatMap_cons, siteEntries_cons, useEntries_append,
        Set.union_empty]
      show {(Referent.ofId p.id p.name, p.name)} ∪ _ ∪ _ = _
      ac_rfl

theorem Update.gives_lower (u : Update Expr) (n : Nat) :
    Gives (Update.lower u) n n (useEntries (Update.uses u)) fun ν u' =>
      ∀ (target : String) (r : Referent), ν r = some target →
        Named ν (namesOf (Script.updatePieces target u'))
          (r :: (Update.uses u).map Symbol.referent) := by
  cases u with
  | increment | decrement => exact Gives.of_eq (.pure fun ν target r hr => .cons hr .nil) useEntries_nil
  | increase e | decrease e =>
    exact Gives.of_eq ((e.gives_lower n).bind fun e' => .pure fun ν he target r hr => .cons hr he)
      (Set.union_empty _).symm

/-! ## statements -/

/-- the statements of a script with what their identifiers stand for -/
def ScriptNamed (ν : Referent → Option String) (ss : List Script.Stmt) (rs : List Referent) : Prop :=
  ∀ width d, Named ν (namesOf (Script.bodyPieces width d ss)) rs

theorem Script.bodyPieces_append (width d : Nat) (ss ts : List Script.Stmt) :
    Script.bodyPieces width d (ss ++ ts) = Script.bodyPieces width d ss ++ Script.bodyPieces width d ts := by
  induction ss with
  | nil => rfl
  | cons s ss ih => rw [cons_append, Script.bodyPieces, Script.bodyPieces, ih, append_assoc]

theorem ScriptNamed.append (h : ScriptNamed ν ss rs) (h' : ScriptNamed ν ts rs') :
    ScriptNamed ν (ss ++ ts) (rs ++ rs') := by
  intro width d
  rw [Script.bodyPieces_append, Script.namesOf_append]
  exact (h width d).append (h' width d)

theorem ScriptNamed.of_pieces {s : Script.Stmt}
    (h : ∀ width d, Named ν (namesOf (s.pieces width d)) rs) : ScriptNamed ν [s] rs := by
  intro width d
  rw [Script.bodyPieces, Script.bodyPieces, append_nil]
  exact h width d

/-- what a statement whose range loops are numbered from `n` on asks names for -/
def Stmt.entries (n : Nat) (s : Stmt) : Set (Referent × String) :=
  siteEntries s.sites ∪ (useEntries s.uses ∪ loopEntries n s.loops)

def bodyEntries (n : Nat) (body : List Stmt) : Set (Referent × String) :=
  siteEntries (bodySites body) ∪ (useEntries (bodyUses body) ∪ loopEntries n (bodyLoops body))

def branchEntries (n : Nat) (gs : List (Guarded Stmt)) : Set (Referent × String) :=
  siteEntries (branchSites gs) ∪ (useEntries (branchUses gs) ∪ loopEntries n (branchLoops gs))

theorem bodyEntries_cons (n : Nat) (s : Stmt) (ss : List Stmt) :
    bodyEntries n (s :: ss) = s.entries n ∪ bodyEntries (n + s.loops) ss := by
  simp only [bodyEntries, Stmt.entries, bodySites, bodyUses, bodyLoops, siteEntries_append,
    useEntries_append, loopEntries_add]
  ac_rfl

def Stmt.memberSites : Stmt → List Site
  | .declare constant ds _ => ds.map (.variable constant)
  | .function h _ => [.function h]
  | _ => []

theorem Stmt.memberSites_subset (s : Stmt) (n : Nat) : siteEntries s.memberSites ⊆ s.entries n := by
  rintro e ⟨d, hd, rfl⟩
  refine .inl ⟨d, ?_, rfl⟩
  cases s with
  | declare constant ds values => exact hd
  | function h body => exact mem_cons.mpr (.inl (mem_singleton.mp hd))
  | _ => exact nomatch hd

theorem Stmt.gives_memberNames (s : Stmt) (n : Nat) :
    Gives s.memberNames n n (siteEntries s.memberSites) fun ν names =>
      Named ν names.1 (fieldReferents [s]) ∧ Named ν names.2 (methodReferents [s]) := by
  cases s with
  | declare constant ds values =>
    refine Gives.of_eq ((gives_declarators constant ds n).bind fun names =>
      .pure fun ν hnames => ⟨?_, .nil⟩) (Set.union_empty _).symm
    rw [fieldReferents, fieldReferents, append_nil]
    exact hnames
  | function h body =>
    refine Gives.of_eq ((gives_declaration h.id h.name n).bind fun s =>
      .pure fun ν hs => ⟨.nil, .cons hs .nil⟩) ?_
    simp [Stmt.memberSites, Site.referent, Site.id, Site.name]
  | _ => exact Gives.of_eq (.pure fun ν => ⟨.nil, .nil⟩) siteEntries_nil

theorem fieldReferents_cons (s : Stmt) (ss : List Stmt) :
    fieldReferents (s :: ss) = fieldReferents [s] ++ fieldReferents ss := by
  cases s with
  | declare constant ds values => rw [fieldReferents, fieldReferents, fieldReferents, append_nil]
  | _ => rfl

theorem methodReferents_cons (s : Stmt) (ss : List Stmt) :
    methodReferents (s :: ss) = methodReferents [s] ++ methodReferents ss := by
  cases s <;> rfl

theorem ScriptNamed.constructor {ps : List Script.Param} {parameters fs ms : List Referent}
    (hs : ν r = some s) (hps : Named ν ((ps.map Script.Param.pieces).flatMap namesOf) parameters)
    (hfields : Named ν fields fs) (hmethods : Named ν methods ms) :
    ScriptNamed ν (.constructor s ps fields :: methods.map (.attach s))
      (classReferents r parameters fs ms) := by
  intro width d
  have hcopies : namesOf (fields.flatMap fun f => Script.linePieces width (d + 1)
      [.plain "this.", .name f, .plain " = ", .name f, .plain ";"])
        = fields.flatMap fun f => [f, f] := by
    clear hfields
    induction fields with
    | nil => rfl
    | cons f fields ih => rw [flatMap_cons, Script.namesOf_append, ih]; simp
  have hattached : namesOf (Script.bodyPieces width d (methods.map (.attach s)))
      = methods.flatMap fun m => [s, m, m] := by
    clear hmethods
    induction methods with
    | nil => rfl
    | cons m methods ih =>
      rw [map_cons, Script.bodyPieces, Script.namesOf_append, ih]
      simp [Script.Stmt.pieces]
  have hnames : namesOf (Script.bodyPieces width d (.constructor s ps fields :: methods.map (.attach s)))
      = s :: ((ps.map Script.Param.pieces).flatMap namesOf ++
          (fields.flatMap (fun f => [f, f]) ++ methods.flatMap fun m => [s, m, m])) := by
    rw [Script.bodyPieces, Script.namesOf_append, hattached, Script.Stmt.pieces]
    simp [hcopies]
  rw [hnames]
  refine .cons hs (hps.append ((hfields.flatMap ?_).append (hmethods.flatMap ?_)))
  · exact fun f r' hr' => .cons hr' (.cons hr' .nil)
  · exact fun m r' hr' => .cons hs (.cons hr' (.cons hr' .nil))

mutual

theorem Stmt.gives_lower (s : Stmt) (n : Nat) :
    Gives s.lower n (n + s.loops) (s.entries n) fun ν ss => ScriptNamed ν ss (s.referents n) := by
  cases s with
  | expression e | print e =>
    rw [Stmt.lower]
    refine Gives.of_eq ((e.gives_lower n).bind fun e' => .pure fun ν he => .of_pieces fun w d => ?_) ?_
    · simpa [Script.Stmt.pieces, Stmt.referents] using he
    · simp [Stmt.entries, Stmt.sites, Stmt.uses, Stmt.loops]
  | declare constant ds values =>
    rw [Stmt.lower]
    refine Gives.of_eq ((gives_declarators constant ds n).bind fun names =>
      (Expr.gives_lowerAll values n).bind fun values' => .pure fun ν hvalues hnames =>
        .of_pieces fun w d => ?_) ?_
    · simpa [Script.Stmt.pieces, Stmt.referents] using hnames.append hvalues
    · simp [Stmt.entries, Stmt.sites, Stmt.uses, Stmt.loops]
  | assign targets values =>
    rw [Stmt.lower]
    refine Gives.of_eq ((Expr.gives_lowerAll targets n).bind fun targets' =>
      (Expr.gives_lowerAll values n).bind fun values' => .pure fun ν hvalues htargets =>
        .of_pieces fun w d => ?_) ?_
    · simpa [Script.Stmt.pieces, Stmt.referents] using htargets.append hvalues
    · simp [Stmt.entries, Stmt.sites, Stmt.uses, Stmt.loops]
  | function h body =>
    rw [Stmt.lower]
    refine Gives.of_eq ((gives_declaration h.id h.name n).bind fun s =>
      (gives_parameters h.parameters n).bind fun ps => (gives_lowerBody body n).bind fun body' =>
        .pure fun ν hbody hps hs => .of_pieces fun w d => ?_) ?_
    · simpa [Script.Stmt.pieces, Stmt.referents] using Named.cons hs (hps.append (hbody w (d + 1)))
    · simp only [Stmt.entries, bodyEntries, Stmt.sites, Stmt.uses, Stmt.loops, siteEntries_cons,
        siteEntries_append, useEntries_append, Set.union_empty, Site.referent, Site.id, Site.name]
      ac_rfl
  | classDef h body =>
    rw [Stmt.lower]
    refine Gives.of_eq ((gives_declaration h.id h.name n).bind fun s =>
      (gives_parameters h.parameters n).bind fun ps => (gives_lowerMembers body n).bind fun members =>
        .pure fun ν hmembers hps hs => ?_) ?_
    · exact hmembers.1.append (.constructor hs hps hmembers.2.1 hmembers.2.2)
    · simp only [Stmt.entries, bodyEntries, Stmt.sites, Stmt.uses, Stmt.loops, siteEntries_cons,
        siteEntries_append, useEntries_append, Set.union_empty, Site.referent, Site.id, Site.name]
      ac_rfl
  | conditional branches otherwise =>
    cases otherwise with
    | none =>
      rw [Stmt.lower]
      refine Gives.of_eq ((gives_lowerBranches branches n).bind fun gs => .pure fun ν hgs =>
        .of_pieces fun w d => ?_) ?_
      · simpa [Script.Stmt.pieces, Script.otherwisePieces, Stmt.referents, otherwiseReferents]
          using (hgs w d).1 "if ("
      · simp [Stmt.entries, branchEntries, Stmt.sites, Stmt.uses, Stmt.loops, otherwiseSites,
          otherwiseUses, otherwiseLoops]
    | some body =>
      rw [Stmt.lower, Stmt.loops, otherwiseLoops, ← Nat.add_assoc]
      refine Gives.of_eq ((gives_lowerBranches branches n).bind fun gs =>
        (gives_lowerBody body (n + branchLoops branches)).bind fun body' => .pure fun ν hbody hgs =>
          .of_pieces fun w d => ?_) ?_
      · simpa [Script.Stmt.pieces, Script.otherwisePieces, Stmt.referents, otherwiseReferents]
          using ((hgs w d).1 "if (").append (hbody w (d + 1))
      · simp only [Stmt.entries, branchEntries, bodyEntries, Stmt.sites, Stmt.uses, Stmt.loops,
          otherwiseSites, otherwiseUses, otherwiseLoops, siteEntries_append, useEntries_append,
          loopEntries_add, Set.union_empty]
        ac_rfl
  | whileLoop condition body =>
    rw [Stmt.lower]
    refine Gives.of_eq ((condition.gives_lower n).bind fun c => (gives_lowerBody body n).bind
      fun body' => .pure fun ν hbody hc => .of_pieces fun w d => ?_) ?_
    · simpa [Script.Stmt.pieces, Stmt.referents] using hc.append (hbody w (d + 1))
    · simp only [Stmt.entries, bodyEntries, Stmt.sites, Stmt.uses, Stmt.loops, useEntries_append,
        Set.union_empty]
      ac_rfl
  | forLoop h body =>
    rw [Stmt.lower]
    refine Gives.of_eq ((gives_declaration h.index.id h.index.name n).bind fun index =>
      (h.init.gives_lower n).bind fun init => (h.test.gives_lower n).bind fun test =>
        (gives_symbol h.target n).bind fun target => (Update.gives_lower h.update n).bind fun update =>
          (gives_lowerBody body n).bind fun body' =>
            .pure fun ν hbody hupdate htarget htest hinit hindex => .of_pieces fun w d => ?_) ?_
    · have hhead := (hupdate target h.target.referent htarget).append (hbody w (d + 1))
      simpa [Script.Stmt.pieces, Script.forPieces, Stmt.referents, Declarator.referent]
        using Named.cons hindex (hinit.append (htest.append hhead))
    · simp only [Stmt.entries, bodyEntries, Stmt.sites, Stmt.uses, ForHead.uses, Stmt.loops,
        siteEntries_cons, useEntries_append, useEntries_cons, Set.union_empty, Site.referent, Site.id,
        Site.name]
      ac_rfl
  | rangeLoop start stop body =>
    rw [Stmt.lower, Stmt.loops, ← Nat.add_assoc]
    refine Gives.of_eq ((start.gives_lower n).bind fun first => (stop.gives_lower n).bind fun last =>
      (gives_fresh n).bind fun index => (gives_lowerBody body (n + 1)).bind fun body' =>
        .pure fun ν hbody hindex hlast hfirst => .of_pieces fun w d => ?_) ?_
    · simpa [Script.Stmt.pieces, Script.forPieces, Script.updatePieces, Script.Expr.pieces,
          Stmt.referents]
        using Named.cons hindex (hfirst.append (.cons hindex (hlast.append (.cons hindex
          (hbody w (d + 1))))))
    · simp only [Stmt.entries, bodyEntries, Stmt.sites, Stmt.uses, Stmt.loops, useEntries_append,
        loopEntries_add, loopEntries_one, Set.union_empty]
      ac_rfl
  | switch scrutinee cases otherwise =>
    -- a literal or a name is lowered for its name only and leaves no text
    have heval : ∀ (ν : Referent → Option String) (e : Script.Expr),
        Named ν (namesOf e.pieces) scrutinee.referents →
        ScriptNamed ν (Stmt.lower.evaluation scrutinee e)
          (if scrutinee.isAtom then [] else scrutinee.referents) := by
      intro ν e he
      unfold Stmt.lower.evaluation
      split
      · exact fun _ _ => .nil
      · exact .of_pieces fun w d => by simpa [Script.Stmt.pieces] using he
    cases otherwise with
    | none =>
      rw [Stmt.lower]
      refine Gives.of_eq ((scrutinee.gives_lower n).bind fun e => (gives_lowerBranches cases n).bind
        fun gs => .pure fun ν hgs he => (heval ν e he).append (.of_pieces fun w d => ?_)) ?_
      · simpa [Script.Stmt.pieces, Script.defaultPieces, otherwiseReferents] using (hgs w (d + 1)).2
      · simp [Stmt.entries, branchEntries, Stmt.sites, Stmt.uses, Stmt.loops, otherwiseSites,
          otherwiseUses, otherwiseLoops]
        ac_rfl
    | some body =>
      rw [Stmt.lower, Stmt.loops, otherwiseLoops, ← Nat.add_assoc]
      refine Gives.of_eq ((scrutinee.gives_lower n).bind fun e => (gives_lowerBranches cases n).bind
        fun gs => (gives_lowerBody body (n + branchLoops cases)).bind fun body' =>
          .pure fun ν hbody hgs he => (heval ν e he).append (.of_pieces fun w d => ?_)) ?_
      · simpa [Script.Stmt.pieces, Script.defaultPieces, otherwiseReferents]
          using (hgs w (d + 1)).2.append (hbody w (d + 1 + 1))
      · simp only [Stmt.entries, branchEntries, bodyEntries, Stmt.sites, Stmt.uses, Stmt.loops,
          otherwiseSites, otherwiseUses, otherwiseLoops, siteEntries_append, useEntries_append,
          loopEntries_add, Set.union_empty]
        ac_rfl
  | breakLoop | continueLoop =>
    rw [Stmt.lower]
    exact Gives.of_eq (.pure fun ν => .of_pieces fun w d => .nil)
      (by simp [Stmt.entries, Stmt.sites, Stmt.uses, Stmt.loops])
  | returnValue value =>
    cases value with
    | none =>
      rw [Stmt.lower]
      exact Gives.of_eq (.pure fun ν => .of_pieces fun w d => .nil)
        (by simp [Stmt.entries, Stmt.sites, Stmt.uses, Stmt.loops, Expr.usesAll])
    | some e =>
      rw [Stmt.lower]
      refine Gives.of_eq ((e.gives_lower n).bind fun e' => .pure fun ν he =>
        .of_pieces fun w d => ?_) ?_
      · simpa [Script.Stmt.pieces, Stmt.referents, Expr.allReferents, Expr.usesAll, Expr.referents]
          using he
      · simp [Stmt.entries, Stmt.sites, Stmt.uses, Stmt.loops, Expr.usesAll]
  | block body =>
    rw [Stmt.lower]
    refine Gives.of_eq ((gives_lowerBody body n).bind fun body' => .pure fun ν hbody =>
      .of_pieces fun w d => ?_) (Set.union_empty _).symm
    simpa [Script.Stmt.pieces, Stmt.referents] using hbody w (d + 1)

theorem gives_lowerBody (body : List Stmt) (n : Nat) :
    Gives (lowerBody body) n (n + bodyLoops body) (bodyEntries n body)
      fun ν ss => ScriptNamed ν ss (bodyReferents n body) := by
  cases body with
  | nil =>
    rw [lowerBody]
    exact Gives.of_eq (.pure fun ν _ _ => .nil) (by simp [bodyEntries, bodySites, bodyUses, bodyLoops])
  | cons s ss =>
    rw [lowerBody, bodyLoops, ← Nat.add_assoc]
    refine Gives.of_eq ((s.gives_lower n).bind fun first =>
      (gives_lowerBody ss (n + s.loops)).bind fun others => .pure fun ν hss hs => hs.append hss) ?_
    rw [bodyEntries_cons, Set.union_empty]

theorem gives_lowerBranches (gs : List (Guarded Stmt)) (n : Nat) :
    Gives (lowerBranches gs) n (n + branchLoops gs) (branchEntries n gs) fun ν gs' =>
      ∀ width d, (∀ opening, Named ν (namesOf (Script.branchPieces width d opening gs'))
          (branchReferents n gs)) ∧
        Named ν (namesOf (Script.casePieces width d gs')) (branchReferents n gs) := by
  cases gs with
  | nil =>
    rw [lowerBranches]
    exact Gives.of_eq (.pure fun ν _ _ => ⟨fun _ => .nil, .nil⟩)
      (by simp [branchEntries, branchSites, branchUses, branchLoops])
  | cons g gs =>
    obtain ⟨guard, body⟩ := g
    rw [lowerBranches, branchLoops, ← Nat.add_assoc]
    refine Gives.of_eq ((guard.gives_lower n).bind fun guard' => (gives_lowerBody body n).bind
      fun body' => (gives_lowerBranches gs (n + bodyLoops body)).bind fun gs' =>
        .pure fun ν hgs hbody hguard w d => ⟨fun opening => ?_, ?_⟩) ?_
    · simpa [Script.branchPieces, branchReferents] using hguard.append
        ((hbody w (d + 1)).append ((hgs w d).1 _))
    · simpa [Script.casePieces, branchReferents] using hguard.append ((hbody w (d + 1)).append (hgs w d).2)
    · simp only [branchEntries, bodyEntries, branchSites, branchUses, branchLoops, siteEntries_append,
        useEntries_append, loopEntries_add, Set.union_empty]
      ac_rfl

theorem gives_lowerMembers (body : List Stmt) (n : Nat) :
    Gives (lowerMembers body) n (n + bodyLoops body) (bodyEntries n body) fun ν members =>
      ScriptNamed ν members.1 (bodyReferents n body) ∧ Named ν members.2.1 (fieldReferents body) ∧
        Named ν members.2.2 (methodReferents body) := by
  cases body with
  | nil =>
    rw [lowerMembers]
    exact Gives.of_eq (.pure fun ν => ⟨fun _ _ => .nil, .nil, .nil⟩)
      (by simp [bodyEntries, bodySites, bodyUses, bodyLoops])
  | cons s ss =>
    rw [lowerMembers, bodyLoops, ← Nat.add_assoc]
    refine Gives.of_eq ((s.gives_memberNames n).bind fun names => (s.gives_lower n).bind fun first =>
      (gives_lowerMembers ss (n + s.loops)).bind fun members =>
        .pure fun ν hmembers hfirst hnames => ?_) ?_
    · rw [fieldReferents_cons, methodReferents_cons]
      exact ⟨hfirst.append hmembers.1, hnames.1.append hmembers.2.1, hnames.2.append hmembers.2.2⟩
    · rw [bodyEntries_cons, Set.union_empty, ← Set.union_assoc,
        Set.union_eq_self_of_subset_left (s.memberSites_subset n)]

end

end TypedScript
