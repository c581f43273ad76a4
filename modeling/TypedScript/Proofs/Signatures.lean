import TypedScript.Proofs.Nodes
import TypedScript.Proofs.TypeNames

/-!
# The two signatures of a function

The signature of a function is found twice: where its list starts, for those who use the function, and
where its statement stands, for its body.  Classes that the list declares in between are in sight for the
second one only, and may hide those that the first one named.

* `type_of_use`: uses have the signature from the start of the list;
* `function_of_analyse`: the statement has the signature from where it stands.
-/

namespace TypedScript

open List

/-! ## classes of a list -/

variable {Γ : Sight} {ids : List (Option DeclId)}

/-- no type in sight mentions one of the identities -/
def Sight.Apart (ids : List (Option DeclId)) (Γ : Sight) : Prop :=
  ∀ e ∈ Γ, ∀ id, e.2.Mentions id → some id ∉ ids

/-- the identities are distinct, and new to those in sight -/
structure Sight.Fresh (ids : List (Option DeclId)) (Γ : Sight) : Prop where
  nodup : ids.Nodup
  apart : Γ.Apart ids

theorem Sight.Fresh.sublist {ids' : List (Option DeclId)} (h : Γ.Fresh ids)
    (hids : ids'.Sublist ids) : Γ.Fresh ids' where
  nodup := h.nodup.sublist hids
  apart e he id hid hmem := h.apart e he id hid (hids.subset hmem)

theorem Sight.Fresh.append {Δ : Sight} (h : Γ.Fresh ids)
    (hΔ : Δ.Apart ids) : (Δ ++ Γ).Fresh ids where
  nodup := h.nodup
  apart e he := (mem_append.mp he).elim (hΔ e) (h.apart e)

theorem ClassHead.mentions_sight {h : ClassHead} (he : e ∈ h.sight) :
    ∃ id, h.id = some id ∧ e.1 = h.name ∧ ∀ i, e.2.Mentions i ↔ i = id := by
  obtain ⟨id, hid, rfl⟩ := mem_map.mp he
  exact ⟨id, Option.mem_toList.mp hid, rfl, fun i => eq_comm⟩

mutual

theorem Stmt.mentions_classes {s : Stmt} (he : e ∈ s.classes) :
    ∃ id, some id ∈ s.sites.map Site.id ∧ ∀ i, e.2.Mentions i ↔ i = id := by
  match s, he with
  | .classDef h body, he =>
    rw [Stmt.sites, map_cons, map_append]
    rcases mem_append.mp he with he | he
    · obtain ⟨id, hid, hmentions⟩ := bodyMentions_classes he
      exact ⟨id, mem_cons_of_mem _ (mem_append_right _ hid), hmentions⟩
    · obtain ⟨id, hid, _, hmentions⟩ := ClassHead.mentions_sight he
      exact ⟨id, hid ▸ mem_cons_self, hmentions⟩

theorem bodyMentions_classes (he : e ∈ bodyClasses ss) :
    ∃ id, some id ∈ siteIds ss ∧ ∀ i, e.2.Mentions i ↔ i = id := by
  match ss, he with
  | s :: ss, he =>
    rw [siteIds, bodySites, map_append]
    rcases mem_append.mp he with he | he
    · obtain ⟨id, hid, hmentions⟩ := bodyMentions_classes he
      exact ⟨id, mem_append_right _ hid, hmentions⟩
    · obtain ⟨id, hid, hmentions⟩ := Stmt.mentions_classes he
      exact ⟨id, mem_append_left _ hid, hmentions⟩

end

theorem siteIds_append (ss ss' : List Stmt) : siteIds (ss ++ ss') = siteIds ss ++ siteIds ss' := by
  induction ss with
  | nil => rfl
  | cons s ss ih =>
    unfold siteIds at ih ⊢
    rw [cons_append, bodySites, bodySites, map_append, map_append, ih, append_assoc]

theorem siteIds_cons (s : Stmt) (ss : List Stmt) :
    siteIds (s :: ss) = s.sites.map Site.id ++ siteIds ss := map_append

theorem bodyClasses_apart (h : (siteIds ss).Disjoint ids) : Sight.Apart ids (bodyClasses ss) := by
  intro e he id hid hmem
  obtain ⟨i, hi, hmentions⟩ := bodyMentions_classes he
  rw [(hmentions id).mp hid] at hmem
  exact h hi hmem

mutual

theorem Stmt.start_apart {Γ : Sight} {s : Stmt} (h : Γ.Fresh (s.sites.map Site.id)) :
    ∀ P ∈ s.places Γ, P.start.Apart (siteIds P.before) := by
  match s, h with
  | .function head body, h =>
    exact @bodyStart_apart _ [] body (h.sublist (((sublist_append_right _ _).cons _).map Site.id))
  | .classDef head body, h =>
    have hbody := h.sublist (((sublist_append_right _ _).cons _).map Site.id)
    refine @bodyStart_apart _ [] body (hbody.append fun e he id hid hmem => ?_)
    obtain ⟨i, hi, _, hmentions⟩ := ClassHead.mentions_sight he
    rw [(hmentions id).mp hid, ← hi] at hmem
    refine (nodup_cons.mp h.nodup).1 ?_
    rw [map_append]
    exact mem_append_right _ hmem
  | .conditional branches otherwise, h | .switch scrutinee cases otherwise, h =>
    intro P hP
    rcases mem_append.mp hP with hP | hP
    · exact branchStart_apart (h.sublist ((sublist_append_left _ _).map Site.id)) P hP
    · exact otherwiseStart_apart (h.sublist ((sublist_append_right _ _).map Site.id)) P hP
  | .whileLoop condition body, h | .rangeLoop start stop body, h | .block body, h =>
    exact @bodyStart_apart _ [] body h
  | .forLoop head body, h =>
    exact @bodyStart_apart _ [] body (h.sublist ((sublist_cons_self _ _).map Site.id))
  | .expression _, _ | .declare _ _ _, _ | .assign _ _, _ | .breakLoop, _ | .continueLoop, _
  | .returnValue _, _ | .print _, _ => exact nofun

/-- what is in sight at the start of a list does not mention the classes before a place of the list -/
theorem bodyStart_apart {Γ : Sight} {before body : List Stmt} (h : Γ.Fresh (siteIds (before ++ body))) :
    ∀ P ∈ bodyPlaces Γ before body, P.start.Apart (siteIds P.before) := by
  match body, h with
  | [], _ => exact nofun
  | s :: ss, h =>
    have hsplit : siteIds (before ++ s :: ss)
        = siteIds before ++ (s.sites.map Site.id ++ siteIds ss) := by
      rw [siteIds_append, siteIds_cons]
    have hparts := hsplit ▸ h
    intro P hP
    rcases mem_cons.mp hP with rfl | hP
    · exact (hparts.sublist (sublist_append_left _ _)).apart
    · rcases mem_append.mp hP with hP | hP
      · have hs := hparts.sublist ((sublist_append_left _ _).trans (sublist_append_right _ _))
        refine Stmt.start_apart (hs.append (bodyClasses_apart fun i hi hi' => ?_)) P hP
        exact disjoint_of_nodup_append hparts.nodup hi (mem_append_left _ hi')
      · have hnext : Γ.Fresh (siteIds (before ++ [s] ++ ss)) := by
          rw [append_assoc]
          exact h
        exact bodyStart_apart hnext P hP

theorem branchStart_apart {Γ : Sight} (h : Γ.Fresh ((branchSites gs).map Site.id)) :
    ∀ P ∈ branchPlaces Γ gs, P.start.Apart (siteIds P.before) := by
  match gs, h with
  | [], _ => exact nofun
  | ⟨guard, body⟩ :: gs, h =>
    intro P hP
    rcases mem_append.mp hP with hP | hP
    · exact @bodyStart_apart _ [] body (h.sublist ((sublist_append_left _ _).map Site.id)) P hP
    · exact branchStart_apart (h.sublist ((sublist_append_right _ _).map Site.id)) P hP

theorem otherwiseStart_apart {Γ : Sight} (h : Γ.Fresh ((otherwiseSites o).map Site.id)) :
    ∀ P ∈ otherwisePlaces Γ o, P.start.Apart (siteIds P.before) := by
  match o, h with
  | none, _ => exact nofun
  | some body, h => exact @bodyStart_apart _ [] body h

end

/-! ## places of functions -/

def Stmt.functionId? : Stmt → Option (Option DeclId)
  | .function h _ => some h.id
  | _ => none

def functionIds (L : List Stmt.Place) : List (Option DeclId) :=
  L.flatMap (·.statement.functionId?.toList)

theorem functionIds_append (L L' : List Stmt.Place) :
    functionIds (L ++ L') = functionIds L ++ functionIds L' := flatMap_append

mutual

theorem Stmt.functionIds_sublist (Γ : Sight) (s : Stmt) :
    (s.functionId?.toList ++ functionIds (s.places Γ)).Sublist (s.sites.map Site.id) := by
  match s with
  | .function head body =>
    refine List.Sublist.cons_cons _ ((bodyFunctionIds_sublist Γ [] body).trans ?_)
    exact (sublist_append_right _ _).map Site.id
  | .classDef head body =>
    refine (bodyFunctionIds_sublist _ [] body).trans ?_
    exact ((sublist_append_right _ _).cons _).map Site.id
  | .conditional branches otherwise =>
    rw [Stmt.places, Stmt.sites, functionIds_append, map_append]
    exact (branchFunctionIds_sublist Γ branches).append (otherwiseFunctionIds_sublist Γ otherwise)
  | .whileLoop condition body | .rangeLoop start stop body | .block body =>
    exact bodyFunctionIds_sublist Γ [] body
  | .forLoop head body => exact (bodyFunctionIds_sublist Γ [] body).cons _
  | .switch scrutinee cases otherwise =>
    rw [Stmt.places, Stmt.sites, functionIds_append, map_append]
    exact (branchFunctionIds_sublist Γ cases).append (otherwiseFunctionIds_sublist Γ otherwise)
  | .expression _ | .declare _ _ _ | .assign _ _ | .breakLoop | .continueLoop | .returnValue _
  | .print _ => exact nil_sublist _

theorem bodyFunctionIds_sublist (Γ : Sight) (before body : List Stmt) :
    (functionIds (bodyPlaces Γ before body)).Sublist (siteIds body) := by
  match body with
  | [] => exact nil_sublist _
  | s :: ss =>
    rw [siteIds_cons, bodyPlaces, functionIds, flatMap_cons, flatMap_append,
      ← append_assoc]
    exact (Stmt.functionIds_sublist _ s).append (bodyFunctionIds_sublist Γ (before ++ [s]) ss)

theorem branchFunctionIds_sublist (Γ : Sight) (gs : List (Guarded Stmt)) :
    (functionIds (branchPlaces Γ gs)).Sublist ((branchSites gs).map Site.id) := by
  match gs with
  | [] => exact nil_sublist _
  | ⟨guard, body⟩ :: gs =>
    rw [branchPlaces, branchSites, functionIds_append, map_append]
    exact (bodyFunctionIds_sublist Γ [] body).append (branchFunctionIds_sublist Γ gs)

theorem otherwiseFunctionIds_sublist (Γ : Sight) (o : Option (List Stmt)) :
    (functionIds (otherwisePlaces Γ o)).Sublist ((otherwiseSites o).map Site.id) := by
  match o with
  | none => exact nil_sublist _
  | some body => exact bodyFunctionIds_sublist Γ [] body

end

section programs

variable {p q : Program} {P Q : Stmt.Place} {head : FunctionHead} {body : List Stmt} {id : DeclId}

theorem Stmt.Place.eq_of_function (hq : (siteIds q).Nodup) (hP : P ∈ placesOf Scope.root q)
    (hQ : Q ∈ placesOf Scope.root q) (hs : P.statement = .function head body)
    (hs' : Q.statement = .function head' body') (hid : head'.id = head.id) : Q = P := by
  have hids : (functionIds (placesOf Scope.root q)).Nodup :=
    hq.sublist (bodyFunctionIds_sublist Scope.root.sight [] q)
  have hdisjoint := (nodup_flatMap.mp hids).2
  have : Std.Symm (Function.onFun List.Disjoint fun R : Stmt.Place => R.statement.functionId?.toList) :=
    ⟨fun _ _ h => h.symm⟩
  by_contra hne
  have hcommon : head.id ∈ Q.statement.functionId?.toList := by
    rw [hs', ← hid]
    exact mem_cons_self
  have hcommon' : head.id ∈ P.statement.functionId?.toList := by
    rw [hs]
    exact mem_cons_self
  exact hdisjoint.forall hQ hP hne hcommon hcommon'

theorem function_mem_bodySites (hP : P ∈ placesOf Scope.root q)
    (hs : P.statement = .function head body) : .function head ∈ bodySites q := by
  refine bodySites_of_places hP _ ?_
  rw [hs]
  exact mem_cons_self

theorem Site.eq_of_id (hq : (siteIds q).Nodup) (hd : d ∈ bodySites q) (hd' : d' ∈ bodySites q)
    (hid : d.id = some id) (hid' : d'.id = some id) : d = d' :=
  inj_on_of_nodup_map hq hd hd' (hid.trans hid'.symm)

/-! ## uses of a function -/

variable {x : String} {s : Scope}

/-- the name that a node uses, with the type recorded for it -/
def Expr.use? : Expr → Option (Symbol × Option Ty)
  | .name x t => some (x, t)
  | .member _ x t => some (x, t)
  | _ => none

theorem Scope.Known.function {b : Binding} (h : Scope.root.Known (placesOf Scope.root q) Γ s)
    (hq : (siteIds q).Nodup) (hP : P ∈ placesOf Scope.root q) (hs : P.statement = .function head body)
    (hid : head.id = some id) (hb : s.findVariable? x = some b) (hr : b.resolution = .declared id) :
    ∃ f, head.signatureAt? P.start = some f ∧ b.type = f.type := by
  have hsite := function_mem_bodySites hP hs
  rcases h.vars x b hb with hroot | ⟨Q, hQ, hdeclares⟩
  · cases @Scope.Records.vars [] _ records_root x b hroot with
    | «variable» hd | parameter hd | function hd => exact nomatch hd
    | builtin _ _ => exact nomatch hr
  · have hat := h.records.vars x b hb
    cases hdeclares with
    | function hs' hid' hf =>
      cases hr
      cases Stmt.Place.eq_of_function hq hP hQ hs hs' (hid'.trans hid.symm)
      cases hs.symm.trans hs'
      exact ⟨_, hf, rfl⟩
    | «variable» | index =>
      cases hat with
      | «variable» hd _ hid' _ =>
        cases hr
        exact nomatch Site.eq_of_id hq hd hsite hid' hid
    | parameter =>
      cases hat with
      | parameter hd _ hid' _ =>
        cases hr
        exact nomatch Site.eq_of_id hq hd hsite hid' hid

theorem Scope.Known.not_class (h : Scope.root.Known (placesOf Scope.root q) Γ s) (hq : (siteIds q).Nodup)
    (hsite : .function head ∈ bodySites q) (hid : head.id = some id) (hb : s.findClass? x = some b) :
    b.resolution ≠ .declared id := by
  intro hr
  cases h.records.classes x b hb with
  | primitive _ => exact nomatch hr
  | declared hd _ hid' _ =>
    cases hr
    exact nomatch Site.eq_of_id hq hd hsite hid' hid

theorem type_of_use (hq : (siteIds q).Nodup) (hP : P ∈ placesOf Scope.root q)
    (hs : P.statement = .function head body) (hid : head.id = some id) (hQ : Q ∈ placesOf Scope.root q)
    (haccepted : Q.Accepted Scope.root (placesOf Scope.root q)) {x : Symbol} (he : e ∈ Q.nodes)
    (huse : e.use? = some (x, t)) (hx : x.resolution = some (.declared id)) :
    ∃ f, head.signatureAt? P.start = some f ∧ t = some f.type := by
  obtain ⟨Γ, s, hknown, ⟨e₀, u, hnode⟩ | ⟨y, b, hb, rfl⟩⟩ := haccepted.node hQ he
  · cases hnode with
    | name hb | member _ hb =>
      cases huse
      obtain ⟨f, hf, htype⟩ := hknown.function hq hP hs hid hb (Option.some.inj hx)
      exact ⟨f, hf, congrArg some htype⟩
    | _ => exact nomatch huse
  · cases huse
    have hsite := function_mem_bodySites hP hs
    exact absurd (Option.some.inj hx) (hknown.not_class hq hsite hid hb)

/-! ## the statement of a function -/

/-- the signature that the statement of a function has: the types and defaults recorded on its
parameters, the type that its returns were checked against, and its async mark -/
structure FunctionHead.Signed (D : List Site) (here : Sight) (head : FunctionHead) (body : List Stmt)
    (f : Signature) : Prop where
  recorded : head.parameters.map Parameter.param? = f.params.map some
  returns : head.returnsAt? here = some f.returns
  checked : bodyTyped True D (some f.returns) body
  async : f.async = head.async

theorem function_of_analyse (h : analyse Scope.root p = .ok q) (hP : P ∈ placesOf Scope.root q)
    (hs : P.statement = .function head body) :
    ∃ f, head.signatureAt? P.here = some f ∧ head.Signed (bodySites q) P.here body f := by
  obtain ⟨c, s, c', haccepted, hc⟩ := places_of_analyse h P hP
  have hsites := bodySites_of_places hP
  rw [hs] at haccepted hsites
  cases haccepted with
  | @function _ c₁ c₂ h _ _ ps ps₁ ps₂ params r hps hr hps₁ hps₂ hbody =>
    have hparameters : ∀ p ∈ ps₂, .parameter p ∈ bodySites q := fun p hp =>
      hsites _ (mem_cons_of_mem _ (mem_append_left _ (mem_map.mpr ⟨p, hp, rfl⟩)))
    obtain ⟨_, hkeeps⟩ := parameters_typed hc.records hc.records
      (hc.records.enter (some ⟨params, r, h.async⟩) false) hps hps₁ hps₂ hparameters (.inl trivial)
    obtain ⟨htyped, _⟩ := hbody.typed hkeeps.records
      (fun d hd => hsites d (mem_cons_of_mem _ (mem_append_right _ hd))) (.inl trivial)
    rw [hkeeps.around] at htyped
    have hsame : h.SameText { h with parameters := ps₂ } :=
      ⟨rfl, rfl, rfl, rfl, hps₂.outline.trans (hps₁.outline.trans hps.outline)⟩
    refine ⟨⟨params, r, h.async⟩, ?_, hps₂.params (hps₁.params.trans hps.params), ?_, htyped, rfl⟩
    · rw [hsame.signatureAt?]
      exact FunctionHead.signatureAt?_of_resolved hc.types hps hr
    · exact FunctionHead.returnsAt?_of_returnType hc.types hr

/-! ## programs -/

theorem root_sight_fresh (hq : (siteIds q).Nodup) : Scope.root.sight.Fresh (siteIds q) where
  nodup := hq
  apart e he id hid := by
    have hnone : ∀ e ∈ primitives, ¬ e.2.Mentions id := by simp [primitives, Ty.Mentions]
    exact absurd hid (hnone e he)

theorem exists_id_of_analyse (h : analyse Scope.root p = .ok q) (hd : d ∈ bodySites q) :
    ∃ id, d.id = some id := by
  have hmem : d.id ∈ interval 1 (bodyTaken p) :=
    (perm_siteIds_of_analyse h).subset (mem_map.mpr ⟨d, hd, rfl⟩)
  obtain ⟨id, _, hid⟩ := mem_map.mp hmem
  exact ⟨id, hid.symm⟩

end programs

/-- The statement of a function has one signature.  Those who use the function see it exactly if no
class that is named in the function's types is declared before it in its list. -/
theorem analyse_uses_signed_iff_not_hidden {p q : Program} (h : analyse Scope.root p = .ok q) :
    ∀ P ∈ placesOf Scope.root q, ∀ head body, P.statement = .function head body →
      ∃ id f, head.id = some id ∧ head.Signed (bodySites q) P.here body f ∧
        ∀ Q ∈ placesOf Scope.root q, ∀ e ∈ Q.nodes, ∀ x t, e.use? = some (x, t) →
          x.resolution = some (.declared id) →
          (t = some f.type ↔ ∀ n ∈ head.typeNames, n ∉ (bodyClasses P.before).map Prod.fst) := by
  intro P hP head body hs
  have hids := nodup_siteIds_of_analyse h
  have hsite := function_mem_bodySites hP hs
  obtain ⟨id, hid⟩ := exists_id_of_analyse h hsite
  obtain ⟨f, hf, hsigned⟩ := function_of_analyse h hP hs
  refine ⟨id, f, hid, hsigned, fun Q hQ e he x t huse hx => ?_⟩
  obtain ⟨g, hg, rfl⟩ := type_of_use hids hP hs hid hQ (places_of_analyse h Q hQ) he huse hx
  have hnew : ∀ e ∈ bodyClasses P.before,
      ∃ id, e.2.Mentions id ∧ ∀ e' ∈ P.start, ¬ e'.2.Mentions id := by
    intro e he
    obtain ⟨i, hi, hmentions⟩ := bodyMentions_classes he
    have happart := @bodyStart_apart _ [] q (root_sight_fresh hids) P hP
    exact ⟨i, (hmentions i).mpr rfl, fun e' he' hmem => happart e' he' i hmem hi⟩
  rw [← signatureAt?_append_eq_iff hnew hg hf]
  constructor
  · exact fun heq => Signature.type_inj (Option.some.inj heq)
  · rintro rfl
    rfl

/-- `class A { } { f(A()); class B { } fn f(x: A) -> A { return x; } }`: the list declares a class before
the function, but one that its types do not name -/
theorem analyse_uses_signed_iff_not_hidden_class : let a := Ty.classOf 1 "A"
    let use (x : String) := Expr.name (.ofName x) none
    let p : Program :=
      [.classDef ⟨"A", none, []⟩ [],
       .block
         [.expression (.call (use "f") [.call (use "A") [] false false none] false false none),
          .classDef ⟨"B", none, []⟩ [],
          .function ⟨"f", none, [⟨"x", .named "A", none, none, none⟩], some (.named "A"), false⟩
            [.returnValue (some (use "x"))]]]
    let callee := Expr.name ⟨"f", some (.declared 2)⟩ (some (.function [⟨a, false⟩] a false))
    let head : FunctionHead :=
      ⟨"f", some 2, [⟨"x", .named "A", none, some 4, some a⟩], some (.named "A"), false⟩
    let q : Program :=
      [.classDef ⟨"A", some 1, []⟩ [],
       .block
         [.expression (.call callee
            [.call (.name ⟨"A", some (.declared 1)⟩ (some a)) [] false true (some a)] false false (some a)),
          .classDef ⟨"B", some 3, []⟩ [],
          .function head [.returnValue (some (.name ⟨"x", some (.declared 4)⟩ (some a)))]]]
    analyse Scope.root p = .ok q ∧
      ∃ f : Signature, head.parameters.map Parameter.param? = f.params.map some ∧
        callee.type = some f.type := by
  intro a use p callee head q
  have h : analyse Scope.root p = .ok q := by cbv
  obtain ⟨id, f, hid, hsigned, huses⟩ := analyse_uses_signed_iff_not_hidden h _
    (mem_of_getElem? (i := 4) rfl) head _ rfl
  cases hid
  have huse := huses _ (mem_of_getElem? (i := 2) rfl) callee (mem_of_getElem? (i := 1) rfl) _ _
    rfl rfl
  exact ⟨h, f, hsigned.recorded, huse.mpr (by decide)⟩

/-- `class A { } let o = A(); { f(o); class A { } fn f(x: A) { } }` is accepted: the call passes an object
of the first class, and the parameter is one of the second -/
theorem analyse_accepts_hidden_class : let a (id : DeclId) := Ty.classOf id "A"
    let use (x : String) := Expr.name (.ofName x) none
    let ref (x : String) (id : DeclId) (t : Ty) := Expr.name ⟨x, some (.declared id)⟩ (some t)
    let p : Program :=
      [.classDef ⟨"A", none, []⟩ [],
       .declare false [⟨"o", none, none, none⟩] [.call (use "A") [] false false none],
       .block
         [.expression (.call (use "f") [use "o"] false false none),
          .classDef ⟨"A", none, []⟩ [],
          .function ⟨"f", none, [⟨"x", .named "A", none, none, none⟩], none, false⟩ []]]
    let callee := ref "f" 3 (.function [⟨a 1, false⟩] .none false)
    let head : FunctionHead := ⟨"f", some 3, [⟨"x", .named "A", none, some 5, some (a 4)⟩], none, false⟩
    let q : Program :=
      [.classDef ⟨"A", some 1, []⟩ [],
       .declare false [⟨"o", none, some 2, some (a 1)⟩]
         [.call (ref "A" 1 (a 1)) [] false true (some (a 1))],
       .block
         [.expression (.call callee [ref "o" 2 (a 1)] false false (some .none)),
          .classDef ⟨"A", some 4, []⟩ [],
          .function head []]]
    analyse Scope.root p = .ok q ∧
      (∃ P ∈ placesOf Scope.root q, P.statement = .function head []) ∧
      (∃ Q ∈ placesOf Scope.root q, callee ∈ Q.nodes) ∧
      ∀ f : Signature, head.parameters.map Parameter.param? = f.params.map some →
        callee.type ≠ some f.type := by
  intro a use ref p callee head q
  have h : analyse Scope.root p = .ok q := by cbv
  refine ⟨h, ⟨_, mem_of_getElem? (i := 5) rfl, rfl⟩,
    ⟨_, mem_of_getElem? (i := 3) rfl, mem_of_getElem? (i := 1) rfl⟩, ?_⟩
  rintro ⟨params, r, async⟩ hrecorded htype
  cases htype
  exact absurd hrecorded (by decide)

end TypedScript
