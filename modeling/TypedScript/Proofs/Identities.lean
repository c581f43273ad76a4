import TypedScript.Proofs.Resolution

/-!
# Identities of accepted programs

The sites of an accepted program have the identities of an interval, each once.  Numbering gives them
(`perm_siteIds_bodyNumbered`), and neither references nor types touch them.
-/

namespace TypedScript

open List

/-! ## trees without types -/

theorem parameterIds_withoutTypes (ps : List Parameter) :
    ((ps.map Parameter.withoutTypes).map Site.parameter).map Site.id
      = (ps.map Site.parameter).map Site.id := by
  rw [List.map_map, List.map_map, List.map_map]
  rfl

mutual

theorem Stmt.siteIds_withoutTypes (s : Stmt) : s.withoutTypes.sites.map Site.id = s.sites.map Site.id := by
  cases s with
  | declare constant ds values =>
    rw [Stmt.withoutTypes, Stmt.sites, Stmt.sites, List.map_map, List.map_map, List.map_map]
    rfl
  | function h body | classDef h body =>
    rw [Stmt.withoutTypes, Stmt.sites, Stmt.sites, map_cons, map_cons, map_append,
      map_append, parameterIds_withoutTypes, bodySiteIds_withoutTypes body]
    rfl
  | conditional branches otherwise =>
    rw [Stmt.withoutTypes, Stmt.sites, Stmt.sites, map_append, map_append,
      branchSiteIds_withoutTypes branches, otherwiseSiteIds_withoutTypes otherwise]
  | whileLoop condition body | rangeLoop start stop body | block body => exact bodySiteIds_withoutTypes body
  | forLoop h body =>
    rw [Stmt.withoutTypes, Stmt.sites, Stmt.sites, map_cons, map_cons,
      bodySiteIds_withoutTypes body]
    rfl
  | switch scrutinee cases otherwise =>
    rw [Stmt.withoutTypes, Stmt.sites, Stmt.sites, map_append, map_append,
      branchSiteIds_withoutTypes cases, otherwiseSiteIds_withoutTypes otherwise]
  | _ => rfl

theorem bodySiteIds_withoutTypes (body : List Stmt) :
    (bodySites (eachWithoutTypes body)).map Site.id = (bodySites body).map Site.id := by
  cases body with
  | nil => rfl
  | cons s ss =>
    rw [eachWithoutTypes, bodySites, bodySites, map_append, map_append,
      s.siteIds_withoutTypes, bodySiteIds_withoutTypes ss]

theorem branchSiteIds_withoutTypes (gs : List (Guarded Stmt)) :
    (branchSites (branchesWithoutTypes gs)).map Site.id = (branchSites gs).map Site.id := by
  cases gs with
  | nil => rfl
  | cons g gs =>
    obtain ⟨guard, body⟩ := g
    rw [branchesWithoutTypes, branchSites, branchSites, map_append, map_append,
      bodySiteIds_withoutTypes body, branchSiteIds_withoutTypes gs]

theorem otherwiseSiteIds_withoutTypes (o : Option (List Stmt)) :
    (otherwiseSites (otherwiseWithoutTypes o)).map Site.id = (otherwiseSites o).map Site.id := by
  cases o with
  | none => rfl
  | some body => exact bodySiteIds_withoutTypes body

end

/-! ## references -/

theorem parameterIds_resolveIn (Γ : Levels) (ps : List Parameter) :
    ((ps.map (Parameter.resolveIn Γ)).map Site.parameter).map Site.id
      = (ps.map Site.parameter).map Site.id := by
  rw [List.map_map, List.map_map, List.map_map]
  rfl

mutual

theorem Stmt.siteIds_resolveIn (Γ : Levels) (s : Stmt) :
    (s.resolveIn Γ).sites.map Site.id = s.sites.map Site.id := by
  cases s with
  | declare constant ds values =>
    rw [Stmt.resolveIn, Stmt.sites, Stmt.sites, List.map_map, List.map_map, List.map_map]
    rfl
  | function h body | classDef h body =>
    rw [Stmt.resolveIn, Stmt.sites, Stmt.sites, map_cons, map_cons, map_append,
      map_append, parameterIds_resolveIn, bodySiteIds_resolveIn _ body]
    rfl
  | conditional branches otherwise =>
    rw [Stmt.resolveIn, Stmt.sites, Stmt.sites, map_append, map_append,
      branchSiteIds_resolveIn Γ branches, otherwiseSiteIds_resolveIn Γ otherwise]
  | whileLoop condition body | rangeLoop start stop body | block body => exact bodySiteIds_resolveIn _ body
  | forLoop h body =>
    rw [Stmt.resolveIn, Stmt.sites, Stmt.sites, map_cons, map_cons,
      bodySiteIds_resolveIn _ body]
    rfl
  | switch scrutinee cases otherwise =>
    rw [Stmt.resolveIn, Stmt.sites, Stmt.sites, map_append, map_append,
      branchSiteIds_resolveIn Γ cases, otherwiseSiteIds_resolveIn Γ otherwise]
  | _ => rfl

theorem bodySiteIds_resolveIn (Γ : Levels) (body : List Stmt) :
    (bodySites (eachResolveIn Γ body)).map Site.id = (bodySites body).map Site.id := by
  cases body with
  | nil => rfl
  | cons s ss =>
    rw [eachResolveIn, bodySites, bodySites, map_append, map_append, s.siteIds_resolveIn Γ,
      bodySiteIds_resolveIn _ ss]

theorem branchSiteIds_resolveIn (Γ : Levels) (gs : List (Guarded Stmt)) :
    (branchSites (branchesResolveIn Γ gs)).map Site.id = (branchSites gs).map Site.id := by
  cases gs with
  | nil => rfl
  | cons g gs =>
    obtain ⟨guard, body⟩ := g
    rw [branchesResolveIn, branchSites, branchSites, map_append, map_append,
      bodySiteIds_resolveIn _ body, branchSiteIds_resolveIn Γ gs]

theorem otherwiseSiteIds_resolveIn (Γ : Levels) (o : Option (List Stmt)) :
    (otherwiseSites (otherwiseResolveIn Γ o)).map Site.id = (otherwiseSites o).map Site.id := by
  cases o with
  | none => rfl
  | some body => exact bodySiteIds_resolveIn _ body

end

/-! ## programs -/

variable {p q : Program} {root : Scope}

theorem lexical_of_analyse (h : analyse Scope.root p = .ok q) :
    eachWithoutTypes q = bodyResolveIn Levels.root.inner (bodyNumbered 1 p) := by
  obtain ⟨c, hbody⟩ := accepted_of_analyse h
  exact (hbody.lexical (agrees_root.enter none false)).tree

theorem siteIds_of_analyse (h : analyse root p = .ok q) : siteIds q = siteIds (bodyNumbered 1 p) := by
  obtain ⟨c, hbody⟩ := accepted_of_analyse h
  have hroot := (agrees_levels root).enter root.frame.function root.frame.insideLoop
  unfold siteIds
  rw [← bodySiteIds_withoutTypes, (hbody.lexical hroot).tree, bodyResolveIn, bodySiteIds_resolveIn]

theorem perm_siteIds_of_analyse (h : analyse root p = .ok q) :
    (siteIds q).Perm (interval 1 (bodyTaken p)) := by
  rw [siteIds_of_analyse h]
  exact perm_siteIds_bodyNumbered 1 p

theorem nodup_siteIds_of_analyse (h : analyse root p = .ok q) :
    (siteIds q).Nodup := (perm_siteIds_of_analyse h).nodup_iff.mpr (nodup_interval 1 (bodyTaken p))

end TypedScript
