import TypedScript.Proofs.ChangedStatements

/-!
# Trees that stay as they are

The least change is none at all: a tree corresponds to itself.  It can be checked in any scope that knows
what the tree asks for, under other identities and among other things.

* `Stmt.alike_self`, `bodyAlike_self`: such trees correspond to themselves;
* `Context.Within.changed`: such a context corresponds to itself.
-/

namespace TypedScript

open List

theorem id_of_known (x : String) (_ : x ∈ knownNames) : id x = x := rfl

theorem Literal.type_id (v : Literal) : (id v).type = v.type := rfl

/-- nothing is changed, and what checks write does not count -/
def keeping (P : String → Prop) : Change where
  name := id
  literal := id
  Allows := P
  Exact := False
  injective := Function.injective_id
  fixes := id_of_known
  type_literal := Literal.type_id

variable {P : String → Prop}

theorem Symbol.alike_self {x : Symbol} (h : P x.name) : x.Alike (keeping P) x := ⟨rfl, h, False.elim⟩

theorem slot_self (slot : Option Ty) : (keeping P).Slot slot slot := False.elim

theorem TypeTerm.change_keeping (w : TypeTerm) : w.change (keeping P) = w := w.change_eq_self fun _ => rfl

theorem written_self (o : Option TypeTerm) : o = o.map (TypeTerm.change (keeping P)) := by
  have hid : TypeTerm.change (keeping P) = id := funext TypeTerm.change_keeping
  rw [hid, Option.map_id, id]

/-! ## trees -/

mutual

theorem Expr.alike_self (e : Expr) (h : ∀ x ∈ e.uses, P x.name) : e.Alike (keeping P) e := by
  match e with
  | .literal _ slot => exact .literal (m := keeping P) (slot_self slot)
  | .name x slot => exact .name (Symbol.alike_self (h x mem_cons_self)) (slot_self slot)
  | .binary op left right slot =>
    obtain ⟨hleft, hright⟩ := forall_mem_append.mp h
    exact .binary (left.alike_self hleft) (right.alike_self hright) (slot_self slot)
  | .unary op e slot => exact .unary (e.alike_self h) (slot_self slot)
  | .call callee as awaited constructs slot =>
    obtain ⟨hcallee, has⟩ := forall_mem_append.mp h
    exact .call (callee.alike_self hcallee) (Expr.allAlike_self as has) (slot_self slot)
  | .subscript base index slot =>
    obtain ⟨hbase, hindex⟩ := forall_mem_append.mp h
    exact .subscript (base.alike_self hbase) (index.alike_self hindex) (slot_self slot)
  | .member object x slot =>
    obtain ⟨hobject, hx⟩ := forall_mem_append.mp h
    exact .member (object.alike_self hobject) (Symbol.alike_self (hx x mem_cons_self)) (slot_self slot)
  | .collection form es slot => exact .collection (Expr.allAlike_self es h) (slot_self slot)
  | .dict es slot => exact .dict (Expr.entriesAlike_self es h) (slot_self slot)

theorem Expr.allAlike_self (es : List Expr) (h : ∀ x ∈ Expr.usesAll es, P x.name) :
    Expr.AllAlike (keeping P) es es := by
  match es with
  | [] => exact .nil
  | e :: es =>
    obtain ⟨he, hes⟩ := forall_mem_append.mp h
    exact .cons (e.alike_self he) (Expr.allAlike_self es hes)

theorem Expr.entriesAlike_self (es : List (Expr × Expr)) (h : ∀ x ∈ Expr.entryUses es, P x.name) :
    Expr.EntriesAlike (keeping P) es es := by
  match es with
  | [] => exact .nil
  | (key, value) :: es =>
    obtain ⟨he, hes⟩ := forall_mem_append.mp h
    obtain ⟨hkey, hvalue⟩ := forall_mem_append.mp he
    exact .cons (key.alike_self hkey) (value.alike_self hvalue) (Expr.entriesAlike_self es hes)

end

theorem Expr.rel_self (o : Option Expr) (h : ∀ x ∈ Expr.usesAll o.toList, P x.name) :
    Option.Rel (Expr.Alike (keeping P)) o o := by
  cases o with
  | none => exact .none
  | some e => exact .some (e.alike_self (forall_mem_append.mp h).1)

theorem Declarator.alike_self {d : Declarator} (h : P d.name) : d.Alike (keeping P) d :=
  ⟨rfl, h, written_self d.written, False.elim, slot_self d.type⟩

theorem parametersAlike_self {ps : List Parameter} (hnames : ∀ d ∈ ps.map Site.parameter, P d.name)
    (huses : ∀ x ∈ ps.flatMap Parameter.uses, P x.name) : ParametersAlike (keeping P) ps ps := by
  refine List.forall₂_same.mpr fun p hp => ?_
  have hdefault := Expr.rel_self p.default fun x hx => huses x (mem_flatMap.mpr ⟨p, hp, hx⟩)
  exact ⟨rfl, hnames _ (mem_map_of_mem hp), p.written.change_keeping.symm, hdefault, False.elim,
    slot_self p.type⟩

theorem ForHead.alike_self {h : ForHead} (hindex : P h.index.name) (huses : ∀ x ∈ h.uses, P x.name) :
    h.Alike (keeping P) h := by
  obtain ⟨hfirst, hrest⟩ := forall_mem_append.mp huses
  obtain ⟨hinit, htest⟩ := forall_mem_append.mp hfirst
  obtain ⟨htarget, hupdate⟩ := forall_mem_cons.mp hrest
  refine ⟨Declarator.alike_self hindex, h.init.alike_self hinit, h.test.alike_self htest,
    Symbol.alike_self htarget, ?_⟩
  cases hcase : h.update with
  | increment => exact .increment
  | decrement => exact .decrement
  | increase e =>
    rw [hcase] at hupdate
    exact .increase (e.alike_self hupdate)
  | decrease e =>
    rw [hcase] at hupdate
    exact .decrease (e.alike_self hupdate)

mutual

theorem Stmt.alike_self (s : Stmt) (hs : ∀ d ∈ s.sites, P d.name) (hu : ∀ x ∈ s.uses, P x.name) :
    s.Alike (keeping P) s := by
  match s with
  | .expression e => exact .expression (e.alike_self hu)
  | .print e => exact .print (e.alike_self hu)
  | .declare constant ds values =>
    refine .declare (List.forall₂_same.mpr fun d hd => Declarator.alike_self ?_)
      (Expr.allAlike_self values hu)
    exact hs (.variable constant d) (mem_map_of_mem hd)
  | .assign targets values =>
    obtain ⟨htargets, hvalues⟩ := forall_mem_append.mp hu
    exact .assign (Expr.allAlike_self targets htargets) (Expr.allAlike_self values hvalues)
  | .function h body =>
    obtain ⟨hname, hs⟩ := forall_mem_cons.mp hs
    obtain ⟨hparameters, hs⟩ := forall_mem_append.mp hs
    obtain ⟨hdefaults, hu⟩ := forall_mem_append.mp hu
    refine .function ⟨rfl, hname, False.elim, ?_, written_self h.returns, rfl⟩ (bodyAlike_self body hs hu)
    exact parametersAlike_self hparameters hdefaults
  | .classDef h body =>
    obtain ⟨hparameters, hs⟩ := forall_mem_append.mp (forall_mem_cons.mp hs).2
    obtain ⟨hdefaults, hu⟩ := forall_mem_append.mp hu
    exact .classDef ⟨rfl, False.elim, parametersAlike_self hparameters hdefaults⟩ (bodyAlike_self body hs hu)
  | .conditional gs none =>
    exact .conditional (branchesAlike_self gs (forall_mem_append.mp hs).1 (forall_mem_append.mp hu).1)
  | .conditional gs (some body) =>
    obtain ⟨hgs, hs⟩ := forall_mem_append.mp hs
    obtain ⟨hguards, hu⟩ := forall_mem_append.mp hu
    exact .conditionalElse (branchesAlike_self gs hgs hguards) (bodyAlike_self body hs hu)
  | .whileLoop e body =>
    obtain ⟨he, hu⟩ := forall_mem_append.mp hu
    exact .whileLoop (e.alike_self he) (bodyAlike_self body hs hu)
  | .forLoop h body =>
    obtain ⟨hindex, hs⟩ := forall_mem_cons.mp hs
    obtain ⟨hh, hu⟩ := forall_mem_append.mp hu
    exact .forLoop (ForHead.alike_self hindex hh) (bodyAlike_self body hs hu)
  | .rangeLoop start stop body =>
    obtain ⟨hbounds, hu⟩ := forall_mem_append.mp hu
    obtain ⟨hstart, hstop⟩ := forall_mem_append.mp hbounds
    exact .rangeLoop (start.alike_self hstart) (stop.alike_self hstop) (bodyAlike_self body hs hu)
  | .switch e gs none =>
    obtain ⟨he, hguards⟩ := forall_mem_append.mp (forall_mem_append.mp hu).1
    exact .switch (e.alike_self he) (branchesAlike_self gs (forall_mem_append.mp hs).1 hguards)
  | .switch e gs (some body) =>
    obtain ⟨hgs, hs⟩ := forall_mem_append.mp hs
    obtain ⟨hfirst, hu⟩ := forall_mem_append.mp hu
    obtain ⟨he, hguards⟩ := forall_mem_append.mp hfirst
    exact .switchDefault (e.alike_self he) (branchesAlike_self gs hgs hguards) (bodyAlike_self body hs hu)
  | .breakLoop => exact .breakLoop
  | .continueLoop => exact .continueLoop
  | .returnValue value => exact .returnValue (Expr.rel_self value hu)
  | .block body => exact .block (bodyAlike_self body hs hu)

theorem bodyAlike_self (ss : List Stmt) (hs : ∀ d ∈ bodySites ss, P d.name)
    (hu : ∀ x ∈ bodyUses ss, P x.name) : BodyAlike (keeping P) ss ss := by
  match ss with
  | [] => exact .nil
  | s :: ss =>
    obtain ⟨hfirst, hs⟩ := forall_mem_append.mp hs
    obtain ⟨huses, hu⟩ := forall_mem_append.mp hu
    exact .cons (s.alike_self hfirst huses) (bodyAlike_self ss hs hu)

theorem branchesAlike_self (gs : List (Guarded Stmt)) (hs : ∀ d ∈ branchSites gs, P d.name)
    (hu : ∀ x ∈ branchUses gs, P x.name) : BranchesAlike (keeping P) gs gs := by
  match gs with
  | [] => exact .nil
  | ⟨guard, body⟩ :: gs =>
    obtain ⟨hfirst, hs⟩ := forall_mem_append.mp hs
    obtain ⟨huses, hu⟩ := forall_mem_append.mp hu
    obtain ⟨hguard, hbody⟩ := forall_mem_append.mp huses
    exact .cons (guard.alike_self hguard) (bodyAlike_self body hfirst hbody) (branchesAlike_self gs hs hu)

end

/-! ## scopes whose classes are known -/

variable {K : Roster}

structure Frame.Within (K : Roster) (f : Frame) : Prop where
  vars : ∀ e ∈ f.vars.entries, e.2.type.Within K
  classes : ∀ e ∈ f.classes, e.2.type.Within K
  constructors : ∀ e ∈ f.classes, ∀ g ∈ e.2.constructor, g.Within K
  function : ∀ g ∈ f.function, g.Within K

def Scope.Within (K : Roster) (s : Scope) : Prop := ∀ f ∈ s.frames, f.Within K

structure Context.Within (K : Roster) (c : Context) : Prop where
  scope : c.scope.Within K
  below : K.Below c.nextId

theorem Scope.Within.enterBlock {s : Scope} (h : s.Within K) : s.enterBlock.Within K :=
  forall_mem_cons.mpr ⟨⟨nofun, nofun, nofun, (h s.frame mem_cons_self).function⟩, h⟩

theorem Scope.within_root : Scope.root.Within Roster.empty := by
  intro f hf
  cases mem_singleton.mp hf
  refine ⟨?_, ?_, ?_, nofun⟩
  · rw [entries_root]
    simp [builtins, Builtin.binding, Ty.Within, Ty.paramsWithin]
  all_goals
    rw [root_eq]
    simp [primitives, Ty.Within]

theorem Ty.Within.changed_self {t : Ty} (h : t.Within K) : t.Changed (.same (keeping P) K) t :=
  ⟨(Ty.change_eq_self (fun _ => rfl) (fun _ => rfl) t).symm, h⟩

theorem Signature.Within.changed_self {f : Signature} (h : f.Within K) :
    f.Changed (.same (keeping P) K) f :=
  ⟨(Signature.change_eq_self (fun _ => rfl) (fun _ => rfl) f).symm, h⟩

theorem rel_of_forall {α : Type} {R : α → α → Prop} {o : Option α} (h : ∀ a ∈ o, R a a) :
    Option.Rel R o o := by
  cases o with
  | none => exact .none
  | some a => exact .some (h a rfl)

theorem Scope.Within.changed {s : Scope} (h : s.Within K) : s.Changed (.same (keeping P) K) s where
  vars x _ := rel_of_forall fun b hb => by
    obtain ⟨f, hf, hfind⟩ := exists_of_findSome?_eq_some hb
    exact ⟨((h f hf).vars _ (Variables.mem_of_find? hfind)).changed_self, rfl, fun _ => rfl⟩
  classes x := rel_of_forall fun b hb => by
    obtain ⟨f, hf, hfind⟩ := exists_of_findSome?_eq_some hb
    have hmem := Table.mem_of_find? hfind
    exact ⟨((h f hf).classes _ hmem).changed_self,
      rel_of_forall fun g hg => ((h f hf).constructors _ hmem g hg).changed_self, fun _ => rfl⟩
  ownVars _ _ := rfl
  ownClasses _ := rfl
  function := rel_of_forall fun g hg => ((h _ mem_cons_self).function g hg).changed_self
  insideLoop := rfl

theorem Context.Within.changed {c : Context} (h : c.Within K) : c.Changed (.same (keeping P) K) c :=
  ⟨h.scope.changed, fun hi => ⟨h.below _ _ hi, h.below _ _ hi⟩, fun _ => rfl⟩

end TypedScript
