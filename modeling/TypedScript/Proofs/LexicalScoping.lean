import TypedScript.Proofs.WellTypedStatements

/-!
# Names of accepted programs

An accepted program carries the references of lexical scoping, and each of them leads to one place of
the tree.
-/

namespace TypedScript

open List

variable {M : Prop} {D : List Site}

/-! ## uses of well-typed trees -/

/-- a use refers to a site that declares its name, or to a built-in of its name -/
def Symbol.Resolved (D : List Site) (x : Symbol) : Prop :=
  match x.resolution with
  | some (.declared id) => ∃ d ∈ D, d.id = some id ∧ d.name = x.name
  | some (.builtin native) => ∃ b ∈ builtins, b.native = native ∧ b.name = x.name
  | none => False

theorem Site.Declares.name {d : Site} {x : String} {id : DeclId} {t : Ty} (h : d.Declares x id t) :
    d.id = some id ∧ d.name = x := by
  cases d with
  | «variable» constant d | parameter p | function head => exact ⟨h.2.1, h.1⟩
  | classDef head => exact h.elim

theorem Symbol.Refers.resolved {x : Symbol} (h : x.Refers D t) : x.Resolved D := by
  unfold Symbol.Refers at h
  split at h
  · next id hx =>
    obtain ⟨d, hd, hdeclares⟩ := h
    rw [Symbol.Resolved, hx]
    exact ⟨d, hd, hdeclares.name⟩
  · next native hx =>
    obtain ⟨b, hb, hname, hnative, _⟩ := h
    rw [Symbol.Resolved, hx]
    exact ⟨b, hb, hnative, hname⟩
  · exact h.elim

theorem Expr.Constructs.resolved {callee : Expr} {id : DeclId}
    (hc : callee.Constructs D arguments awaited t x h id params) : ∀ y ∈ callee.uses, y.Resolved D := by
  intro y hy
  rw [hc.named, Expr.uses, mem_singleton] at hy
  subst hy
  unfold Symbol.Resolved
  rw [hc.resolution]
  exact ⟨.classDef h, hc.site, hc.identity, hc.name.symm⟩

mutual

theorem Expr.Typed.uses {e : Expr} (h : e.Typed M D) : ∀ x ∈ e.uses, x.Resolved D := by
  cases e with
  | literal v t => exact nofun
  | name y t =>
    obtain ⟨u, _, hrefers⟩ := h
    intro x hx
    rw [mem_singleton.mp hx]
    exact hrefers.resolved
  | binary op left right t | subscript base index t =>
    exact fun x hx => (mem_append.mp hx).elim (h.1.uses x) (h.2.1.uses x)
  | unary op operand t => exact h.1.uses
  | call callee arguments awaited constructs t =>
    obtain ⟨harguments, hcallee⟩ := h
    intro x hx
    rcases mem_append.mp hx with hx | hx
    · rcases hcallee with ⟨hcallee, _⟩ | ⟨_, y, head, id, params, hconstructs⟩
      · exact hcallee.uses x hx
      · exact hconstructs.resolved x hx
    · exact Expr.allTyped_uses harguments x hx
  | member object y t =>
    obtain ⟨hobject, u, _, hrefers⟩ := h
    intro x hx
    rcases mem_append.mp hx with hx | hx
    · exact hobject.uses x hx
    · rw [mem_singleton.mp hx]
      exact hrefers.resolved
  | collection form elements t => exact Expr.allTyped_uses h.1
  | dict entries t => exact Expr.entriesTyped_uses h.1

theorem Expr.allTyped_uses (h : Expr.allTyped M D es) : ∀ x ∈ Expr.usesAll es, x.Resolved D := by
  cases es with
  | nil => exact nofun
  | cons e es =>
    exact fun x hx => (mem_append.mp hx).elim (h.1.uses x) (Expr.allTyped_uses h.2 x)

theorem Expr.entriesTyped_uses (h : Expr.entriesTyped M D es) : ∀ x ∈ Expr.entryUses es, x.Resolved D := by
  cases es with
  | nil => exact nofun
  | cons e es =>
    obtain ⟨key, value⟩ := e
    intro x hx
    rcases mem_append.mp hx with hx | hx
    · exact (mem_append.mp hx).elim (h.1.uses x) (h.2.1.uses x)
    · exact Expr.entriesTyped_uses h.2.2 x hx

end

theorem Parameter.Typed.uses {p : Parameter} (h : p.Typed M D) : ∀ x ∈ p.uses, x.Resolved D := by
  obtain ⟨t, _, _, hdefault⟩ := h
  unfold Parameter.uses
  cases he : p.default with
  | none => exact nofun
  | some e =>
    have huses : Expr.usesAll (some e).toList = e.uses := append_nil e.uses
    rw [huses]
    exact (hdefault e he).1.uses

theorem parametersTyped_uses {ps : List Parameter} (h : ∀ p ∈ ps, p.Typed M D) :
    ∀ x ∈ ps.flatMap Parameter.uses, x.Resolved D := by
  intro x hx
  obtain ⟨p, hp, hx⟩ := mem_flatMap.mp hx
  exact (h p hp).uses x hx

theorem Update.typed_uses (h : Update.Typed M D t u) : ∀ x ∈ Update.uses u, x.Resolved D := by
  cases u with
  | increment | decrement => exact nofun
  | increase e | decrease e => exact h.1.uses

theorem ForHead.Typed.uses {h : ForHead} (hh : h.Typed M D) : ∀ x ∈ h.uses, x.Resolved D := by
  obtain ⟨t, htarget, _, hupdate⟩ := hh.update
  intro x hx
  rcases mem_append.mp hx with hx | hx
  · exact (mem_append.mp hx).elim (hh.init.uses x) (hh.test.uses x)
  · rcases mem_cons.mp hx with rfl | hx
    · exact htarget.resolved
    · exact Update.typed_uses hupdate x hx

theorem returnTyped_uses (h : returnTyped M D around value) :
    ∀ x ∈ Expr.usesAll value.toList, x.Resolved D := by
  cases value with
  | none => exact nofun
  | some e =>
    obtain ⟨r, _, _, he, _⟩ := h
    have huses : Expr.usesAll (some e).toList = e.uses := append_nil e.uses
    rw [huses]
    exact he.uses

mutual

theorem Stmt.Typed.uses {around : Option Ty} {s : Stmt} (h : s.Typed M D around) :
    ∀ x ∈ s.uses, x.Resolved D := by
  cases s with
  | expression e | print e => exact Expr.Typed.uses h
  | declare constant ds values => exact Expr.allTyped_uses h.1
  | assign targets values =>
    exact fun x hx => (mem_append.mp hx).elim (Expr.allTyped_uses h.1 x)
      (Expr.allTyped_uses h.2.1 x)
  | function head body =>
    obtain ⟨hparameters, r, _, hbody⟩ := h
    exact fun x hx => (mem_append.mp hx).elim (parametersTyped_uses hparameters x)
      (bodyTyped_uses hbody x)
  | classDef head body =>
    exact fun x hx => (mem_append.mp hx).elim (parametersTyped_uses h.1 x)
      (bodyTyped_uses h.2 x)
  | conditional branches otherwise =>
    exact fun x hx => (mem_append.mp hx).elim (branchesTyped_uses h.1 x)
      (otherwiseTyped_uses h.2 x)
  | whileLoop condition body =>
    exact fun x hx => (mem_append.mp hx).elim (h.1.uses x) (bodyTyped_uses h.2.2 x)
  | forLoop head body =>
    exact fun x hx => (mem_append.mp hx).elim (h.1.uses x) (bodyTyped_uses h.2 x)
  | rangeLoop start stop body =>
    intro x hx
    rcases mem_append.mp hx with hx | hx
    · exact (mem_append.mp hx).elim (h.1.uses x) (h.2.2.1.uses x)
    · exact bodyTyped_uses h.2.2.2.2 x hx
  | switch scrutinee cases otherwise =>
    intro x hx
    rcases mem_append.mp hx with hx | hx
    · exact (mem_append.mp hx).elim (h.1.uses x) (branchesTyped_uses h.2.1 x)
    · exact otherwiseTyped_uses h.2.2 x hx
  | breakLoop | continueLoop => exact nofun
  | returnValue value => exact returnTyped_uses h
  | block body => exact bodyTyped_uses h

theorem bodyTyped_uses (h : bodyTyped M D around body) : ∀ x ∈ bodyUses body, x.Resolved D := by
  cases body with
  | nil => exact nofun
  | cons s ss =>
    exact fun x hx => (mem_append.mp hx).elim (h.1.uses x) (bodyTyped_uses h.2 x)

theorem branchesTyped_uses (h : branchesTyped M D around gs) : ∀ x ∈ branchUses gs, x.Resolved D := by
  cases gs with
  | nil => exact nofun
  | cons g gs =>
    obtain ⟨guard, body⟩ := g
    intro x hx
    rcases mem_append.mp hx with hx | hx
    · exact (mem_append.mp hx).elim (h.1.uses x) (bodyTyped_uses h.2.2.1 x)
    · exact branchesTyped_uses h.2.2.2 x hx

theorem otherwiseTyped_uses (h : otherwiseTyped M D around o) : ∀ x ∈ otherwiseUses o, x.Resolved D := by
  cases o with
  | none => exact nofun
  | some body => exact bodyTyped_uses h

end

/-! ## programs -/

theorem resolved_of_analyse (h : analyse Scope.root p = .ok q) : ∀ x ∈ bodyUses q, x.Resolved (bodySites q) :=
  bodyTyped_uses (M := True) (bodyTyped_of_analyse h (.inl trivial))

/-- The references of an accepted program are those that lexical scoping gives its tree, numbered in
the order of declaration.  Each is a built-in, or the identity of exactly one site, which declares the
name in use. -/
theorem analyse_resolves_lexically {p q : Program} (h : analyse Scope.root p = .ok q) :
    eachWithoutTypes q = bodyResolveIn Levels.root.inner (bodyNumbered 1 p) ∧
      ∀ x ∈ bodyUses q, ∃ r, x.resolution = some r ∧ ∀ id, r = .declared id →
        (siteIds q).count (some id) = 1 ∧ ∃ d ∈ bodySites q, d.id = some id ∧ d.name = x.name := by
  refine ⟨lexical_of_analyse h, fun x hx => ?_⟩
  have hresolved := resolved_of_analyse h x hx
  unfold Symbol.Resolved at hresolved
  cases hr : x.resolution with
  | none =>
    rw [hr] at hresolved
    exact hresolved.elim
  | some r =>
    refine ⟨r, rfl, ?_⟩
    rintro id rfl
    rw [hr] at hresolved
    obtain ⟨d, hd, hid, hname⟩ := hresolved
    have hmem : some id ∈ siteIds q := mem_map.mpr ⟨d, hd, hid⟩
    exact ⟨count_eq_one_of_mem (nodup_siteIds_of_analyse h) hmem, d, hd, hid, hname⟩

/-- `let x = 1; class P(a: int) { let y = x; } { let x = f(y); P(x); } fn f(x: int) -> int { return x; }`:
the function is visible before its statement, `y` after its class, and the inner `x` only after its own
initial value -/
theorem analyse_resolves_lexically_shadowed :
    let int := TypeTerm.named "int"
    let f : Ty := .function [⟨.int, false⟩] .int false
    let use (x : String) := Expr.name (.ofName x) none
    let ref (x : String) (id : DeclId) (t : Ty) := Expr.name ⟨x, some (.declared id)⟩ (some t)
    let p : Program :=
      [.declare false [⟨"x", none, none, none⟩] [.literal (.integer 1) none],
       .classDef ⟨"P", none, [⟨"a", int, none, none, none⟩]⟩
         [.declare false [⟨"y", none, none, none⟩] [use "x"]],
       .block
         [.declare false [⟨"x", none, none, none⟩] [.call (use "f") [use "y"] false false none],
          .expression (.call (use "P") [use "x"] false false none)],
       .function ⟨"f", none, [⟨"x", int, none, none, none⟩], some int, false⟩
         [.returnValue (some (use "x"))]]
    let q : Program :=
      [.declare false [⟨"x", none, some 2, some .int⟩] [.literal (.integer 1) (some .int)],
       .classDef ⟨"P", some 3, [⟨"a", int, none, some 4, some .int⟩]⟩
         [.declare false [⟨"y", none, some 5, some .int⟩] [ref "x" 2 .int]],
       .block
         [.declare false [⟨"x", none, some 6, some .int⟩]
            [.call (ref "f" 1 f) [ref "y" 5 .int] false false (some .int)],
          .expression (.call (ref "P" 3 (.classOf 3 "P")) [ref "x" 6 .int] false true
            (some (.classOf 3 "P")))],
       .function ⟨"f", some 1, [⟨"x", int, none, some 7, some .int⟩], some int, false⟩
         [.returnValue (some (ref "x" 7 .int))]]
    analyse Scope.root p = .ok q ∧
      eachWithoutTypes q = bodyResolveIn Levels.root.inner (bodyNumbered 1 p) ∧
      ∀ x ∈ bodyUses q, ∃ r, x.resolution = some r ∧ ∀ id, r = .declared id →
        (siteIds q).count (some id) = 1 ∧ ∃ d ∈ bodySites q, d.id = some id ∧ d.name = x.name := by
  intro int f use ref p q
  have h : analyse Scope.root p = .ok q := by cbv
  exact ⟨h, analyse_resolves_lexically h⟩

end TypedScript
