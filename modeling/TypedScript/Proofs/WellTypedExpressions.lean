import TypedScript.Proofs.Resolution
import TypedScript.Proofs.Typing

/-!
# Accepted expressions are well typed node by node

The check finds types through scopes; the tree it leaves can be judged without them.  The invariant
is that every binding of a scope is written on the tree: `Scope.Records D s` says that the variables
and classes of `s` are built-ins or have a site among `D` with their identity and type.  `D` holds the
sites of the finished tree from the start, so that a function may be used before its statement has been
checked.

* `TypeTerm.denotes_of_resolve`: written types;
* `Expr.Accepted.typed`: the nodes of accepted expressions.
-/

namespace TypedScript

open List

variable {M : Prop} {D : List Site}

/-! ## recorded bindings -/

/-- what a variable name stands for is written on a site, or is a built-in -/
inductive Binding.At (D : List Site) (x : String) : Binding → Prop
  | variable {id : DeclId} : .variable constant d ∈ D → d.name = x → d.id = some id → d.type = some t →
    At D x ⟨.declared id, t, .variable constant⟩
  | parameter {id : DeclId} : .parameter p ∈ D → p.name = x → p.id = some id → p.type = some t →
    At D x ⟨.declared id, t, .parameter⟩
  | function {h : FunctionHead} {id : DeclId} {params : List (Param Ty)} {r : Ty} :
    .function h ∈ D → h.name = x → h.id = some id →
    params.map Param.optional = h.parameters.map (·.default.isSome) →
    At D x ⟨.declared id, .function params r h.async, .function⟩
  | builtin : b ∈ builtins → b.name = x → At D x b.binding

/-- what a class name stands for is written on a site, or is a primitive type -/
inductive ClassBinding.At (D : List Site) (x : String) : ClassBinding → Prop
  | primitive : (x, t) ∈ primitives → At D x ⟨.builtin x, t, none⟩
  | declared {id : DeclId} {params : List (Param Ty)} : .classDef h ∈ D → h.name = x → h.id = some id →
    h.parameters.map Parameter.param? = params.map some → At D x (h.binding id params)

structure Scope.Records (D : List Site) (s : Scope) : Prop where
  vars : ∀ x b, s.findVariable? x = some b → b.At D x
  classes : ∀ x b, s.findClass? x = some b → b.At D x

namespace Scope.Records

variable {s : Scope}
variable {x : String}

theorem enter (h : s.Records D) (f : Option Signature) (b : Bool) : (s.enter f b).Records D where
  vars := h.vars
  classes := h.classes

theorem defineVariable (h : s.Records D) {b : Binding} (hb : b.At D x) :
    (s.defineVariable x b).Records D where
  vars y b' hb' := by
    rw [Scope.findVariable?_defineVariable] at hb'
    split at hb'
    · next hy =>
      cases hb'
      exact hy ▸ hb
    · exact h.vars y b' hb'
  classes := h.classes

theorem defineClass (h : s.Records D) {b : ClassBinding} (hb : b.At D x) :
    (s.defineClass x b).Records D where
  vars := h.vars
  classes y b' hb' := by
    rw [Scope.findClass?_defineClass] at hb'
    split at hb'
    · next hy =>
      cases hb'
      exact hy ▸ hb
    · exact h.classes y b' hb'

end Scope.Records

theorem mem_of_lookup_map {α β : Type} {l : List α} {name : α → String} {binding : α → β} {b : β}
    (h : (l.map fun a => (name a, binding a)).lookup x = some b) : ∃ a ∈ l, name a = x ∧ binding a = b := by
  induction l with
  | nil => exact nomatch h
  | cons a l ih =>
    rw [map_cons, lookup_cons] at h
    cases hx : x == name a with
    | true =>
      rw [hx] at h
      exact ⟨a, mem_cons_self, (beq_iff_eq.mp hx).symm, Option.some.inj h⟩
    | false =>
      rw [hx] at h
      obtain ⟨a', ha', h'⟩ := ih h
      exact ⟨a', mem_cons_of_mem a ha', h'⟩

theorem records_root : Scope.root.Records D where
  vars x b hb := by
    rw [Scope.findVariable?_eq, Variables.find?_eq, Scope.entries_root] at hb
    have hlookup : (builtins.map fun b => (b.name, b.binding)).lookup x = some b := by
      rw [← hb]
      exact (Option.or_none).symm
    obtain ⟨b', hmem, hname, rfl⟩ := mem_of_lookup_map hlookup
    exact .builtin hmem hname
  classes x b hb := by
    rw [Scope.root_eq, Scope.findClass?_eq] at hb
    have hlookup : (primitives.map fun p => (p.1, ClassBinding.mk (.builtin p.1) p.2 none)).lookup x
        = some b := by
      rw [← hb]
      exact (Option.or_none).symm
    obtain ⟨⟨y, t⟩, hmem, rfl, rfl⟩ := mem_of_lookup_map hlookup
    exact .primitive hmem

/-! ## names -/

theorem Binding.At.refers {x : Symbol} {b : Binding} (h : b.At D x.name) :
    (x.resolved b.resolution).Refers D b.type := by
  cases h with
  | «variable» hd hname hid ht => exact ⟨_, hd, hname, hid, ht⟩
  | parameter hp hname hid ht => exact ⟨_, hp, hname, hid, ht⟩
  | function hh hname hid hparams => exact ⟨_, hh, hname, hid, _, _, rfl, hparams⟩
  | builtin hb hname => exact ⟨_, hb, hname, rfl, rfl⟩

/-! ## types as written -/

theorem exists_ok_of_bind {ε α β : Type} {m : Except ε α} {next : α → Except ε β} {b : β}
    (h : (m >>= next) = .ok b) : ∃ a, m = .ok a ∧ next a = .ok b :=
  match m, h with
  | .ok a, h => ⟨a, rfl, h⟩

mutual

theorem TypeTerm.denotes_of_resolve {s : Scope} (hs : s.Records D) {w : TypeTerm} (h : w.resolve s = .ok t) :
    w.Denotes D t := by
  match w, h with
  | .named n, h =>
    rw [TypeTerm.resolve] at h
    split at h
    · exact nomatch h
    · next hgeneric =>
      split at h
      · next c hc =>
        cases h
        cases hs.classes n c hc with
        | primitive hmem => exact ⟨hgeneric, .inl hmem⟩
        | @declared head id params hsite hname hid _ =>
          refine ⟨hgeneric, .inr ⟨head, id, hsite, hname, hid, ?_⟩⟩
          rw [← hname]
          rfl
      · exact nomatch h
  | .generic n arguments, h =>
    rw [TypeTerm.resolve] at h
    split at h
    · split at h <;> exact nomatch h
    · next g hg =>
      split at h
      · next haccepts =>
        obtain ⟨ts, hts, h⟩ := exists_ok_of_bind h
        cases h
        exact ⟨g, ts, hg, haccepts, allDenote_of_resolve hs hts, rfl⟩
      · exact nomatch h
  | .nullable inner, h =>
    rw [TypeTerm.resolve] at h
    obtain ⟨u, hu, h⟩ := exists_ok_of_bind h
    cases h
    exact ⟨u, TypeTerm.denotes_of_resolve hs hu, rfl⟩

theorem allDenote_of_resolve {s : Scope} (hs : s.Records D) (h : TypeTerm.resolveAll s ws = .ok ts) :
    allDenote D ws ts := by
  match ws, h with
  | [], h =>
    cases h
    rfl
  | w :: ws, h =>
    rw [TypeTerm.resolveAll] at h
    obtain ⟨u, hu, h⟩ := exists_ok_of_bind h
    obtain ⟨us, hus, h⟩ := exists_ok_of_bind h
    cases h
    exact ⟨u, us, rfl, TypeTerm.denotes_of_resolve hs hu, allDenote_of_resolve hs hus⟩

end

/-! ## lists of expressions -/

theorem Ty.assignable_self (t : Ty) : t.assignable t = true := by
  unfold Ty.assignable
  rw [decide_eq_true rfl, Bool.true_or]

namespace Expr.AcceptedAll

variable {s : Scope} {seen ts : List Ty} {es es' : List Expr}
variable {test : List Ty → Ty → Except Cause Unit}

theorem types (h : AcceptedAll s test seen es es' ts) :
    ∃ us, ts = seen ++ us ∧ es'.map Expr.type = us.map some := by
  induction es generalizing seen es' with
  | nil =>
    cases h
    exact ⟨[], (append_nil ts).symm, rfl⟩
  | cons e es ih =>
    cases h with
    | @cons _ _ _ _ e' _ es' t he _ hes =>
      obtain ⟨us, rfl, hus⟩ := ih hes
      refine ⟨t :: us, append_assoc seen [t] us, ?_⟩
      rw [map_cons, map_cons, he.type, hus]

theorem length (h : AcceptedAll s test seen es es' ts) : es'.length = es.length := by
  induction es generalizing seen es' with
  | nil =>
    cases h
    rfl
  | cons e es ih =>
    cases h with
    | cons _ _ hes => exact congrArg (· + 1) (ih hes)

theorem argumentsFit (h : AcceptedAll s (argumentTest params) seen es es' ts)
    (hlength : seen.length + es.length ≤ params.length) : argumentsFit es' (params.drop seen.length) := by
  induction es generalizing seen es' with
  | nil =>
    cases h
    trivial
  | cons e es ih =>
    cases h with
    | @cons _ _ _ _ e' _ es' t he htest hes =>
      rw [length_cons] at hlength
      have hlt : seen.length < params.length := by omega
      have hseen : (seen ++ [t]).length = seen.length + 1 := length_append
      have hrest := ih hes (by omega)
      rw [hseen] at hrest
      rw [drop_eq_getElem_cons hlt]
      refine ⟨⟨t, he.type, ?_⟩, hrest⟩
      unfold argumentTest at htest
      rw [List.getElem?_eq_getElem hlt] at htest
      dsimp only at htest
      split at htest
      · next hfits => exact hfits
      · exact nomatch htest

theorem valuesFit {places : List Expr} (h : AcceptedAll s (assignedTest targets) seen es es' ts)
    (hplaces : places.map Expr.type = targets.map some) (hlength : seen.length + es.length = places.length) :
    valuesFit (places.drop seen.length) es' := by
  induction es generalizing seen es' with
  | nil =>
    cases h
    have hdrop : places.drop ts.length = [] := drop_of_length_le (Nat.le_of_eq hlength.symm)
    rw [hdrop]
    trivial
  | cons e es ih =>
    cases h with
    | @cons _ _ _ _ e' _ es' t he htest hes =>
      rw [length_cons] at hlength
      have hlt : seen.length < places.length := by omega
      have htargets : targets.length = places.length := by
        rw [← length_map some, ← hplaces, length_map]
      have hlt' : seen.length < targets.length := htargets ▸ hlt
      have hseen : (seen ++ [t]).length = seen.length + 1 := length_append
      have hrest := ih hes (by omega)
      rw [hseen] at hrest
      have hplace : places[seen.length].type = some targets[seen.length] := by
        have hat := congrArg (·[seen.length]?) hplaces
        simpa [hlt, hlt'] using hat
      rw [drop_eq_getElem_cons hlt]
      refine ⟨⟨targets[seen.length], hplace, t, he.type, ?_⟩, hrest⟩
      unfold assignedTest at htest
      rw [List.getElem?_eq_getElem hlt'] at htest
      dsimp only at htest
      split at htest
      · next hfits => exact hfits
      · exact nomatch htest

theorem elementsFit (h : AcceptedAll s elementTest seen es es' ts)
    (hseen : ∀ u ∈ seen, u.assignable (seen.headD .none) = true) :
    ∀ u ∈ ts, u.assignable (ts.headD .none) = true := by
  induction es generalizing seen es' with
  | nil =>
    cases h
    exact hseen
  | cons e es ih =>
    cases h with
    | @cons _ _ _ _ e' _ es' t he htest hes =>
      refine ih hes fun u hu => ?_
      cases seen with
      | nil =>
        rw [nil_append, mem_singleton] at hu
        rw [hu]
        exact t.assignable_self
      | cons first rest =>
        rcases mem_append.mp hu with hu | hu
        · exact hseen u hu
        · rw [mem_singleton.mp hu]
          unfold elementTest at htest
          dsimp only at htest
          split at htest
          · next hfits => exact hfits
          · exact nomatch htest

end Expr.AcceptedAll

variable {last : Option (Ty × Ty)} {es es' : List (Expr × Expr)} {s : Scope}

theorem Expr.AcceptedEntries.fit (h : Expr.AcceptedEntries s (some (k, v)) es es' last) :
    last = some (k, v) ∧ ∀ e ∈ es', e.1.Fits k ∧ e.2.Fits v := by
  induction es generalizing es' with
  | nil =>
    cases h
    exact ⟨rfl, nofun⟩
  | cons e es ih =>
    cases h with
    | @cons _ _ key key' value value' _ es' k' v' hk hv htest hes =>
      obtain ⟨hlast, hrest⟩ := ih hes
      unfold entryTest at htest
      dsimp only at htest
      split at htest
      · exact nomatch htest
      · next hkey =>
        split at htest
        · exact nomatch htest
        · next hvalue =>
          rw [Bool.not_eq_true', Bool.not_eq_false] at hkey hvalue
          refine ⟨hlast, fun e he => ?_⟩
          rcases mem_cons.mp he with rfl | he
          · exact ⟨⟨k', hk.type, hkey⟩, ⟨v', hv.type, hvalue⟩⟩
          · exact hrest e he

theorem Expr.AcceptedEntries.entriesFit (h : Expr.AcceptedEntries s none es es' last) :
    entriesFit es' (last.getD (.none, .none)).1 (last.getD (.none, .none)).2 := by
  cases h with
  | nil => exact ⟨⟨rfl, rfl⟩, nofun⟩
  | @cons _ _ key key' value value' es es' k v hk hv _ hes =>
    obtain ⟨rfl, hrest⟩ := hes.fit
    refine ⟨⟨hk.type, hv.type⟩, fun e he => ?_⟩
    rcases mem_cons.mp he with rfl | he
    · exact ⟨⟨k, hk.type, k.assignable_self⟩, ⟨v, hv.type, v.assignable_self⟩⟩
    · exact hrest e he

/-! ## expressions -/

variable {t : Ty} {f : Signature} {ts : List Ty}

theorem subscriptType_eq_ok (h : subscriptType b i = .ok t) : b.subscript? = some t ∧ i = .int := by
  unfold subscriptType at h
  split at h
  · exact nomatch h
  · next element helement =>
    split at h
    · next hindex =>
      cases h
      exact ⟨helement, hindex⟩
    · exact nomatch h

theorem Ty.signature?_eq_some (h : t.signature? = some f) : t = f.type := by
  cases t with
  | function params r async =>
    cases h
    rfl
  | _ => exact nomatch h

theorem Signature.Allows.types {arguments arguments' : List Expr}
    (h : f.Allows arguments.length awaited around)
    (hall : Expr.AcceptedAll s (argumentTest f.params) [] arguments arguments' ts) :
    f.Types arguments' awaited (some f.returns) where
  enough := hall.length ▸ h.enough
  fit := hall.argumentsFit (by rw [length_nil, Nat.zero_add]; exact h.notMore)
  awaits := h.awaits.symm
  returns := rfl

theorem Expr.AcceptedAll.collection {form : Collection} {es es' : List Expr}
    (h : Expr.AcceptedAll s form.test [] es es' ts) : form.Types ts (form.type ts) := by
  cases form with
  | array | set => exact ⟨rfl, h.elementsFit nofun⟩
  | tuple => rfl

mutual

theorem Expr.Accepted.typed {s : Scope} (hs : s.Records D) {t : Ty} (h : Expr.Accepted s e e' t)
    (hm : M ∨ e.Unmarked) : e'.Typed M D := by
  cases h with
  | literal => rfl
  | name hb => exact ⟨_, rfl, (hs.vars _ _ hb).refers⟩
  | binary hl hr hresult =>
    exact ⟨hl.typed hs (hm.imp_right And.left), hr.typed hs (hm.imp_right And.right),
      _, _, _, hl.type, hr.type, hresult, rfl⟩
  | unary ho hresult => exact ⟨ho.typed hs hm, _, _, ho.type, hresult, rfl⟩
  | @call callee callee' arguments arguments' awaited constructs slot u f ts hf hsig hallows hall =>
    refine ⟨hall.typed hs (hm.imp_right (·.2.2)), .inl ⟨hf.typed hs (hm.imp_right (·.2.1)), ?_,
      f, ?_, hallows.types hall⟩⟩
    · rintro rfl
      exact hm.resolve_right fun h => nomatch h.1
    · rw [hf.type, Ty.signature?_eq_some hsig]
  | @construct x arguments arguments' awaited constructs slot slot' b f ts hnone hclass hf hallows hall =>
    refine ⟨hall.typed hs (hm.imp_right (·.2.2)), .inr ⟨rfl, ?_⟩⟩
    cases hs.classes _ _ hclass with
    | primitive _ => exact nomatch hf
    | @declared head id params hsite hname hid hparams =>
      cases hf
      exact ⟨x.resolved (.declared id), head, id, params, rfl, hname.symm, rfl, hsite, hid, hparams,
        hallows.types hall⟩
  | subscript hb hi hresult =>
    obtain ⟨hsubscript, rfl⟩ := subscriptType_eq_ok hresult
    exact ⟨hb.typed hs (hm.imp_right And.left), hi.typed hs (hm.imp_right And.right), hi.type,
      _, _, hb.type, hsubscript, rfl⟩
  | member ho hb => exact ⟨ho.typed hs hm, _, rfl, (hs.vars _ _ hb).refers⟩
  | @collection form elements elements' slot ts hall =>
    obtain ⟨us, hus, htypes⟩ := hall.types
    rw [nil_append] at hus
    subst hus
    exact ⟨hall.typed hs hm, ts, form.type ts, htypes, hall.collection, rfl⟩
  | dict hentries => exact ⟨hentries.typed hs hm, _, _, hentries.entriesFit, rfl⟩

theorem Expr.AcceptedAll.typed {s : Scope} (hs : s.Records D) {seen ts : List Ty} {es es' : List Expr}
    (h : Expr.AcceptedAll s test seen es es' ts) (hm : M ∨ Expr.allUnmarked es) : Expr.allTyped M D es' := by
  cases h with
  | nil => trivial
  | cons he _ hes => exact ⟨he.typed hs (hm.imp_right And.left), hes.typed hs (hm.imp_right And.right)⟩

theorem Expr.AcceptedEntries.typed {s : Scope} (hs : s.Records D) {first last : Option (Ty × Ty)}
    {es es' : List (Expr × Expr)} (h : Expr.AcceptedEntries s first es es' last)
    (hm : M ∨ Expr.entriesUnmarked es) : Expr.entriesTyped M D es' := by
  cases h with
  | nil => trivial
  | cons hk hv _ hes =>
    exact ⟨hk.typed hs (hm.imp_right And.left), hv.typed hs (hm.imp_right (·.2.1)),
      hes.typed hs (hm.imp_right (·.2.2))⟩

end

end TypedScript
