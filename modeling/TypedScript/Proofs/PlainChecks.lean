import TypedScript.Proofs.FaultTexts
import TypedScript.Proofs.WellFormedTrees

/-!
# What a check leaves behind

Whether it succeeds or fails, the check of a statement gives out no more identities than the statement
has declarations, and leaves a scope that holds only types with a text of one line; if it fails, it is
for a plain cause.  The parts of statements do not fail for a cause of placement.

The functions of a list are declared before it is checked, so their heads are met with an identity and
with types that were recorded.  A head is only asked for what neither changes (`FunctionHead.Named`).
-/

namespace TypedScript

open List

/-! ## steps -/

/-- at most `n` identities were given out, from `k` on, and a failure has a plain cause, which is none of
placement if `A` -/
structure Step.Orderly (X A : Prop) {α : Type} (k n : Nat) (x : Step α) : Prop where
  counted : x.context.nextId ≤ k + n
  scope : X → x.context.scope.OneLine
  failure : ∀ e ∈ x.failure, (A → e.ofPlacement = false) ∧ e.Plain X

variable {X A : Prop}

variable {s : Scope} {c d : Context} {α : Type} {e : Cause} {x : String}

namespace Step

variable {α β γ : Type} {c : Context} {k m n : Nat}

variable {e : Cause} {a : α} {x : Step α}

theorem orderly_ok (hc : X → c.scope.OneLine) (n : Nat) (a : α) : (ok c a).Orderly X A c.nextId n :=
  ⟨Nat.le_add_right _ _, hc, nofun⟩

theorem orderly_fail (hc : X → c.scope.OneLine) (n : Nat)
    (he : e.ofPlacement = false ∧ e.Plain X) : (fail c a e).Orderly X A c.nextId n := by
  refine ⟨Nat.le_add_right _ _, hc, fun e' he' => ?_⟩
  cases he'
  exact ⟨fun _ => he.1, he.2⟩

theorem orderly_jump (hc : X → c.scope.OneLine) (n : Nat) (he : e.Plain X) :
    (fail c a e).Orderly X False c.nextId n := by
  refine ⟨Nat.le_add_right _ _, hc, fun e' he' => ?_⟩
  cases he'
  exact ⟨nofun, he⟩

theorem Orderly.map (h : x.Orderly X A k n) (f : α → β) : (x.map f).Orderly X A k n :=
  ⟨h.counted, h.scope, h.failure⟩

theorem Orderly.fresh (h : x.Orderly X A (k + 1) n) : x.Orderly X A k (1 + n) :=
  ⟨Nat.le_trans h.counted (Nat.le_of_eq (Nat.add_assoc k 1 n)), h.scope, h.failure⟩

theorem Orderly.andThen (h : x.Orderly X A k m) {wrap : α → β} {next : α → Context → Step β}
    (hnext : ∀ a d, x = ok d a → (X → d.scope.OneLine) → (next a d).Orderly X A d.nextId n) :
    (x.andThen wrap next).Orderly X A k (m + n) := by
  obtain ⟨d, a, failure⟩ := x
  cases failure with
  | none =>
    obtain ⟨hcounted, hscope, hfailure⟩ := hnext a d rfl h.scope
    refine ⟨Nat.le_trans hcounted ?_, hscope, hfailure⟩
    rw [← Nat.add_assoc]
    exact Nat.add_le_add_right h.counted n
  | some e =>
    have hm : k + m ≤ k + (m + n) := Nat.add_le_add_left (Nat.le_add_right m n) k
    exact ⟨Nat.le_trans h.counted hm, h.scope, h.failure⟩

theorem orderly_step {x : Checked α β} {V : β → Prop} (hx : Plainly X V x.result) (hc : X → c.scope.OneLine)
    {wrap : α → γ} {next : α → β → Step γ}
    (hnext : ∀ a b, x = ⟨a, .ok b⟩ → (X → V b) → (next a b).Orderly X A c.nextId n) :
    (x.step c wrap next).Orderly X A c.nextId n := by
  obtain ⟨a, result⟩ := x
  cases result with
  | ok b => exact hnext a b rfl hx
  | error e => exact orderly_fail hc n hx

end Step

theorem Context.orderly_inside {α : Type} (hc : X → c.scope.OneLine) {part : Context → Step α}
    (h : (part ⟨s, c.nextId⟩).Orderly X A c.nextId n) : (c.inside s part).Orderly X A c.nextId n :=
  ⟨h.counted, hc, h.failure⟩

/-- a name is declared, or it was declared before -/
structure Context.Binds (X : Prop) (c : Context) (r : Context × Except Cause DeclId) : Prop where
  counted : r.1.nextId = c.nextId + 1
  scope : X → r.1.scope.OneLine
  result : Plainly X (fun _ => True) r.2

theorem Context.Binds.orderly_ok {id : DeclId} (h : c.Binds X (d, .ok id))
    (a : α) : (Step.ok d a).Orderly X A c.nextId 1 :=
  ⟨Nat.le_of_eq h.counted, h.scope, nofun⟩

theorem Context.Binds.orderly_fail (h : c.Binds X (d, .error e))
    (a : α) : (Step.fail d a e).Orderly X A c.nextId 1 := by
  refine ⟨Nat.le_of_eq h.counted, h.scope, fun e' he' => ?_⟩
  cases he'
  exact ⟨fun _ => h.result.1, h.result.2⟩

theorem Context.binds_bind (hc : X → c.scope.OneLine) (hx : X → isName x) {t : Ty}
    (ht : X → t.OneLine) (kind : BindingKind) : c.Binds X (c.bind x t kind) := by
  unfold Context.bind Context.fresh
  dsimp only
  rw [Scope.declareVariable_eq]
  split
  · next s hs =>
    split at hs
    · cases hs
    · cases hs
      exact ⟨rfl, fun p => (hc p).defineVariable x (ht p), fun _ => trivial⟩
  · next e he =>
    split at he
    · cases he
      exact ⟨rfl, hc, rfl, rfl, isLine_name hx⟩
    · cases he

/-! ## variables -/

variable {value : Option Ty} {ds : List Declarator}

theorem plainly_declaredType (hs : X → s.OneLine) (hx : X → isName x)
    (hwritten : X → ∀ w ∈ written, w.WellFormed) (hvalue : X → ∀ t ∈ value, t.OneLine) :
    Plainly X Ty.OneLine (declaredType s x written value) := by
  unfold declaredType
  split
  · next w v =>
    refine (TypeTerm.plainly_resolve hs fun p => hwritten p w rfl).bind fun t ht => ?_
    exact .ite ht (plainly_mismatch ht fun p => hvalue p v rfl)
  · next w => exact TypeTerm.plainly_resolve hs fun p => hwritten p w rfl
  · next v => exact fun p => hvalue p v rfl
  · exact ⟨rfl, rfl, isLine_name hx⟩

theorem Declarator.orderly_bind (hc : X → c.scope.OneLine) {d : Declarator} (hd : X → d.WellFormed)
    (constant : Bool) (hvalue : X → ∀ t ∈ value, t.OneLine) :
    (d.bind constant value c).Orderly X A c.nextId 1 := by
  have htype := plainly_declaredType hc (fun p => (hd p).name) (fun p => (hd p).written) hvalue
  unfold Declarator.bind
  split
  · next e he => exact Step.orderly_fail hc 1 (htype.error_of_eq he)
  · next t ht =>
    have hbind := Context.binds_bind hc (fun p => (hd p).name) (htype.ok_of_eq ht) (.variable constant)
    split
    · next heq => exact (heq ▸ hbind).orderly_ok _
    · next heq => exact (heq ▸ hbind).orderly_fail _

theorem orderly_bindDeclarators (hc : X → c.scope.OneLine) (constant : Bool)
    (hds : X → ∀ d ∈ ds, d.WellFormed) (hts : X → ∀ t ∈ ts, t.OneLine) :
    (bindDeclarators constant ds ts c).Orderly X A c.nextId ds.length := by
  induction ds generalizing ts c with
  | nil => exact Step.orderly_ok hc _ _
  | cons d ds ih =>
    have hds := fun p => forall_mem_cons.mp (hds p)
    have hhead : X → ∀ t ∈ ts.head?, t.OneLine := fun p t ht => hts p t (mem_of_head? ht)
    rw [length_cons, Nat.add_comm]
    refine (d.orderly_bind hc (fun p => (hds p).1) constant hhead).andThen fun d' c' _ hc' => ?_
    exact (ih hc' (fun p => (hds p).2) fun p t ht => hts p t (mem_of_mem_tail ht)).map _

theorem plain_declarationFault (hds : X → ∀ d ∈ ds, d.WellFormed)
    (h : declarationFault? constant ds values = some e) : e.ofPlacement = false ∧ e.Plain X := by
  unfold declarationFault? at h
  split at h
  · obtain ⟨d, hd, hfault⟩ := exists_of_findSome?_eq_some h
    have hname := isLine_name fun p => (hds p d hd).name
    split at hfault
    · cases hfault
      exact ⟨rfl, rfl, hname⟩
    · split at hfault
      · cases hfault
        exact ⟨rfl, rfl, hname⟩
      · cases hfault
  · split at h
    · cases h
      exact ⟨rfl, rfl, fun _ => forall_mem_nil _⟩
    · cases h

/-! ## assignments -/

section
variable {s : Scope} (hs : X → s.OneLine)
include hs

variable {c : Cause} {e : Expr} {es : List Expr}

theorem plain_writableFault (hx : X → isName x) {e : Cause} (h : writableFault? s x = some e) :
    e.ofPlacement = false ∧ e.Plain X := by
  unfold writableFault? at h
  split at h
  · split at h
    · cases h
    · cases h
      exact ⟨rfl, rfl, isLine_name hx⟩
  · next hlookup =>
    cases h
    exact (Scope.plainly_lookupVariable hs hx).error_of_eq hlookup

theorem plain_targetFault (he : X → e.WellFormed) (h : targetFault? s e = some c) :
    c.ofPlacement = false ∧ c.Plain X := by
  have hdescribe := fun p => (he p).isLine_describe
  cases e with
  | name x slot => exact plain_writableFault hs (fun p => by cases he p; assumption) h
  | subscript | member => exact nomatch h
  | _ =>
    cases h
    exact ⟨rfl, rfl, isLine_single hdescribe⟩

theorem plain_memberFault (he : X → e.WellFormed) (haccepted : Expr.Accepted s e e' t)
    (h : memberFault? s e' = some c) : c.ofPlacement = false ∧ c.Plain X := by
  cases haccepted with
  | member => exact plain_writableFault hs (fun p => by cases he p; assumption) h
  | _ => exact nomatch h

theorem plainly_checkTargets (h : X → ∀ e ∈ es, e.WellFormed) :
    Plainly X (fun ts : List Ty => ∀ t ∈ ts, t.OneLine) (checkTargets s es).result := by
  induction es with
  | nil => exact fun _ => forall_mem_nil _
  | cons e es ih =>
    have he := fun p => h p e mem_cons_self
    unfold checkTargets
    split
    · next c hc => exact plain_targetFault hs he hc
    · refine .andThen (Expr.plainly_check hs he) fun e' t heq ht => ?_
      split
      · next c hc => exact plain_memberFault hs he (Expr.accepted_of_check heq) hc
      · exact (ih fun p e he => h p e (mem_cons_of_mem _ he)).map
          fun p ts hts => forall_mem_cons.mpr ⟨ht p, hts⟩

theorem plainly_values (htest : PlainTest X test) (h : X → ∀ e ∈ es, e.WellFormed) :
    Plainly X (fun ts : List Ty => ∀ t ∈ ts, t.OneLine) (Expr.checkAll s test [] es).result :=
  Expr.plainly_checkAll htest (fun e he => Expr.plainly_check hs fun p => h p e he) []
    fun _ => forall_mem_nil _

/-! ## conditions, bounds, loop updates and returns -/

theorem plainly_checkCondition (hconstruct : X → IsLine construct) (he : X → e.WellFormed) :
    Plainly X Done (checkCondition s construct e).result :=
  .andThen (Expr.plainly_check hs he) fun _ _ _ ht =>
    .ite (fun _ => trivial) ⟨rfl, rfl, isLine_pair hconstruct ht⟩

theorem plainly_checkBound (he : X → e.WellFormed) : Plainly X Done (checkBound s e).result :=
  .andThen (Expr.plainly_check hs he) fun _ _ _ ht => .ite (fun _ => trivial) ⟨rfl, rfl, isLine_single ht⟩

theorem plainly_checkUpdate {target : Ty} (htarget : X → target.OneLine) {u : Update Expr}
    (hu : X → u.WellFormed) : Plainly X Done (checkUpdate s target u).result := by
  have hstep : ∀ e : Expr, (X → e.WellFormed) → ∀ wrap : Expr → Update Expr,
      Plainly X Done (checkUpdate.checkStep s target e wrap).result := fun e he wrap =>
    .andThen (Expr.plainly_check hs he) fun _ _ _ ht => .ite (fun _ => trivial) (plainly_mismatch htarget ht)
  cases u with
  | increment | decrement => exact fun _ => trivial
  | increase e => exact hstep e hu .increase
  | decrease e => exact hstep e hu .decrease

theorem plain_checkReturn {value : Option Expr} (hvalue : X → ∀ e ∈ value, e.WellFormed)
    (h : (checkReturn s value).result = .error c) :
    (c = .returnOutsideFunction ∧ s.frame.function = none ∨
      c = .returnValueInVoidFunction ∧ value.isSome ∧ ∃ f ∈ s.frame.function, f.returns = .none) ∨
    c.ofPlacement = false ∧ c.Plain X := by
  unfold checkReturn at h
  split at h
  · next hnone =>
    cases h
    exact .inl (.inl ⟨rfl, hnone⟩)
  · next f hf =>
    have hreturns := fun p => (Ty.oneLine_function.mp ((hs p).frame.function f hf)).2
    split at h
    · have hplainly : Plainly X Done (if Ty.none.assignable f.returns = true then Except.ok ()
          else .error (mismatch f.returns .none)) :=
        .ite (fun _ => trivial) (plainly_mismatch hreturns fun _ => Ty.oneLine_none)
      exact .inr (hplainly.error_of_eq h)
    · next e =>
      split at h
      · next hvoid =>
        cases h
        exact .inl (.inr ⟨rfl, rfl, f, hf, hvoid⟩)
      · have hplainly : Plainly X Done ((e.check s).andThen some fun e t =>
            ⟨some e, if t.assignable f.returns then .ok () else .error (mismatch f.returns t)⟩).result :=
          .andThen (Expr.plainly_check hs fun p => hvalue p e rfl) fun _ _ _ ht =>
            .ite (fun _ => trivial) (plainly_mismatch hreturns ht)
        exact .inr (hplainly.error_of_eq h)

end

/-! ## parameters -/

variable {p : Parameter} {ps ps' : List Parameter} {params : List (Param Ty)}

/-- what a parameter was read with -/
structure Parameter.Named (p : Parameter) : Prop where
  name : isName p.name
  written : p.written.WellFormed
  default : ∀ e ∈ p.default, e.WellFormed

/-- the parameter can be declared: its default may be annotated by now -/
structure Parameter.Ready (p : Parameter) : Prop where
  name : isName p.name
  written : p.written.WellFormed
  type : ∀ t ∈ p.type, t.OneLine

theorem Parameter.WellFormed.named (h : p.WellFormed) : p.Named :=
  ⟨h.name, h.written, h.default⟩

theorem plainly_resolveParameters (hs : X → s.OneLine) (hps : X → ∀ p ∈ ps, p.Named) :
    Plainly X (fun params : List (Param Ty) => ∀ p ∈ params, p.type.OneLine)
      (resolveParameters s ps).result := by
  induction ps with
  | nil => exact nofun
  | cons p ps ih =>
    have hps := fun x => forall_mem_cons.mp (hps x)
    have hresolve := TypeTerm.plainly_resolve hs fun x => (hps x).1.written
    unfold resolveParameters
    split
    · next e he => exact hresolve.error_of_eq he
    · next t ht =>
      exact (ih fun x => (hps x).2).map fun x params hparams =>
        forall_mem_cons.mpr ⟨hresolve.ok_of_eq ht x, hparams⟩

theorem ParametersResolved.named
    (h : ParametersResolved s ps ps' params) (hps : ∀ p ∈ ps, p.Named) : ∀ p ∈ ps', p.Named := by
  induction h with
  | nil => exact hps
  | cons _ _ ih =>
    obtain ⟨hp, hps⟩ := forall_mem_cons.mp hps
    exact forall_mem_cons.mpr ⟨⟨hp.name, hp.written, hp.default⟩, ih hps⟩

theorem ParametersResolved.ready (hs : s.OneLine) (h : ParametersResolved s ps ps' params)
    (hps : ∀ p ∈ ps, p.Named) : ∀ p ∈ ps', p.Ready := by
  induction h with
  | nil => exact nofun
  | cons ht _ ih =>
    obtain ⟨hp, hps⟩ := forall_mem_cons.mp hps
    refine forall_mem_cons.mpr ⟨⟨hp.name, hp.written, fun t hmem => ?_⟩, ih hps⟩
    cases hmem
    exact (TypeTerm.plainly_resolve (X := True) (fun _ => hs) fun _ => hp.written).ok_of_eq ht trivial

theorem DefaultsAccepted.ready (h : DefaultsAccepted s ps ps') :
    ((∀ p ∈ ps, p.Ready) → ∀ p ∈ ps', p.Ready) ∧ ps'.length = ps.length := by
  induction h with
  | nil => exact ⟨id, rfl⟩
  | required _ _ ih =>
    refine ⟨fun hps => ?_, congrArg (· + 1) ih.2⟩
    obtain ⟨hp, hps⟩ := forall_mem_cons.mp hps
    exact forall_mem_cons.mpr ⟨hp, ih.1 hps⟩
  | optional _ _ _ _ _ ih =>
    refine ⟨fun hps => ?_, congrArg (· + 1) ih.2⟩
    obtain ⟨hp, hps⟩ := forall_mem_cons.mp hps
    exact forall_mem_cons.mpr ⟨⟨hp.name, hp.written, hp.type⟩, ih.1 hps⟩

theorem Parameter.plainly_typeIn (hp : X → p.Ready) (hs : X → s.OneLine) :
    Plainly X Ty.OneLine (p.typeIn s) := by
  unfold Parameter.typeIn
  split
  · next t ht => exact fun x => (hp x).type t ht
  · exact TypeTerm.plainly_resolve hs fun x => (hp x).written

theorem plainly_checkDefaults (hs : X → s.OneLine) (hready : X → ∀ p ∈ ps, p.Ready)
    (hnamed : X → ∀ p ∈ ps, p.Named) : Plainly X Done (checkDefaults s ps).result := by
  induction ps with
  | nil => exact fun _ => trivial
  | cons p ps ih =>
    have hready := fun x => forall_mem_cons.mp (hready x)
    have hnamed := fun x => forall_mem_cons.mp (hnamed x)
    have htype := Parameter.plainly_typeIn (fun x => (hready x).1) hs
    refine .andThen (V := Done) ?_ fun _ _ _ _ =>
      (ih (fun x => (hready x).2) fun x => (hnamed x).2).map fun _ _ _ => trivial
    unfold Parameter.checkDefault
    split
    · next e he => exact htype.error_of_eq he
    · next expected hexpected =>
      split
      · exact fun _ => trivial
      · next value hvalue =>
        refine .andThen (Expr.plainly_check hs fun x => (hnamed x).1.default value hvalue) fun _ _ _ ht => ?_
        exact .ite (fun _ => trivial) (plainly_mismatch (htype.ok_of_eq hexpected) ht)

theorem orderly_bindParameters (hc : X → c.scope.OneLine)
    (hps : X → ∀ p ∈ ps, p.Ready) : (bindParameters ps c).Orderly X A c.nextId ps.length := by
  induction ps generalizing c with
  | nil => exact Step.orderly_ok hc _ _
  | cons p ps ih =>
    have hps := fun x => forall_mem_cons.mp (hps x)
    have htype := Parameter.plainly_typeIn (fun x => (hps x).1) hc
    rw [length_cons, Nat.add_comm]
    refine Step.Orderly.andThen ?_ fun p' c' _ hc' => (ih hc' fun x => (hps x).2).map _
    unfold Parameter.bind
    split
    · next e he => exact Step.orderly_fail hc 1 (htype.error_of_eq he)
    · next t ht =>
      have hbind := Context.binds_bind hc (fun x => (hps x).1.name) (htype.ok_of_eq ht) .parameter
      split
      · next heq => exact (heq ▸ hbind).orderly_ok _
      · next heq => exact (heq ▸ hbind).orderly_fail _

/-! ## functions -/

variable {h : FunctionHead} {body : List Stmt}

/-- what the head of a function was read with -/
structure FunctionHead.Named (h : FunctionHead) : Prop where
  name : isName h.name
  parameters : ∀ p ∈ h.parameters, p.Named
  returns : ∀ t ∈ h.returns, t.WellFormed

theorem FunctionHead.WellFormed.named (hh : h.WellFormed) : h.Named :=
  ⟨hh.name, fun p hp => (hh.parameters p hp).named, hh.returns⟩

theorem FunctionHead.plainly_signature (hh : X → h.Named)
    (hs : X → s.OneLine) : Plainly X (fun f : Signature => f.type.OneLine) (h.signature s).result := by
  have hreturn : Plainly X Ty.OneLine (h.returnType s) := by
    unfold FunctionHead.returnType
    split
    · next t ht => exact TypeTerm.plainly_resolve hs fun x => (hh x).returns t ht
    · exact fun _ => Ty.oneLine_none
  refine .andThen (plainly_resolveParameters hs fun x => (hh x).parameters) fun ps params _ hparams => ?_
  exact hreturn.map fun x t ht => Ty.oneLine_function.mpr ⟨hparams x, ht⟩

theorem FunctionHead.orderly_declare (hh : X → h.Named)
    (hc : X → c.scope.OneLine) : (h.declare c).Orderly X A c.nextId 1 := by
  refine Step.orderly_step (FunctionHead.plainly_signature hh hc) hc fun h' f heq hf => ?_
  obtain ⟨ps, params, r, _, _, rfl, _⟩ := FunctionHead.signature_eq_ok heq
  have hbind := Context.binds_bind hc (fun x => (hh x).name) hf .function
  split
  · next heq => exact (heq ▸ hbind).orderly_ok _
  · next heq => exact (heq ▸ hbind).orderly_fail _

/-- what a statement was read with, its own head as a function apart from what hoisting records -/
def Stmt.Named : Stmt → Prop
  | .function h body => h.Named ∧ AllWellFormed body
  | s => s.WellFormed

theorem Stmt.WellFormed.named {s : Stmt} (h : s.WellFormed) : s.Named := by
  cases h with
  | function hh hbody => exact ⟨hh.named, hbody⟩
  | expression he => exact .expression he
  | declare hne hds hvs => exact .declare hne hds hvs
  | assign ht hv hts hvs => exact .assign ht hv hts hvs
  | classDef hh hbody => exact .classDef hh hbody
  | conditional hne hg hb ho => exact .conditional hne hg hb ho
  | whileLoop he hbody => exact .whileLoop he hbody
  | forLoop hh hbody => exact .forLoop hh hbody
  | rangeLoop hs ht hbody => exact .rangeLoop hs ht hbody
  | switch he hg hb ho => exact .switch he hg hb ho
  | breakLoop => exact .breakLoop
  | continueLoop => exact .continueLoop
  | returnValue hv => exact .returnValue hv
  | print he => exact .print he
  | block hbody => exact .block hbody

theorem orderly_hoist (hbody : X → ∀ s ∈ body, s.Named)
    (hc : X → c.scope.OneLine) : (hoist body c).Orderly X A c.nextId (functionCount body) := by
  fun_induction hoist body c with
  | case1 => exact Step.orderly_ok hc _ _
  | case2 h body rest c ih =>
    have hbody := fun x => forall_mem_cons.mp (hbody x)
    rw [functionCount]
    exact (FunctionHead.orderly_declare (fun x => (hbody x).1.1) hc).andThen fun _ c' _ hc' =>
      (ih c' (fun x => (hbody x).2) hc').map _
  | case3 s rest c hs ih =>
    rw [functionCount, s.functions_eq_zero fun h body heq => hs h body heq, Nat.zero_add]
    exact (ih (fun x => (forall_mem_cons.mp (hbody x)).2) hc).map _

theorem Hoisted.named {hoisted : List Stmt} {c' : Context} (h : Hoisted body c hoisted c')
    (hbody : ∀ s ∈ body, s.Named) : ∀ s ∈ hoisted, s.Named := by
  induction h with
  | nil => exact hbody
  | function hps _ _ _ ih =>
    obtain ⟨⟨hh, hinner⟩, hrest⟩ := forall_mem_cons.mp hbody
    exact forall_mem_cons.mpr ⟨⟨⟨hh.name, hps.named hh.parameters, hh.returns⟩, hinner⟩, ih hrest⟩
  | other _ _ ih =>
    obtain ⟨hs, hrest⟩ := forall_mem_cons.mp hbody
    exact forall_mem_cons.mpr ⟨hs, ih hrest⟩

/-! ## classes and counting loops -/

theorem ClassHead.orderly_declare {h : ClassHead} (hh : X → h.WellFormed)
    (hc : X → c.scope.OneLine) : (h.declare c).Orderly X A c.nextId (1 + h.parameters.length) := by
  have hnamed : X → ∀ p ∈ h.parameters, p.Named := fun x p hp => ((hh x).parameters p hp).named
  unfold ClassHead.declare Context.fresh
  dsimp only
  refine .fresh (Step.orderly_step (c := ⟨c.scope, c.nextId + 1⟩) (plainly_resolveParameters hc hnamed) hc
    fun ps params heq hparams => ?_)
  have hresolved := parametersResolved_of_resolve heq
  have hclass : X → (Ty.classOf c.nextId h.name).OneLine := fun x => isLine_of_isName (hh x).name
  have hsignature : X → (Signature.mk params (.classOf c.nextId h.name) false).type.OneLine :=
    fun x => Ty.oneLine_function.mpr ⟨hparams x, hclass x⟩
  split
  · next e he =>
    unfold Scope.declareClass at he
    split at he
    · cases he
      exact Step.orderly_fail (c := ⟨c.scope, c.nextId + 1⟩) hc _ ⟨rfl, rfl, isLine_single hclass⟩
    · cases he
  · next s hs =>
    have hs' : X → s.OneLine := by
      unfold Scope.declareClass at hs
      split at hs
      · cases hs
      · cases hs
        refine fun x => (hc x).defineClass h.name (hclass x) fun g hg => ?_
        cases hg
        exact hsignature x
    have hready := fun x => hresolved.ready (hc x) (hnamed x)
    have hdefaults := plainly_checkDefaults hs' hready fun x => hresolved.named (hnamed x)
    refine Step.orderly_step (c := ⟨s, c.nextId + 1⟩) hdefaults hs' fun ps' _ hdone _ => ?_
    obtain ⟨hready', hlength⟩ := (defaultsAccepted_of_check hdone).ready
    rw [← hresolved.numbered.1, ← hlength]
    refine (Context.orderly_inside (c := ⟨s, c.nextId + 1⟩) hs' ?_).map _
    exact orderly_bindParameters (c := ⟨_, c.nextId + 1⟩) (fun x => (hs' x).enterFunction (hsignature x))
      fun x => hready' (hready x)

theorem ForHead.orderly_check {h : ForHead} (hh : X → h.WellFormed) (hc : X → c.scope.OneLine) :
    (h.check c).Orderly X A c.nextId 1 := by
  refine Step.orderly_step (Expr.plainly_check hc fun x => (hh x).init) hc fun init t _ ht => ?_
  have hvalue : X → ∀ u ∈ some t, u.OneLine := fun x u hu => Option.some.inj hu ▸ ht x
  refine (Declarator.orderly_bind hc (fun x => (hh x).index) false hvalue).andThen (n := 0)
    fun index c' _ hc' => ?_
  have hfor : IsLine "for" := isLine_ofList (by decide)
  refine Step.orderly_step (plainly_checkCondition hc' (fun _ => hfor) fun x => (hh x).test) hc'
    fun test _ _ _ => ?_
  have hlookup := Scope.plainly_lookupVariable hc' fun x => (hh x).name
  dsimp only
  split
  · next e he => exact Step.orderly_fail hc' 0 (hlookup.error_of_eq he)
  · next b hb =>
    have hb' := hlookup.ok_of_eq hb
    split
    · refine Step.orderly_step (plainly_checkUpdate hc' hb' fun x => (hh x).update) hc' fun u _ _ _ => ?_
      exact Step.orderly_ok hc' 0 _
    · exact Step.orderly_fail hc' 0 ⟨rfl, rfl, isLine_pair (fun x => isLine_of_isName (hh x).name) hb'⟩

/-! ## statements -/

theorem isLine_if : IsLine "if" := isLine_ofList (by decide)

theorem isLine_while : IsLine "while" := isLine_ofList (by decide)

theorem isLine_case : IsLine "case" := isLine_ofList (by decide)

mutual

theorem Stmt.orderly_check {s : Stmt} (hs : s.Named) {c : Context} (hc : True → c.scope.OneLine) :
    (s.check c).Orderly True False c.nextId s.taken := by
  match s, hs with
  | .expression e, .expression he | .print e, .print he =>
    rw [Stmt.check]
    exact Step.orderly_step (Expr.plainly_check hc fun _ => he) hc fun _ _ _ _ => Step.orderly_ok hc _ _
  | .declare constant ds values, .declare _ hds hvs =>
    rw [Stmt.check]
    split
    · next e he => exact Step.orderly_fail hc _ (plain_declarationFault (fun _ => hds) he)
    · have hfree : PlainTest True fun _ _ => .ok () := fun _ _ _ _ _ => trivial
      refine Step.orderly_step (plainly_values hc hfree fun _ => hvs) hc fun vs ts _ hts => ?_
      exact (orderly_bindDeclarators hc constant (fun _ => hds) hts).map _
  | .assign targets values, .assign _ _ hts hvs =>
    rw [Stmt.check]
    split
    · exact Step.orderly_fail hc _ ⟨rfl, rfl, fun _ => forall_mem_nil _⟩
    · refine Step.orderly_step (plainly_checkTargets hc fun _ => hts) hc fun _ ts _ hts' => ?_
      refine Step.orderly_step (plainly_values hc (plainTest_assigned hts') fun _ => hvs) hc fun _ _ _ _ => ?_
      exact Step.orderly_ok hc _ _
  | .function h body, hs =>
    rw [Stmt.check]
    refine Step.orderly_step (FunctionHead.plainly_signature (fun _ => hs.1) hc) hc fun h' f heq hf => ?_
    obtain ⟨ps, params, r, hresolved, _, rfl, _⟩ := FunctionHead.signature_eq_ok heq
    have hready := fun x => hresolved.ready (hc x) hs.1.parameters
    refine Step.orderly_step (plainly_checkDefaults hc hready fun _ => hresolved.named hs.1.parameters) hc
      fun ps' _ hdone _ => ?_
    obtain ⟨hready', hlength⟩ := (defaultsAccepted_of_check hdone).ready
    rw [Stmt.taken, ← hresolved.numbered.1, ← hlength]
    refine Context.orderly_inside hc ?_
    refine (orderly_bindParameters (c := ⟨_, c.nextId⟩) (fun x => (hc x).enterFunction (hf x))
      fun x => hready' (hready x)).andThen ?_
    exact fun _ c' _ hc' => (orderly_checkBody (fun s hs' => (hs.2 s hs').named) hc').map _
  | .classDef h body, .classDef hh hbody =>
    rw [Stmt.check, Stmt.taken]
    refine (ClassHead.orderly_declare (fun _ => hh) hc).andThen fun _ c' _ hc' => ?_
    exact (orderly_checkBody (fun s hs' => (hbody s hs').named) hc').map _
  | .conditional branches none, .conditional _ hguards hbodies _ =>
    rw [Stmt.check, Stmt.taken]
    exact (orderly_checkBranches isLine_if hguards hbodies hc).map _
  | .conditional branches (some body), .conditional _ hguards hbodies hotherwise =>
    rw [Stmt.check, Stmt.taken]
    refine (orderly_checkBranches isLine_if hguards hbodies hc).andThen fun _ c' _ hc' => ?_
    refine (Context.orderly_inside hc' ?_).map _
    have hnamed := fun s hs' => (hotherwise body rfl s hs').named
    exact orderly_checkBody (c := ⟨_, c'.nextId⟩) hnamed fun x => (hc' x).enterBlock
  | .whileLoop condition body, .whileLoop he hbody =>
    rw [Stmt.check]
    refine Step.orderly_step (plainly_checkCondition hc (fun _ => isLine_while) fun _ => he) hc
      fun _ _ _ _ => ?_
    refine (Context.orderly_inside hc ?_).map _
    exact orderly_checkBody (c := ⟨_, c.nextId⟩) (fun s hs' => (hbody s hs').named) fun x => (hc x).enterLoop
  | .forLoop h body, .forLoop hh hbody =>
    rw [Stmt.check, Stmt.taken]
    refine Context.orderly_inside hc ?_
    refine (ForHead.orderly_check (c := ⟨_, c.nextId⟩) (fun _ => hh) fun x => (hc x).enterLoop).andThen
      fun _ c' _ hc' => ?_
    exact (orderly_checkBody (fun s hs' => (hbody s hs').named) hc').map _
  | .rangeLoop start stop body, .rangeLoop hstart hstop hbody =>
    rw [Stmt.check]
    refine Step.orderly_step (plainly_checkBound hc fun _ => hstart) hc fun _ _ _ _ => ?_
    refine Step.orderly_step (plainly_checkBound hc fun _ => hstop) hc fun _ _ _ _ => ?_
    refine (Context.orderly_inside hc ?_).map _
    exact orderly_checkBody (c := ⟨_, c.nextId⟩) (fun s hs' => (hbody s hs').named) fun x => (hc x).enterLoop
  | .switch scrutinee cases none, .switch he hguards hbodies _ =>
    rw [Stmt.check, Stmt.taken]
    refine Step.orderly_step (Expr.plainly_check hc fun _ => he) hc fun _ _ _ _ => ?_
    exact (orderly_checkBranches isLine_case hguards hbodies hc).map _
  | .switch scrutinee cases (some body), .switch he hguards hbodies hotherwise =>
    rw [Stmt.check, Stmt.taken]
    refine Step.orderly_step (Expr.plainly_check hc fun _ => he) hc fun _ _ _ _ => ?_
    refine (orderly_checkBranches isLine_case hguards hbodies hc).andThen fun _ c' _ hc' => ?_
    refine (Context.orderly_inside hc' ?_).map _
    have hnamed := fun s hs' => (hotherwise body rfl s hs').named
    exact orderly_checkBody (c := ⟨_, c'.nextId⟩) hnamed fun x => (hc' x).enterBlock
  | .breakLoop, _ | .continueLoop, _ =>
    rw [Stmt.check]
    split
    · exact Step.orderly_ok hc _ _
    · exact Step.orderly_jump hc _ ⟨rfl, fun _ => forall_mem_nil _⟩
  | .returnValue value, .returnValue hvalue =>
    rw [Stmt.check]
    unfold Checked.step
    split
    · exact Step.orderly_ok hc _ _
    · next e he =>
      rcases plain_checkReturn hc (fun _ => hvalue) he with (⟨rfl, _⟩ | ⟨rfl, _⟩) | hplain
      · exact Step.orderly_jump hc _ ⟨rfl, fun _ => forall_mem_nil _⟩
      · exact Step.orderly_jump hc _ ⟨rfl, fun _ => forall_mem_nil _⟩
      · exact Step.orderly_fail hc _ hplain
  | .block body, .block hbody =>
    rw [Stmt.check]
    refine (Context.orderly_inside hc ?_).map _
    exact orderly_checkBody (c := ⟨_, c.nextId⟩) (fun s hs' => (hbody s hs').named) fun x => (hc x).enterBlock
termination_by 2 * s.size
decreasing_by all_goals simp only [Stmt.size]; omega

theorem orderly_checkEach (hss : ∀ s ∈ ss, s.Named) {c : Context} (hc : True → c.scope.OneLine) :
    (checkEach ss c).Orderly True False c.nextId (eachTaken ss) := by
  match ss with
  | [] =>
    rw [checkEach]
    exact Step.orderly_ok hc _ _
  | s :: ss =>
    obtain ⟨hs, hss⟩ := forall_mem_cons.mp hss
    rw [checkEach, eachTaken]
    exact (Stmt.orderly_check hs hc).andThen fun _ c' _ hc' => (orderly_checkEach hss hc').map _
termination_by 2 * bodySize ss
decreasing_by all_goals simp only [bodySize]; omega

theorem orderly_checkBody {body : List Stmt} (hbody : ∀ s ∈ body, s.Named) {c : Context}
    (hc : True → c.scope.OneLine) :
      (checkBody body c).Orderly True False c.nextId (functionCount body + eachTaken body) := by
  rw [checkBody_eq]
  refine (orderly_hoist (fun _ => hbody) hc).andThen fun hoisted c₁ hhoist hc₁ => ?_
  have hrule := hoisted_of_hoist hhoist
  rw [← hrule.sameNumbering.taken]
  exact orderly_checkEach (hrule.named hbody) hc₁
termination_by 2 * bodySize body + 1
decreasing_by
  have hsize := bodySize_hoist body c
  rw [hhoist] at hsize
  simp only [Step.ok] at hsize
  omega

theorem orderly_checkBranches (hconstruct : IsLine construct) (hguards : ∀ g ∈ gs, g.guard.WellFormed)
    (hbodies : ∀ g ∈ gs, ∀ s ∈ g.body, s.WellFormed) {c : Context} (hc : True → c.scope.OneLine) :
    (checkBranches construct gs c).Orderly True False c.nextId (branchesTaken gs) := by
  match gs with
  | [] =>
    rw [checkBranches]
    exact Step.orderly_ok hc _ _
  | ⟨guard, body⟩ :: gs =>
    obtain ⟨hguard, hguards⟩ := forall_mem_cons.mp hguards
    obtain ⟨hbody, hbodies⟩ := forall_mem_cons.mp hbodies
    rw [checkBranches, branchesTaken]
    refine Step.orderly_step (plainly_checkCondition hc (fun _ => hconstruct) fun _ => hguard) hc
      fun _ _ _ _ => ?_
    refine (Context.orderly_inside hc ?_).andThen fun _ c' _ hc' => ?_
    · exact orderly_checkBody (c := ⟨_, c.nextId⟩) (fun s hs' => (hbody s hs').named) fun x =>
        (hc x).enterBlock
    · exact (orderly_checkBranches hconstruct hguards hbodies hc').map _
termination_by 2 * branchesSize gs
decreasing_by all_goals simp only [branchesSize]; omega

end

/-! ## programs -/

theorem orderly_checkProgram {p : Program} (h : p.WellFormed) :
    (checkProgram Scope.root p).Orderly True False 1 (bodyTaken p) :=
  orderly_checkBody (c := ⟨Scope.root.enterBlock, 1⟩) (fun s hs => (h s hs).named)
    fun _ => Scope.oneLine_root.enterBlock

end TypedScript
