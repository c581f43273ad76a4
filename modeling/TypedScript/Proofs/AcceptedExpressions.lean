import TypedScript.Check.Expressions

/-!
# Expressions that pass the check

What the check of an expression does if it succeeds, as rules: `Expr.Accepted s e e' t` says that in
the scope `s` the expression `e` has type `t` and becomes the annotated expression `e'`.  The faults
and the trees that a failed check leaves are not part of the rules.
-/

namespace TypedScript

/-! ## induction -/

@[elab_as_elim, induction_eliminator]
theorem Expr.induct {P : Expr → Prop} (literal : ∀ v slot, P (.literal v slot))
    (name : ∀ x slot, P (.name x slot))
    (binary : ∀ op left right slot, P left → P right → P (.binary op left right slot))
    (unary : ∀ op operand slot, P operand → P (.unary op operand slot))
    (call : ∀ callee arguments awaited constructs slot, P callee → (∀ e ∈ arguments, P e) →
      P (.call callee arguments awaited constructs slot))
    (subscript : ∀ base index slot, P base → P index → P (.subscript base index slot))
    (member : ∀ object x slot, P object → P (.member object x slot))
    (collection : ∀ form elements slot, (∀ e ∈ elements, P e) → P (.collection form elements slot))
    (dict : ∀ entries slot, (∀ e ∈ entries, P e.1) → (∀ e ∈ entries, P e.2) → P (.dict entries slot))
    (e : Expr) : P e :=
  @Expr.rec P (fun es => ∀ e ∈ es, P e) (fun es => ∀ e ∈ es, P e.1 ∧ P e.2) (fun e => P e.1 ∧ P e.2)
    literal name binary unary call subscript member collection
    (fun entries slot h => dict entries slot (fun e he => (h e he).1) fun e he => (h e he).2)
    (List.forall_mem_nil _) (fun _ _ he hes => List.forall_mem_cons.mpr ⟨he, hes⟩)
    (List.forall_mem_nil _) (fun _ _ he hes => List.forall_mem_cons.mpr ⟨he, hes⟩)
    (fun _ _ hkey hvalue => ⟨hkey, hvalue⟩) e

/-! ## successful parts -/

variable {t : Ty} {e : Expr} {slot : Option Ty} {s : Scope}

namespace Checked

variable {α β γ δ : Type} {x : Checked α β}

variable {d : δ} {c : γ}

theorem andThen_eq_ok {wrap : α → γ} {next : α → β → Checked γ δ} (h : x.andThen wrap next = ⟨c, .ok d⟩) :
    ∃ a b, x = ⟨a, .ok b⟩ ∧ next a b = ⟨c, .ok d⟩ := by
  obtain ⟨a, result⟩ := x
  cases result with
  | ok b => exact ⟨a, b, rfl, h⟩
  | error e => exact nomatch congrArg Checked.result h

theorem map_eq_ok {f : α → γ} {g : β → δ} (h : x.map f g = ⟨c, .ok d⟩) :
    ∃ a b, x = ⟨a, .ok b⟩ ∧ f a = c ∧ g b = d := by
  obtain ⟨a, result⟩ := x
  cases result with
  | ok b =>
    cases h
    exact ⟨a, b, rfl, rfl, rfl⟩
  | error e => exact nomatch congrArg Checked.result h

end Checked

theorem settle_eq_ok (h : settle node slot result = ⟨e, .ok t⟩) : result = .ok t ∧ e = node (some t) := by
  cases result with
  | ok u =>
    cases h
    exact ⟨rfl, rfl⟩
  | error c => exact nomatch congrArg Checked.result h

theorem Scope.lookupVariable_eq_ok (h : s.lookupVariable x = .ok b) : s.findVariable? x = some b := by
  unfold Scope.lookupVariable at h
  split at h
  · next b' hb =>
    cases h
    exact hb
  · exact nomatch h

/-! ## calls -/

variable {f : Signature} {awaited : Bool}

/-- a call with this many arguments, awaited or not, respects the signature; `around` is the
signature of the function around the call -/
structure Signature.Allows (f : Signature) (received : Nat) (awaited : Bool)
    (around : Option Signature) : Prop where
  enough : f.required ≤ received
  notMore : received ≤ f.params.length
  awaits : f.async = awaited
  inside : awaited = true → around.any (·.async) = true

theorem Signature.arityTest_eq_ok (h : f.arityTest received = .ok ()) :
    f.required ≤ received ∧ received ≤ f.params.length := by
  unfold Signature.arityTest at h
  split at h
  · exact nomatch h
  · split at h
    · exact nomatch h
    · omega

theorem Signature.arityTest_eq_ok_iff : f.arityTest k = .ok () ↔ f.required ≤ k ∧ k ≤ f.params.length := by
  refine ⟨Signature.arityTest_eq_ok, fun ⟨henough, hnotMore⟩ => ?_⟩
  unfold Signature.arityTest
  rw [if_neg (Nat.not_lt.mpr henough), if_neg (Nat.not_lt.mpr hnotMore)]

theorem Callee.awaitTest_eq_ok {f : Callee} (h : f.awaitTest awaited around = .ok ()) :
    f.signature.async = awaited ∧ (awaited = true → around.any (·.async) = true) := by
  unfold Callee.awaitTest at h
  split at h
  · exact nomatch h
  · next hasync =>
    split at h
    · exact nomatch h
    · next hinside =>
      refine ⟨Decidable.not_not.mp hasync, fun hawaited => ?_⟩
      rw [hawaited, Bool.true_and, Bool.not_eq_true', Bool.not_eq_false] at hinside
      exact hinside

/-- the first part of a call: what is called -/
def Expr.checkCallee (s : Scope) (constructs : Bool) : Expr → Checked (Expr × Bool) Callee
  | .name x slot => s.callee x slot constructs
  | e =>
    (e.check s).andThen (·, constructs) fun e t =>
      ⟨(e, constructs),
        match t.signature? with
        | some signature => .ok ⟨e.describe, signature⟩
        | none => .error (.notCallable e.describe)⟩

theorem Expr.checkCallee_of_not_name (h : ¬ ∃ x slot, e = .name x slot)
    (constructs : Bool) : Expr.checkCallee s constructs e = (e.check s).andThen (·, constructs)
      fun e t => ⟨(e, constructs),
        match t.signature? with
        | some signature => .ok ⟨e.describe, signature⟩
        | none => .error (.notCallable e.describe)⟩ := by
  cases e with
  | name x slot => exact absurd ⟨x, slot, rfl⟩ h
  | _ => rfl

/-- the rest of a call -/
def Expr.checkApplied (s : Scope) (arguments : List Expr) (awaited : Bool) (slot : Option Ty)
    (callee : Expr) (constructs : Bool) (f : Callee) : Checked Expr Ty :=
  match f.signature.arityTest arguments.length with
  | .error e => ⟨.call callee arguments awaited constructs slot, .error e⟩
  | .ok () =>
    (Expr.checkAll s (argumentTest f.signature.params) [] arguments).andThen
      (.call callee · awaited constructs slot) fun arguments _ =>
        settle (.call callee arguments awaited constructs) slot
          ((f.awaitTest awaited s.frame.function).map fun _ => f.signature.returns)

theorem Expr.check_call (s : Scope) (callee : Expr) (arguments : List Expr) (awaited constructs : Bool)
    (slot : Option Ty) : (Expr.call callee arguments awaited constructs slot).check s
      = (Expr.checkCallee s constructs callee).andThen
          (fun e => .call e.1 arguments awaited e.2 slot)
          fun e => Expr.checkApplied s arguments awaited slot e.1 e.2 := by
  cases callee <;> rfl

/-! ## the rules -/

mutual

inductive Expr.Accepted (s : Scope) : Expr → Expr → Ty → Prop
  | literal {slot : Option Ty} : Accepted s (.literal v slot) (.literal v (some v.type)) v.type
  | name {x : Symbol} {slot : Option Ty} {b : Binding} : s.findVariable? x.name = some b →
    Accepted s (.name x slot) (.name (x.resolved b.resolution) (some b.type)) b.type
  | binary {op : BinaryOp} {left left' right right' : Expr} {slot : Option Ty} {a b t : Ty} :
    Accepted s left left' a → Accepted s right right' b → op.result a b = .ok t →
    Accepted s (.binary op left right slot) (.binary op left' right' (some t)) t
  | unary {op : UnaryOp} {operand operand' : Expr} {slot : Option Ty} {a t : Ty} :
    Accepted s operand operand' a → op.result a = .ok t →
    Accepted s (.unary op operand slot) (.unary op operand' (some t)) t
  | call {callee callee' : Expr} {arguments arguments' : List Expr} {awaited constructs : Bool}
    {slot : Option Ty} {t : Ty} {f : Signature} {ts : List Ty} :
    Accepted s callee callee' t → t.signature? = some f →
    f.Allows arguments.length awaited s.frame.function →
    AcceptedAll s (argumentTest f.params) [] arguments arguments' ts →
    Accepted s (.call callee arguments awaited constructs slot)
      (.call callee' arguments' awaited constructs (some f.returns)) f.returns
  | construct {x : Symbol} {arguments arguments' : List Expr} {awaited constructs : Bool}
    {slot slot' : Option Ty} {b : ClassBinding} {f : Signature} {ts : List Ty} :
    s.findVariable? x.name = none → s.findClass? x.name = some b → b.constructor = some f →
    f.Allows arguments.length awaited s.frame.function →
    AcceptedAll s (argumentTest f.params) [] arguments arguments' ts →
    Accepted s (.call (.name x slot') arguments awaited constructs slot)
      (.call (.name (x.resolved b.resolution) (some b.type)) arguments' awaited true
        (some f.returns)) f.returns
  | subscript {slot : Option Ty} {b i t : Ty} : Accepted s base base' b → Accepted s index index' i →
    subscriptType b i = .ok t → Accepted s (.subscript base index slot) (.subscript base' index' (some t)) t
  | member {object object' : Expr} {x : Symbol} {slot : Option Ty} {t : Ty} {b : Binding} :
    Accepted s object object' t → s.findVariable? x.name = some b →
    Accepted s (.member object x slot) (.member object' (x.resolved b.resolution) (some b.type)) b.type
  | collection {form : Collection} {elements elements' : List Expr} {slot : Option Ty}
    {ts : List Ty} : AcceptedAll s form.test [] elements elements' ts →
    Accepted s (.collection form elements slot) (.collection form elements' (some (form.type ts)))
      (form.type ts)
  | dict {entries entries' : List (Expr × Expr)} {slot : Option Ty} {first : Option (Ty × Ty)} :
    AcceptedEntries s none entries entries' first →
    Accepted s (.dict entries slot)
      (.dict entries' (some (.dict (first.getD (.none, .none)).1 (first.getD (.none, .none)).2)))
      (.dict (first.getD (.none, .none)).1 (first.getD (.none, .none)).2)

/-- the types of the expressions follow those in `seen`, and each passes the test -/
inductive Expr.AcceptedAll (s : Scope) :
    (List Ty → Ty → Except Cause Unit) → List Ty → List Expr → List Expr → List Ty → Prop
  | nil : AcceptedAll s test seen [] [] seen
  | cons {test : List Ty → Ty → Except Cause Unit} {seen ts : List Ty} {e e' : Expr}
    {es es' : List Expr} {t : Ty} :
    Accepted s e e' t → test seen t = .ok () → AcceptedAll s test (seen ++ [t]) es es' ts →
    AcceptedAll s test seen (e :: es) (e' :: es') ts

inductive Expr.AcceptedEntries (s : Scope) :
    Option (Ty × Ty) → List (Expr × Expr) → List (Expr × Expr) → Option (Ty × Ty) → Prop
  | nil : AcceptedEntries s first [] [] first
  | cons {first last : Option (Ty × Ty)} {key key' value value' : Expr}
    {es es' : List (Expr × Expr)} {k v : Ty} :
    Accepted s key key' k → Accepted s value value' v → entryTest first k v = .ok () →
    AcceptedEntries s (first.or (some (k, v))) es es' last →
    AcceptedEntries s first ((key, value) :: es) ((key', value') :: es') last

end

/-! ## checks that succeed -/

variable {e' : Expr}

theorem Scope.callee_eq_ok {f : Callee} (h : s.callee x slot constructs = ⟨(e, constructs'), .ok f⟩) :
    (∃ b, s.findVariable? x.name = some b ∧ b.type.signature? = some f.signature ∧
      e = .name (x.resolved b.resolution) (some b.type) ∧ constructs' = constructs) ∨
    (∃ b, s.findVariable? x.name = none ∧ s.findClass? x.name = some b ∧
      b.constructor = some f.signature ∧
      e = .name (x.resolved b.resolution) (some b.type) ∧ constructs' = true) := by
  unfold Scope.callee at h
  split at h
  · next b hb =>
    split at h
    · next signature hsignature =>
      cases h
      exact .inl ⟨b, hb, hsignature, rfl, rfl⟩
    · exact nomatch congrArg Checked.result h
  · next hnone =>
    split at h
    · exact nomatch congrArg Checked.result h
    · next b hb =>
      split at h
      · exact nomatch congrArg Checked.result h
      · next signature hsignature =>
        cases h
        exact .inr ⟨b, hnone, hb, hsignature, rfl, rfl⟩

theorem call_eq_ok {x : Checked (Expr × Bool) Callee} {arguments : List Expr}
    (h : (x.andThen (fun (callee, constructs) => .call callee arguments awaited constructs slot)
      fun (callee, constructs) f =>
        match f.signature.arityTest arguments.length with
        | .error e => ⟨.call callee arguments awaited constructs slot, .error e⟩
        | .ok () =>
          (Expr.checkAll s (argumentTest f.signature.params) [] arguments).andThen
            (.call callee · awaited constructs slot) fun arguments _ =>
              settle (.call callee arguments awaited constructs) slot
                ((f.awaitTest awaited s.frame.function).map fun _ => f.signature.returns))
      = ⟨e', .ok t⟩) :
    ∃ callee' constructs' f arguments' ts, x = ⟨(callee', constructs'), .ok f⟩ ∧
      Expr.checkAll s (argumentTest f.signature.params) [] arguments = ⟨arguments', .ok ts⟩ ∧
      f.signature.Allows arguments.length awaited s.frame.function ∧
      e' = .call callee' arguments' awaited constructs' (some t) ∧ t = f.signature.returns := by
  obtain ⟨⟨callee', constructs'⟩, f, hx, h⟩ := Checked.andThen_eq_ok h
  dsimp only at h
  split at h
  · exact nomatch congrArg Checked.result h
  · next harity =>
    obtain ⟨arguments', ts, harguments, h⟩ := Checked.andThen_eq_ok h
    obtain ⟨hawait, rfl⟩ := settle_eq_ok h
    obtain ⟨henough, hnotMore⟩ := Signature.arityTest_eq_ok harity
    cases htest : f.awaitTest awaited s.frame.function with
    | error c => rw [htest] at hawait; exact nomatch hawait
    | ok u =>
      rw [htest] at hawait
      cases hawait
      obtain ⟨hasync, hinside⟩ := Callee.awaitTest_eq_ok htest
      exact ⟨callee', constructs', f, arguments', ts, hx, harguments,
        ⟨henough, hnotMore, hasync, hinside⟩, rfl, rfl⟩

mutual

theorem Expr.accepted_of_check {s : Scope} {e e' : Expr} {t : Ty} (h : e.check s = ⟨e', .ok t⟩) :
    Expr.Accepted s e e' t := by
  cases e with
  | literal v slot =>
    cases h
    exact .literal
  | name x slot =>
    rw [Expr.check] at h
    split at h
    · next b hb =>
      cases h
      exact .name (Scope.lookupVariable_eq_ok hb)
    · exact nomatch congrArg Checked.result h
  | binary op left right slot =>
    rw [Expr.check] at h
    obtain ⟨left', a, hleft, h⟩ := Checked.andThen_eq_ok h
    obtain ⟨right', b, hright, h⟩ := Checked.andThen_eq_ok h
    obtain ⟨hresult, rfl⟩ := settle_eq_ok h
    exact .binary (Expr.accepted_of_check hleft) (Expr.accepted_of_check hright) hresult
  | unary op operand slot =>
    rw [Expr.check] at h
    obtain ⟨operand', a, hoperand, h⟩ := Checked.andThen_eq_ok h
    obtain ⟨hresult, rfl⟩ := settle_eq_ok h
    exact .unary (Expr.accepted_of_check hoperand) hresult
  | call callee arguments awaited constructs slot =>
    by_cases hname : ∃ x slot', callee = .name x slot'
    · obtain ⟨x, slot', rfl⟩ := hname
      rw [Expr.check] at h
      obtain ⟨callee', constructs', f, arguments', ts, hcallee, harguments, hallows, rfl, rfl⟩ :=
        call_eq_ok h
      have hall := Expr.acceptedAll_of_check harguments
      rcases Scope.callee_eq_ok hcallee with ⟨b, hb, hsig, rfl, rfl⟩ | ⟨b, hnone, hb, hsig, rfl, rfl⟩
      · exact .call (.name hb) hsig hallows hall
      · exact .construct hnone hb hsig hallows hall
    · rw [Expr.check] at h
      · obtain ⟨callee', constructs', f, arguments', ts, hcallee, harguments, hallows, rfl, rfl⟩ :=
          call_eq_ok h
        have hall := Expr.acceptedAll_of_check harguments
        obtain ⟨callee'', u, hcheck, hcallee⟩ := Checked.andThen_eq_ok hcallee
        split at hcallee
        · next signature hsig =>
          cases hcallee
          exact .call (Expr.accepted_of_check hcheck) hsig hallows hall
        · exact nomatch congrArg Checked.result hcallee
      · exact fun x slot' hcallee => hname ⟨x, slot', hcallee⟩
  | subscript base index slot =>
    rw [Expr.check] at h
    obtain ⟨base', b, hbase, h⟩ := Checked.andThen_eq_ok h
    obtain ⟨index', i, hindex, h⟩ := Checked.andThen_eq_ok h
    obtain ⟨hresult, rfl⟩ := settle_eq_ok h
    exact .subscript (Expr.accepted_of_check hbase) (Expr.accepted_of_check hindex) hresult
  | member object x slot =>
    rw [Expr.check] at h
    obtain ⟨object', u, hobject, h⟩ := Checked.andThen_eq_ok h
    split at h
    · next b hb =>
      cases h
      exact .member (Expr.accepted_of_check hobject) (Scope.lookupVariable_eq_ok hb)
    · exact nomatch congrArg Checked.result h
  | collection form elements slot =>
    rw [Expr.check] at h
    obtain ⟨elements', ts, helements, h⟩ := Checked.andThen_eq_ok h
    cases h
    exact .collection (Expr.acceptedAll_of_check helements)
  | dict entries slot =>
    rw [Expr.check] at h
    obtain ⟨entries', first, hentries, h⟩ := Checked.andThen_eq_ok h
    cases h
    exact .dict (Expr.acceptedEntries_of_check hentries)

theorem Expr.acceptedAll_of_check {s : Scope} (h : Expr.checkAll s test seen es = ⟨es', .ok ts⟩) :
    Expr.AcceptedAll s test seen es es' ts := by
  cases es with
  | nil =>
    cases h
    exact .nil
  | cons e es =>
    rw [Expr.checkAll] at h
    obtain ⟨e', t, he, h⟩ := Checked.andThen_eq_ok h
    split at h
    · exact nomatch congrArg Checked.result h
    · next htest =>
      obtain ⟨es', ts', hes, rfl, rfl⟩ := Checked.map_eq_ok h
      exact .cons (Expr.accepted_of_check he) htest (Expr.acceptedAll_of_check hes)

theorem Expr.acceptedEntries_of_check {s : Scope} (h : Expr.checkEntries s first es = ⟨es', .ok last⟩) :
    Expr.AcceptedEntries s first es es' last := by
  cases es with
  | nil =>
    cases h
    exact .nil
  | cons e es =>
    obtain ⟨key, value⟩ := e
    rw [Expr.checkEntries] at h
    obtain ⟨key', k, hkey, h⟩ := Checked.andThen_eq_ok h
    obtain ⟨value', v, hvalue, h⟩ := Checked.andThen_eq_ok h
    split at h
    · exact nomatch congrArg Checked.result h
    · next htest =>
      obtain ⟨es', last', hes, rfl, rfl⟩ := Checked.map_eq_ok h
      exact .cons (Expr.accepted_of_check hkey) (Expr.accepted_of_check hvalue) htest
        (Expr.acceptedEntries_of_check hes)

end

theorem Expr.Accepted.type (h : Expr.Accepted s e e' t) : e'.type = some t := by
  cases h <;> rfl

end TypedScript
