import TypedScript.Compile
import TypedScript.Proofs.AcceptedExpressions
import Mathlib

/-!
# How far a failing check comes

A check goes through the nodes of an expression in post-order: the operands of a node from left to right
and then the node itself.  It fills type slots on its way and stops at the first fault, so the filled
slots are a front part of the post-order, and a node whose check fails stays empty.
-/

namespace TypedScript

open List

/-! ## post-order -/

/-- the keys and values of a dict, in order -/
def Expr.sides : List (Expr × Expr) → List Expr
  | [] => []
  | (key, value) :: es => key :: value :: Expr.sides es

/-- the operands of a node, from left to right -/
def Expr.operands : Expr → List Expr
  | .literal _ _ | .name _ _ => []
  | .binary _ left right _ => [left, right]
  | .unary _ operand _ => [operand]
  | .call callee arguments _ _ _ => callee :: arguments
  | .subscript base index _ => [base, index]
  | .member object _ _ => [object]
  | .collection _ elements _ => elements
  | .dict entries _ => Expr.sides entries

mutual

/-- the nodes of an expression, each behind its operands -/
def Expr.postorder : Expr → List Expr
  | .literal v t => [.literal v t]
  | .name x t => [.name x t]
  | .binary op left right t => left.postorder ++ right.postorder ++ [.binary op left right t]
  | .unary op operand t => operand.postorder ++ [.unary op operand t]
  | .call callee arguments awaited constructs t =>
    callee.postorder ++ Expr.postorderAll arguments ++ [.call callee arguments awaited constructs t]
  | .subscript base index t => base.postorder ++ index.postorder ++ [.subscript base index t]
  | .member object x t => object.postorder ++ [.member object x t]
  | .collection form elements t => Expr.postorderAll elements ++ [.collection form elements t]
  | .dict entries t => Expr.postorderEntries entries ++ [.dict entries t]

def Expr.postorderAll : List Expr → List Expr
  | [] => []
  | e :: es => e.postorder ++ Expr.postorderAll es

def Expr.postorderEntries : List (Expr × Expr) → List Expr
  | [] => []
  | (key, value) :: es => key.postorder ++ value.postorder ++ Expr.postorderEntries es

end

theorem Expr.postorderAll_eq (es : List Expr) : Expr.postorderAll es = es.flatMap Expr.postorder := by
  induction es with
  | nil => rfl
  | cons e es ih => rw [Expr.postorderAll, ih, flatMap_cons]

theorem Expr.postorderEntries_eq (es : List (Expr × Expr)) :
    Expr.postorderEntries es = (Expr.sides es).flatMap Expr.postorder := by
  induction es with
  | nil => rfl
  | cons e es ih => simp [Expr.postorderEntries, Expr.sides, ih]

theorem Expr.postorder_eq (e : Expr) : e.postorder = e.operands.flatMap Expr.postorder ++ [e] := by
  cases e <;> simp [Expr.postorder, Expr.operands, Expr.postorderAll_eq, Expr.postorderEntries_eq]

theorem Expr.operand_induction {P : Expr → Prop} (step : ∀ e : Expr, (∀ x ∈ e.operands, P x) → P e)
    (e : Expr) :
    P e := by
  induction e with
  | literal v slot | name x slot => exact step _ (forall_mem_nil _)
  | binary op left right slot ihl ihr | subscript left right slot ihl ihr =>
    exact step _ (by simpa [Expr.operands] using ⟨ihl, ihr⟩)
  | unary op operand slot ih | member operand x slot ih => exact step _ (by simpa [Expr.operands] using ih)
  | call callee arguments awaited constructs slot ihc iha =>
    exact step _ (forall_mem_cons.mpr ⟨ihc, iha⟩)
  | collection form elements slot ih => exact step _ ih
  | dict entries slot ihk ihv =>
    refine step _ ?_
    induction entries with
    | nil => exact forall_mem_nil _
    | cons e entries ih =>
      obtain ⟨hkey, hkeys⟩ := forall_mem_cons.mp ihk
      obtain ⟨hvalue, hvalues⟩ := forall_mem_cons.mp ihv
      exact forall_mem_cons.mpr ⟨hkey, forall_mem_cons.mpr ⟨hvalue, ih hkeys hvalues⟩⟩

/-! ## walks -/

/-- What a check does to operands: it goes on behind each that it accepts, and leaves the rest alone
behind a failure; a name in front of arguments is looked up by the call.  The flag is set if it comes to the
end. -/
inductive Expr.Walk (s : Scope) : List Expr → List Expr → Bool → Prop
  | nil : Walk s [] [] true
  | stop (es : List Expr) : Walk s es es false
  | fail {e : Expr} (es : List Expr) : (e.check s).result = .error c →
    Walk s (e :: es) ((e.check s).tree :: es) false
  | accept {e : Expr} : (e.check s).result = .ok t → Walk s es es' b →
    Walk s (e :: es) ((e.check s).tree :: es') b
  | callee {x x' : Symbol} {slot : Option Ty} {t : Ty} {es es' : List Expr} {b : Bool} :
    Walk s es es' b → Walk s (.name x slot :: es) (.name x' (some t) :: es') b

variable {s : Scope} {es es' rest rest' : List Expr}
variable {b : Bool}

theorem Expr.Walk.append (h : Expr.Walk s es es' true) (hrest : Expr.Walk s rest rest' b) :
    Expr.Walk s (es ++ rest) (es' ++ rest') b := by
  generalize hb : true = b' at h
  induction h with
  | nil => exact hrest
  | stop es | fail es _ => exact nomatch hb
  | accept hok _ ih => exact .accept hok (ih hb)
  | callee _ ih => exact .callee (ih hb)

theorem Expr.Walk.append_rest (h : Expr.Walk s es es' b) (rest : List Expr) :
    Expr.Walk s (es ++ rest) (es' ++ rest) false := by
  induction h with
  | nil => exact .stop rest
  | stop es => exact .stop (es ++ rest)
  | fail es hfail => exact .fail (es ++ rest) hfail
  | accept hok _ ih => exact .accept hok ih
  | callee _ ih => exact .callee ih

/-- a check that walks through the operands `es`, given as a part of its tree -/
def Checked.Walks {α β : Type} (s : Scope) (es : List Expr) (part : α → List Expr) (x : Checked α β) : Prop :=
  ∃ b, Expr.Walk s es (part x.tree) b ∧ ∀ v, x.result = .ok v → b = true

namespace Checked

variable {α β γ δ : Type} {part : α → List Expr}
variable {x : Checked α β} {whole : γ → List Expr} {next : α → β → Checked γ δ} {wrap : α → γ}

theorem walks_error (h : Expr.Walk s es (part x.tree) b) (hc : x.result = .error c) : x.Walks s es part :=
  ⟨b, h, fun _ hv => nomatch hc.symm.trans hv⟩

theorem Walks.of_ok {v : β} (h : x.Walks s es part) (hv : x.result = .ok v) :
    Expr.Walk s es (part x.tree) true := by
  obtain ⟨b, hwalk, hb⟩ := h
  exact hb v hv ▸ hwalk

theorem Walks.behind (hx : x.Walks s rest part) (h : Expr.Walk s es es' true) :
    x.Walks s (es ++ rest) fun a => es' ++ part a := by
  obtain ⟨b, hwalk, hb⟩ := hx
  exact ⟨b, h.append hwalk, hb⟩

/-- the operands behind a failure are left alone -/
theorem Walks.andThen
    (hx : x.Walks s es part) (rest : List Expr) (hwrap : ∀ a, whole (wrap a) = part a ++ rest)
    (hnext : ∀ a b, x = ⟨a, .ok b⟩ → Expr.Walk s es (part a) true → (next a b).Walks s (es ++ rest) whole) :
    (x.andThen wrap next).Walks s (es ++ rest) whole := by
  obtain ⟨a, result⟩ := x
  cases result with
  | ok b => exact hnext a b rfl (hx.of_ok rfl)
  | error c =>
    obtain ⟨b, hwalk, _⟩ := hx
    refine walks_error (b := false) (c := c) ?_ rfl
    show Expr.Walk s (es ++ rest) (whole (wrap a)) false
    rw [hwrap]
    exact hwalk.append_rest rest

theorem Walks.andThen_last (hx : x.Walks s es part) (hwrap : ∀ a, whole (wrap a) = part a)
    (hnext : ∀ a b, x = ⟨a, .ok b⟩ → Expr.Walk s es (part a) true → (next a b).Walks s es whole) :
    (x.andThen wrap next).Walks s es whole := by
  have hnil : es = es ++ [] := (append_nil es).symm
  rw [hnil]
  refine hx.andThen [] (fun a => by rw [hwrap, append_nil]) fun a b hab hwalk => ?_
  rw [← hnil]
  exact hnext a b hab hwalk

theorem Walks.map {f : α → γ} {g : β → δ} (hx : x.Walks s es part)
    (hf : ∀ a, whole (f a) = part a) : (x.map f g).Walks s es whole := by
  obtain ⟨a, result⟩ := x
  obtain ⟨b, hwalk, hb⟩ := hx
  refine ⟨b, (hf a).symm ▸ hwalk, fun v hv => ?_⟩
  cases result with
  | ok u => exact hb u rfl
  | error c => exact nomatch hv

theorem walks_settle (result : Except Cause Ty) (hnode : ∀ t, (node t).operands = es')
    (h : Expr.Walk s es es' true) : (settle node slot result).Walks s es Expr.operands := by
  cases result with
  | ok t => exact ⟨true, (hnode (some t)).symm ▸ h, fun _ _ => rfl⟩
  | error c => exact ⟨true, (hnode slot).symm ▸ h, nofun⟩

end Checked

/-! ## checks walk -/

variable {slot : Option Ty}

theorem Expr.walks_check (s : Scope) (e : Expr) : (e.check s).Walks s [e] fun e => [e] := by
  cases hresult : (e.check s).result with
  | ok t => exact ⟨true, .accept hresult .nil, fun _ _ => rfl⟩
  | error c => exact Checked.walks_error (.fail [] hresult) hresult

theorem Expr.walks_checkAll (s : Scope) (test : List Ty → Ty → Except Cause Unit) (seen : List Ty)
    (es : List Expr) : (Expr.checkAll s test seen es).Walks s es id := by
  induction es generalizing seen with
  | nil => exact ⟨true, .nil, fun _ _ => rfl⟩
  | cons e es ih =>
    rw [Expr.checkAll]
    refine Checked.Walks.andThen (Expr.walks_check s e) es (fun _ => rfl) fun e' t _ he => ?_
    split
    · exact Checked.walks_error (he.append_rest es) rfl
    · exact ((ih (seen ++ [t])).behind he).map fun _ => rfl

theorem Expr.walks_checkEntries (s : Scope) (first : Option (Ty × Ty)) (es : List (Expr × Expr)) :
    (Expr.checkEntries s first es).Walks s (Expr.sides es) Expr.sides := by
  induction es generalizing first with
  | nil => exact ⟨true, .nil, fun _ _ => rfl⟩
  | cons e es ih =>
    obtain ⟨key, value⟩ := e
    rw [Expr.checkEntries]
    refine Checked.Walks.andThen (Expr.walks_check s key) (value :: Expr.sides es) (fun _ => rfl)
      fun key' k _ hkey => ?_
    refine Checked.Walks.andThen ((Expr.walks_check s value).behind hkey) (Expr.sides es) (fun _ => rfl)
      fun value' v _ hvalue => ?_
    split
    · exact Checked.walks_error (hvalue.append_rest _) rfl
    · exact ((ih _).behind hvalue).map fun _ => rfl

theorem Expr.walks_checkCallee (s : Scope) (constructs : Bool) (e : Expr) :
    (e.checkCallee s constructs).Walks s [e] fun e => [e.1] := by
  by_cases hname : ∃ x slot, e = .name x slot
  · obtain ⟨x, slot, rfl⟩ := hname
    show (s.callee x slot constructs).Walks s [.name x slot] fun e => [e.1]
    unfold Scope.callee
    split
    · exact ⟨true, .callee .nil, fun _ _ => rfl⟩
    · split
      · exact Checked.walks_error (.stop _) rfl
      · split
        · exact Checked.walks_error (.stop _) rfl
        · exact ⟨true, .callee .nil, fun _ _ => rfl⟩
  · rw [Expr.checkCallee_of_not_name hname]
    exact Checked.Walks.andThen_last (Expr.walks_check s e) (fun _ => rfl)
      fun e' t _ he => ⟨true, he, fun _ _ => rfl⟩

theorem Expr.walks_operands (s : Scope) (e : Expr) : (e.check s).Walks s e.operands Expr.operands := by
  cases e with
  | literal v slot => exact ⟨true, .nil, fun _ _ => rfl⟩
  | name x slot =>
    rw [Expr.check]
    split <;> exact ⟨true, .nil, fun _ _ => rfl⟩
  | binary op left right slot =>
    rw [Expr.check]
    refine Checked.Walks.andThen (Expr.walks_check s left) [right] (fun _ => rfl)
      fun left' a _ hleft => ?_
    refine Checked.Walks.andThen_last ((Expr.walks_check s right).behind hleft) (fun _ => rfl)
      fun right' b _ hright => ?_
    exact Checked.walks_settle _ (fun _ => rfl) hright
  | unary op operand slot =>
    rw [Expr.check]
    refine Checked.Walks.andThen_last (Expr.walks_check s operand) (fun _ => rfl)
      fun operand' t _ hoperand => ?_
    exact Checked.walks_settle _ (fun _ => rfl) hoperand
  | call callee arguments awaited constructs slot =>
    rw [Expr.check_call]
    refine Checked.Walks.andThen (Expr.walks_checkCallee s constructs callee) arguments (fun _ => rfl)
      fun callee' f _ hcallee => ?_
    unfold Expr.checkApplied
    split
    · exact Checked.walks_error (hcallee.append_rest arguments) rfl
    · refine Checked.Walks.andThen_last ((Expr.walks_checkAll s _ [] arguments).behind hcallee)
        (fun _ => rfl) fun arguments' _ _ harguments => ?_
      exact Checked.walks_settle _ (fun _ => rfl) harguments
  | subscript base index slot =>
    rw [Expr.check]
    refine Checked.Walks.andThen (Expr.walks_check s base) [index] (fun _ => rfl)
      fun base' b _ hbase => ?_
    refine Checked.Walks.andThen_last ((Expr.walks_check s index).behind hbase) (fun _ => rfl)
      fun index' i _ hindex => ?_
    exact Checked.walks_settle _ (fun _ => rfl) hindex
  | member object x slot =>
    rw [Expr.check]
    refine Checked.Walks.andThen_last (Expr.walks_check s object) (fun _ => rfl)
      fun object' t _ hobject => ?_
    split <;> exact ⟨true, hobject, fun _ _ => rfl⟩
  | collection form elements slot =>
    rw [Expr.check]
    refine Checked.Walks.andThen_last (Expr.walks_checkAll s form.test [] elements) (fun _ => rfl)
      fun elements' ts _ helements => ?_
    exact Checked.walks_settle _ (fun _ => rfl) helements
  | dict entries slot =>
    rw [Expr.check]
    refine Checked.Walks.andThen_last (Expr.walks_checkEntries s none entries) (fun _ => rfl)
      fun entries' first _ hentries => ?_
    exact Checked.walks_settle _ (fun _ => rfl) hentries

/-- a check that leaves the slot of its node alone if it fails -/
def Checked.Keeps {β : Type} (slot : Option Ty) (x : Checked Expr β) : Prop :=
  ∀ c, x.result = .error c → x.tree.type = slot

theorem Checked.Keeps.andThen {α β γ : Type} {x : Checked α β} {wrap : α → Expr}
    {next : α → β → Checked Expr γ} (hwrap : ∀ a, (wrap a).type = slot)
    (hnext : ∀ a b, (next a b).Keeps slot) : (x.andThen wrap next).Keeps slot := by
  obtain ⟨a, result⟩ := x
  cases result with
  | ok b => exact hnext a b
  | error c => exact fun _ _ => hwrap a

theorem Checked.keeps_settle (result : Except Cause Ty) (hnode : (node slot).type = slot) :
    (settle node slot result).Keeps slot := by
  cases result with
  | ok t => exact nofun
  | error c => exact fun _ _ => hnode

theorem Checked.keeps_ok {β : Type} (e : Expr) (b : β) : Checked.Keeps slot ⟨e, .ok b⟩ := by
  intro _ h
  cases h

theorem Expr.keeps_check (s : Scope) (e : Expr) : (e.check s).Keeps e.type := by
  cases e with
  | literal v slot => exact Checked.keeps_ok _ _
  | name x slot =>
    rw [Expr.check]
    split
    · exact Checked.keeps_ok _ _
    · exact fun _ _ => rfl
  | binary op left right slot | subscript left right slot =>
    rw [Expr.check]
    exact .andThen (fun _ => rfl) fun _ _ => .andThen (fun _ => rfl) fun _ _ => Checked.keeps_settle _ rfl
  | unary op operand slot | collection form elements slot | dict entries slot =>
    rw [Expr.check]
    exact .andThen (fun _ => rfl) fun _ _ => Checked.keeps_settle _ rfl
  | call callee arguments awaited constructs slot =>
    rw [Expr.check_call]
    refine .andThen (fun _ => rfl) fun callee' f => ?_
    unfold Expr.checkApplied
    split
    · exact fun _ _ => rfl
    · exact .andThen (fun _ => rfl) fun _ _ => Checked.keeps_settle _ rfl
  | member object x slot =>
    rw [Expr.check]
    refine .andThen (fun _ => rfl) fun _ _ => ?_
    split
    · exact Checked.keeps_ok _ _
    · exact fun _ _ => rfl

/-! ## frontiers -/

/-- the nodes whose slots are filled come first -/
def Frontier (nodes : List Expr) : Prop :=
  ∃ done todo, nodes = done ++ todo ∧ (∀ x ∈ done, x.type ≠ none) ∧ ∀ x ∈ todo, x.type = none

variable {nodes more : List Expr}

theorem Frontier.of_filled (h : ∀ x ∈ nodes, x.type ≠ none) : Frontier nodes :=
  ⟨nodes, [], (append_nil nodes).symm, h, nofun⟩

theorem Frontier.of_empty (h : ∀ x ∈ nodes, x.type = none) : Frontier nodes := ⟨[], nodes, rfl, nofun, h⟩

theorem Frontier.append_empty (h : Frontier nodes) (hmore : ∀ x ∈ more, x.type = none) :
    Frontier (nodes ++ more) := by
  obtain ⟨done, todo, rfl, hdone, htodo⟩ := h
  exact ⟨done, todo ++ more, append_assoc done todo more, hdone, forall_mem_append.mpr ⟨htodo, hmore⟩⟩

theorem Frontier.filled_append (hnodes : ∀ x ∈ nodes, x.type ≠ none) (h : Frontier more) :
    Frontier (nodes ++ more) := by
  obtain ⟨done, todo, rfl, hdone, htodo⟩ := h
  exact ⟨nodes ++ done, todo, (append_assoc nodes done todo).symm,
    forall_mem_append.mpr ⟨hnodes, hdone⟩, htodo⟩

/-- an inner node whose check fails has no type in the tree that is left -/
def Expr.Unfilled (s : Scope) (x y : Expr) : Prop :=
  x.operands ≠ [] → ∀ c, (x.check s).result = .error c → y.type = none

/-- The nodes `ys` in the place of `xs`: the filled ones come first, and those whose check fails stay
empty. -/
structure Progressed (s : Scope) (xs ys : List Expr) : Prop where
  frontier : Frontier ys
  unfilled : List.Forall₂ (Expr.Unfilled s) xs ys

variable {xs ys : List Expr}

theorem Progressed.of_empty (h : ∀ x ∈ xs, x.type = none) : Progressed s xs xs :=
  ⟨.of_empty h, List.forall₂_same.mpr fun x hx _ _ _ => h x hx⟩

theorem Progressed.append_empty (h : Progressed s xs ys) (hmore : ∀ x ∈ more, x.type = none) :
    Progressed s (xs ++ more) (ys ++ more) :=
  ⟨h.frontier.append_empty hmore, rel_append h.unfilled (Progressed.of_empty hmore).unfilled⟩

theorem Progressed.filled_append (hx : Progressed s xs ys) (hys : ∀ y ∈ ys, y.type ≠ none)
    (h : Progressed s xs' ys') : Progressed s (xs ++ xs') (ys ++ ys') :=
  ⟨h.frontier.filled_append hys, rel_append hx.unfilled h.unfilled⟩

/-- what is known of the check of a bare expression -/
structure Expr.Progresses (s : Scope) (e : Expr) : Prop where
  filled : ∀ t, (e.check s).result = .ok t → ∀ x ∈ (e.check s).tree.postorder, x.type ≠ none
  progressed : Progressed s e.postorder (e.check s).tree.postorder

theorem Expr.Walk.progressed (h : Expr.Walk s es es' b) (hes : ∀ x ∈ es, x.Progresses s)
    (hempty : ∀ x ∈ es.flatMap Expr.postorder, x.type = none) :
    Progressed s (es.flatMap Expr.postorder) (es'.flatMap Expr.postorder) ∧
      (b = true → ∀ x ∈ es'.flatMap Expr.postorder, x.type ≠ none) := by
  induction h with
  | nil => exact ⟨.of_empty nofun, fun _ => nofun⟩
  | stop es => exact ⟨.of_empty hempty, nofun⟩
  | fail es hfail =>
    obtain ⟨he, _⟩ := forall_mem_cons.mp hes
    rw [flatMap_cons, forall_mem_append] at hempty
    rw [flatMap_cons, flatMap_cons]
    exact ⟨he.progressed.append_empty hempty.2, nofun⟩
  | accept hok _ ih =>
    obtain ⟨he, hes⟩ := forall_mem_cons.mp hes
    rw [flatMap_cons, forall_mem_append] at hempty
    obtain ⟨hrest, hfilled⟩ := ih hes hempty.2
    rw [flatMap_cons, flatMap_cons]
    exact ⟨he.progressed.filled_append (he.filled _ hok) hrest,
      fun hb => forall_mem_append.mpr ⟨he.filled _ hok, hfilled hb⟩⟩
  | @callee x x' slot t es es' b _ ih =>
    obtain ⟨_, hes⟩ := forall_mem_cons.mp hes
    rw [flatMap_cons, forall_mem_append] at hempty
    obtain ⟨hrest, hfilled⟩ := ih hes hempty.2
    have hname : ∀ y ∈ [Expr.name x' (some t)], y.type ≠ none := forall_mem_singleton.mpr nofun
    rw [flatMap_cons, flatMap_cons]
    refine ⟨Progressed.filled_append ⟨.of_filled hname, .cons (fun h => absurd rfl h) .nil⟩ hname hrest,
      fun hb => forall_mem_append.mpr ⟨hname, hfilled hb⟩⟩

theorem Expr.progresses (s : Scope) {e : Expr} (h : ∀ x ∈ e.postorder, x.type = none) : e.Progresses s := by
  induction e using Expr.operand_induction with
  | step e ih =>
    rw [Expr.postorder_eq, forall_mem_append, forall_mem_singleton] at h
    obtain ⟨hoperands, hroot⟩ := h
    obtain ⟨b, hwalk, hb⟩ := Expr.walks_operands s e
    obtain ⟨hrest, hfilled⟩ := hwalk.progressed
      (fun x hx => ih x hx fun y hy => hoperands y (mem_flatMap_of_mem hx hy)) hoperands
    have hunfilled : List.Forall₂ (Expr.Unfilled s) [e] [(e.check s).tree] :=
      .cons (fun _ c hc => (Expr.keeps_check s e c hc).trans hroot) .nil
    have hpairs : List.Forall₂ (Expr.Unfilled s) e.postorder (e.check s).tree.postorder := by
      rw [Expr.postorder_eq e, Expr.postorder_eq (e.check s).tree]
      exact rel_append hrest.unfilled hunfilled
    cases hresult : (e.check s).result with
    | ok t =>
      have haccepted : Expr.Accepted s e (e.check s).tree t := Expr.accepted_of_check (hresult ▸ rfl)
      have hall : ∀ x ∈ (e.check s).tree.postorder, x.type ≠ none := by
        rw [Expr.postorder_eq, forall_mem_append, forall_mem_singleton, haccepted.type]
        exact ⟨hfilled (hb t hresult), nofun⟩
      exact ⟨fun _ _ => hall, .of_filled hall, hpairs⟩
    | error c =>
      refine ⟨fun t ht => absurd (hresult.symm.trans ht) nofun, ?_, hpairs⟩
      rw [Expr.postorder_eq]
      exact hrest.frontier.append_empty
        (forall_mem_singleton.mpr ((Expr.keeps_check s e c hresult).trans hroot))

/-! ## the check of an expression -/

/-- A check of a bare expression fills the slots of its nodes in post-order: all of them if it succeeds,
and else a front part, without the node at the root and without any inner node whose own check fails, as
every node around the failing one does.  It gives out no identities. -/
theorem check_leaves_frontier (c : Context) {e : Expr} (h : ∀ x ∈ e.postorder, x.type = none) :
    let r := e.check c.scope
    (∃ done todo, r.tree.postorder = done ++ todo ∧ (∀ x ∈ done, x.type ≠ none) ∧
      (∀ x ∈ todo, x.type = none) ∧
      ∀ t, r.result = .ok t → todo = []) ∧
    (∀ cause, r.result = .error cause → r.tree.type = none) ∧
    List.Forall₂ (fun x y => x.operands ≠ [] → ∀ cause, (x.check c.scope).result = .error cause →
      y.type = none)
      e.postorder r.tree.postorder ∧
    ((Stmt.expression e).check c).context = c := by
  intro r
  have hprogress := Expr.progresses c.scope h
  have hroot : e.type = none := h e (by rw [Expr.postorder_eq]; exact mem_append_right _ mem_cons_self)
  obtain ⟨done, todo, hnodes, hdone, htodo⟩ := hprogress.progressed.frontier
  refine ⟨⟨done, todo, hnodes, hdone, htodo, fun t ht => ?_⟩,
    fun cause hcause => (Expr.keeps_check c.scope e cause hcause).trans hroot,
      hprogress.progressed.unfilled, ?_⟩
  · refine eq_nil_iff_forall_not_mem.mpr fun x hx => hprogress.filled t ht x ?_ (htodo x hx)
    rw [hnodes]
    exact mem_append_right _ hx
  · rw [Stmt.check]
    unfold Checked.step
    split <;> rfl

/-- `(1 + 2) - (3 + "a") - f(4)`: the last of the sums fails, when `1`, `2`, `1 + 2`, `3` and the text have
their types -/
theorem check_leaves_frontier_sum : let number (n : Int) := Expr.literal (.integer n) none
    let sum := Expr.binary .add (number 3) (.literal (.string "a") none) none
    let e := Expr.binary .subtract (.binary .subtract (.binary .add (number 1) (number 2) none) sum none)
      (.call (.name (.ofName "f") none) [number 4] false false none) none
    let c : Context := ⟨Scope.root, 1⟩
    (∀ x ∈ e.postorder, x.type = none) ∧ (e.check c.scope).tree.postorder.map (·.type.isSome)
        = [true, true, true, true, true, false, false, false, false, false, false] ∧
      (e.check c.scope).tree.type = none ∧ ((Stmt.expression e).check c).context = c := by
  intro number sum e c
  have hbare : ∀ x ∈ e.postorder, x.type = none := by
    simp [e, sum, number, Expr.postorder, Expr.postorderAll, Expr.type]
  obtain ⟨_, hroot, _, hcontext⟩ := check_leaves_frontier c hbare
  exact ⟨hbare, by cbv, hroot (.concatenationMismatch "int" "string") (by cbv), hcontext⟩

end TypedScript
