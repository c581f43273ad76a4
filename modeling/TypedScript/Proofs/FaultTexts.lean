import TypedScript.Proofs.Renaming

/-!
# The texts of faults

The header of a report is one line if the texts that its cause quotes have no line break.  The checker
quotes names, types and operators: names come from the source, where a name is a word, and the text of a
type is made of such names.  What the checker does with a tree that was read from a source is said under
an assumption `X`; without it, what is left is which causes it can find.
-/

namespace TypedScript

open List

/-! ## texts -/

/-- no line break occurs in the text -/
def IsLine (s : String) : Prop := '\n' ∉ s.toList

/-- for a text that is written out, the characters are found by unification -/
theorem isLine_ofList (h : '\n' ∉ cs) : IsLine (String.ofList cs) := by
  unfold IsLine
  rwa [String.toList_ofList]

theorem isLine_append : IsLine (a ++ b) ↔ IsLine a ∧ IsLine b := by
  unfold IsLine
  rw [String.toList_append, mem_append, not_or]

theorem isLine_intercalate (h : IsLine separator) :
    IsLine (separator.intercalate texts) ↔ ∀ t ∈ texts, IsLine t := by
  induction texts with
  | nil => exact ⟨nofun, fun _ => isLine_ofList (by decide)⟩
  | cons t texts ih =>
    cases texts with
    | nil => rw [String.intercalate_singleton, forall_mem_singleton]
    | cons u texts =>
      rw [String.intercalate_cons_cons, isLine_append, isLine_append, ih, and_iff_left h,
        ← forall_mem_cons]

theorem isLine_toString (n : Nat) : IsLine (toString n) := by
  intro h
  have hdigit := Nat.isDigit_of_mem_toDigits (by decide) (by decide) (Nat.toList_repr ▸ h)
  exact absurd hdigit (by decide)

theorem isLine_of_isName (h : isName x) : IsLine x := by
  intro hmem
  unfold isName at h
  split at h
  · cases h
  · next c cs hx =>
    rw [Bool.and_eq_true, Bool.and_eq_true, all_eq_true] at h
    rw [hx] at hmem
    rcases mem_cons.mp hmem with rfl | hmem
    · exact absurd h.1.1 (by decide)
    · exact absurd (h.1.2 _ hmem) (by decide)

section
variable {X : Prop} {a b : String}

theorem isLine_single (ha : X → IsLine a) : X → ∀ t ∈ [a], IsLine t :=
  fun x => forall_mem_singleton.mpr (ha x)

theorem isLine_pair (ha : X → IsLine a) (hb : X → IsLine b) : X → ∀ t ∈ [a, b], IsLine t :=
  fun x => forall_mem_cons.mpr ⟨ha x, isLine_single hb x⟩

theorem isLine_name (h : X → isName a) : X → ∀ t ∈ [a], IsLine t :=
  isLine_single fun x => isLine_of_isName (h x)

end

/-! ## causes -/

variable {e : Cause}

def Cause.texts : Cause → List String
  | unrecognisedToken t | unexpectedToken t | numberOutOfRange t => [t]
  | unexpectedTokenDetailed t m => [t, m]
  | duplicateDeclaration n | undeclaredIdentifier n | constantWithoutValue n | missingTypeAndValue n
  | constantAssignment n | notCallable n | awaitMismatch n _ => [n]
  | unknownType t | genericArity t _ _ | invalidTarget t | unsupportedTarget t => [t]
  | typeMismatch e r | argumentMismatch e r | elementMismatch e r => [e, r]
  | operandMismatch o l r => [o, l, r]
  | concatenationMismatch l r => [l, r]
  | unaryMismatch o x => [o, x]
  | conditionMismatch c r => [c, r]
  | notSubscriptable r | indexMismatch r | rangeBoundMismatch r => [r]
  | loopIndexMismatch n r => [n, r]
  | arityMismatch _ _ | unexpectedArguments _ _ | missingArguments _ _ | breakOutsideLoop
  | continueOutsideLoop | returnOutsideFunction | returnValueInVoidFunction
  | awaitOutsideAsyncFunction => []

/-- the causes that speak of where a statement stands -/
def Cause.ofPlacement : Cause → Bool
  | .breakOutsideLoop => true
  | .continueOutsideLoop => true
  | .returnOutsideFunction => true
  | .returnValueInVoidFunction => true
  | _ => false

/-- the cause is found without a place, and its texts are lines -/
structure Cause.Plain (X : Prop) (e : Cause) : Prop where
  category : (e.category != .grammar) = true
  texts : X → ∀ t ∈ e.texts, IsLine t

theorem Cause.isLine_name (e : Cause) : IsLine e.name := by
  cases e <;> exact isLine_ofList (by decide)

theorem Cause.isLine_tip (h : ∀ t ∈ e.texts, IsLine t) {tip : String}
    (htip : e.tip = some tip) : IsLine tip := by
  cases e with
  | breakOutsideLoop | continueOutsideLoop | returnOutsideFunction | returnValueInVoidFunction
  | awaitOutsideAsyncFunction =>
    cases htip
    exact isLine_ofList (by decide)
  | awaitMismatch f a =>
    have hf : IsLine (ticked f) := by
      rw [ticked, isLine_append, isLine_append]
      exact ⟨⟨isLine_ofList (by decide), h f mem_cons_self⟩, isLine_ofList (by decide)⟩
    cases a <;> cases htip <;> exact isLine_append.mpr ⟨hf, isLine_ofList (by decide)⟩
  | _ =>
    -- what is left of a wording without its texts and numbers is written out
    cases htip <;> simp only [texts, forall_mem_cons] at h <;>
      simp only [ticked, isLine_append, isLine_toString, h, and_true, true_and] <;>
      repeat' apply And.intro
    all_goals exact isLine_ofList (by decide)

/-- a cause by its name, with the tip if there is one -/
def Cause.headline (e : Cause) : String :=
  "Error: " ++ e.name ++ e.tip.elim "" fun tip => " (" ++ tip ++ ")"

theorem Diagnostic.header_eq (d : Diagnostic) : d.header = d.cause.headline ++ "\n" := by
  unfold Diagnostic.header Cause.headline
  cases d.cause.tip <;> simp [String.append_assoc]

theorem Cause.Plain.isLine_headline (h : e.Plain True) : IsLine e.headline := by
  have hstart : IsLine ("Error: " ++ e.name) :=
    isLine_append.mpr ⟨isLine_ofList (by decide), e.isLine_name⟩
  refine isLine_append.mpr ⟨hstart, ?_⟩
  cases htip : e.tip with
  | none => exact isLine_ofList (by decide)
  | some tip =>
    show IsLine (" (" ++ tip ++ ")")
    rw [isLine_append, isLine_append]
    exact ⟨⟨isLine_ofList (by decide), isLine_tip (h.texts trivial) htip⟩, isLine_ofList (by decide)⟩

/-! ## types -/

def Ty.OneLine (t : Ty) : Prop := IsLine t.text

namespace Ty

variable {t k v : Ty}
variable {ts : List Ty}

theorem oneLine_array : (array t).OneLine ↔ t.OneLine := by
  show IsLine ("array<" ++ t.text ++ ">") ↔ _
  rw [isLine_append, isLine_append]
  exact ⟨fun h => h.1.2, fun h => ⟨⟨isLine_ofList (by decide), h⟩, isLine_ofList (by decide)⟩⟩

theorem oneLine_set : (set t).OneLine ↔ t.OneLine := by
  show IsLine ("set<" ++ t.text ++ ">") ↔ _
  rw [isLine_append, isLine_append]
  exact ⟨fun h => h.1.2, fun h => ⟨⟨isLine_ofList (by decide), h⟩, isLine_ofList (by decide)⟩⟩

theorem oneLine_nullable : (nullable t).OneLine ↔ t.OneLine := by
  show IsLine (t.text ++ "?") ↔ _
  rw [isLine_append]
  exact ⟨fun h => h.1, fun h => ⟨h, isLine_ofList (by decide)⟩⟩

theorem oneLine_dict : (dict k v).OneLine ↔ k.OneLine ∧ v.OneLine := by
  show IsLine ("dict<" ++ k.text ++ ", " ++ v.text ++ ">") ↔ _
  rw [isLine_append, isLine_append, isLine_append, isLine_append]
  exact ⟨fun h => ⟨h.1.1.1.2, h.1.2⟩, fun h => ⟨⟨⟨⟨isLine_ofList (by decide), h.1⟩,
    isLine_ofList (by decide)⟩, h.2⟩, isLine_ofList (by decide)⟩⟩

theorem oneLine_tuple : (tuple ts).OneLine ↔ ∀ t ∈ ts, t.OneLine := by
  show IsLine ("tuple<" ++ ", ".intercalate (texts ts) ++ ">") ↔ _
  rw [isLine_append, isLine_append, texts_eq_map, isLine_intercalate (isLine_ofList (by decide)),
    forall_mem_map]
  exact ⟨fun h => h.1.2, fun h => ⟨⟨isLine_ofList (by decide), h⟩, isLine_ofList (by decide)⟩⟩

theorem oneLine_function : (function ps t a).OneLine ↔ (∀ p ∈ ps, p.type.OneLine) ∧ t.OneLine := by
  have hasync : IsLine (if a then "async " else "") := by
    cases a <;> exact isLine_ofList (by decide)
  show IsLine ((if a then "async " else "") ++ "fn(" ++ ", ".intercalate (paramTexts ps) ++ ") -> " ++ t.text)
    ↔ _
  rw [isLine_append, isLine_append, isLine_append, isLine_append, paramTexts_eq_map,
    isLine_intercalate (isLine_ofList (by decide)), forall_mem_map]
  exact ⟨fun h => ⟨h.1.1.2, h.2⟩, fun h => ⟨⟨⟨⟨hasync, isLine_ofList (by decide)⟩, h.1⟩,
    isLine_ofList (by decide)⟩, h.2⟩⟩

theorem oneLine_int : int.OneLine := isLine_ofList (by decide)

theorem oneLine_long : long.OneLine := isLine_ofList (by decide)

theorem oneLine_string : string.OneLine := isLine_ofList (by decide)

theorem oneLine_bool : bool.OneLine := isLine_ofList (by decide)

theorem oneLine_none : none.OneLine := isLine_ofList (by decide)

theorem oneLine_tupleOf (h : ∀ t ∈ ts, t.OneLine) : (tupleOf ts).OneLine := by
  have hsorted : ∀ t ∈ sortedSet ts, t.OneLine := fun t ht => h t (mem_sortedSet.mp ht)
  unfold tupleOf
  split
  · exact oneLine_set.mpr oneLine_none
  · next heq =>
    rw [heq] at hsorted
    exact oneLine_tuple.mpr hsorted

theorem OneLine.subscript (h : t.OneLine) {u : Ty} (hu : t.subscript? = some u) : u.OneLine := by
  unfold subscript? at hu
  split at hu
  · cases hu
    exact oneLine_array.mp h
  · cases hu
    exact (oneLine_dict.mp h).2
  · cases hu
    exact h
  · cases hu
    exact oneLine_tuple.mp h u mem_cons_self
  · cases hu

theorem OneLine.signature (h : t.OneLine) (hf : t.signature? = some f) : f.type.OneLine := by
  unfold signature? at hf
  split at hf
  · cases hf
    exact h
  · cases hf

end Ty

/-! ## scopes -/

/-- the types that a frame holds have texts of one line -/
structure Frame.OneLine (f : Frame) : Prop where
  vars : ∀ e ∈ f.vars.entries, e.2.type.OneLine
  classes : ∀ e ∈ f.classes, e.2.type.OneLine
  constructors : ∀ e ∈ f.classes, ∀ g ∈ e.2.constructor, g.type.OneLine
  function : ∀ g ∈ f.function, g.type.OneLine

namespace Scope

variable {s : Scope}
variable {b : Binding} {x : String}

def OneLine (s : Scope) : Prop := ∀ f ∈ s.frames, f.OneLine

theorem OneLine.frame (h : s.OneLine) : s.frame.OneLine := h s.frame mem_cons_self

theorem OneLine.findVariable (h : s.OneLine) (hb : s.findVariable? x = some b) : b.type.OneLine := by
  obtain ⟨f, hf, hfind⟩ := exists_of_findSome?_eq_some hb
  exact (h f hf).vars (x, b) (Variables.mem_of_find? hfind)

theorem OneLine.findClass (h : s.OneLine) {b : ClassBinding}
    (hb : s.findClass? x = some b) : b.type.OneLine ∧ ∀ g ∈ b.constructor, g.type.OneLine := by
  obtain ⟨f, hf, hfind⟩ := exists_of_findSome?_eq_some hb
  have hmem := Table.mem_of_find? hfind
  exact ⟨(h f hf).classes (x, b) hmem, (h f hf).constructors (x, b) hmem⟩

theorem oneLine_enter (h : s.OneLine) (hf : ∀ g ∈ function, g.type.OneLine) (insideLoop : Bool) :
    (s.enter function insideLoop).OneLine :=
  forall_mem_cons.mpr ⟨⟨nofun, nofun, nofun, hf⟩, h⟩

theorem OneLine.enterFunction (h : s.OneLine) {g : Signature} (hg : g.type.OneLine) :
    (s.enterFunction g).OneLine := by
  refine oneLine_enter h (fun f hf => ?_) false
  cases hf
  exact hg

theorem OneLine.enterLoop (h : s.OneLine) : s.enterLoop.OneLine := oneLine_enter h h.frame.function true

theorem OneLine.enterBlock (h : s.OneLine) : s.enterBlock.OneLine :=
  oneLine_enter h h.frame.function s.frame.insideLoop

theorem OneLine.defineVariable (h : s.OneLine) (x : String) (hb : b.type.OneLine) :
    (s.defineVariable x b).OneLine := by
  refine forall_mem_cons.mpr ⟨⟨fun e he => ?_, h.frame.classes, h.frame.constructors,
    h.frame.function⟩, fun f hf => h f (mem_cons_of_mem _ hf)⟩
  rcases Table.mem_put (Variables.entries_put _ x b ▸ he) with heq | he
  · exact heq ▸ hb
  · exact h.frame.vars e he

theorem OneLine.defineClass (h : s.OneLine) (x : String) {b : ClassBinding} (hb : b.type.OneLine)
    (hg : ∀ g ∈ b.constructor, g.type.OneLine) : (s.defineClass x b).OneLine := by
  refine forall_mem_cons.mpr ⟨⟨h.frame.vars, fun e he => ?_, fun e he => ?_, h.frame.function⟩,
    fun f hf => h f (mem_cons_of_mem _ hf)⟩
  · rcases Table.mem_put he with heq | he
    · exact heq ▸ hb
    · exact h.frame.classes e he
  · rcases Table.mem_put he with heq | he
    · exact heq ▸ hg
    · exact h.frame.constructors e he

theorem oneLine_empty : Scope.empty.OneLine := forall_mem_singleton.mpr ⟨nofun, nofun, nofun, nofun⟩

theorem oneLine_root : root.OneLine := by
  have hclasses : ∀ (ps : List (String × Ty)) (s : Scope), (∀ p ∈ ps, p.2.OneLine) → s.OneLine →
      (ps.foldl (fun s p => s.defineClass p.1 ⟨.builtin p.1, p.2, none⟩) s).OneLine := by
    intro ps
    induction ps with
    | nil => exact fun s _ hs => hs
    | cons p ps ih =>
      intro s hps hs
      obtain ⟨hp, hps⟩ := forall_mem_cons.mp hps
      exact ih _ hps (hs.defineClass p.1 hp fun _ hg => absurd hg (Option.not_mem_none _))
  have hvars : ∀ (bs : List Builtin) (s : Scope), (∀ b ∈ bs, b.binding.type.OneLine) → s.OneLine →
      (bs.foldl (fun s b => s.defineVariable b.name b.binding) s).OneLine := by
    intro bs
    induction bs with
    | nil => exact fun s _ hs => hs
    | cons b bs ih =>
      intro s hbs hs
      obtain ⟨hb, hbs⟩ := forall_mem_cons.mp hbs
      exact ih _ hbs (hs.defineVariable b.name hb)
  refine hvars builtins _ ?_ (hclasses primitives _ ?_ oneLine_empty)
  · simp only [builtins, forall_mem_cons, Builtin.binding, Ty.oneLine_function]
    simp [Ty.oneLine_int, Ty.oneLine_long, Ty.oneLine_string]
  · simp [primitives, Ty.oneLine_int, Ty.oneLine_long, Ty.oneLine_string, Ty.oneLine_bool, Ty.oneLine_none]

end Scope

/-! ## results -/

variable {X : Prop}

/-- a value as wanted, or a plain cause that is none of placement -/
def Plainly (X : Prop) {β : Type} (V : β → Prop) : Except Cause β → Prop
  | .ok b => X → V b
  | .error e => e.ofPlacement = false ∧ e.Plain X

/-- a test gives no value -/
def Done (_ : Unit) : Prop := True

namespace Plainly

variable {α β γ δ : Type} {V : β → Prop} {W : γ → Prop}
variable {r : Except Cause β}

theorem error_of_eq (h : Plainly X V r) (he : r = .error e) : e.ofPlacement = false ∧ e.Plain X := by
  subst he
  exact h

theorem ok_of_eq (h : Plainly X V r) {b : β} (hb : r = .ok b) (x : X) : V b := by
  subst hb
  exact h x

theorem map (h : Plainly X V r) {f : β → γ} (hf : X → ∀ b, V b → W (f b)) : Plainly X W (r.map f) := by
  cases r with
  | ok b => exact fun x => hf x b (h x)
  | error e => exact h

theorem bind (h : Plainly X V r) {f : β → Except Cause γ}
    (hf : ∀ b, (X → V b) → Plainly X W (f b)) : Plainly X W (r >>= f) := by
  cases r with
  | ok b => exact hf b h
  | error e => exact h

theorem andThen {x : Checked α β} (hx : Plainly X V x.result) {wrap : α → δ} {next : α → β → Checked δ γ}
    (hnext : ∀ a b, x = ⟨a, .ok b⟩ → (X → V b) → Plainly X W (next a b).result) :
    Plainly X W (x.andThen wrap next).result := by
  obtain ⟨a, result⟩ := x
  cases result with
  | ok b => exact hnext a b rfl hx
  | error e => exact hx

theorem settle {V : Ty → Prop} (h : Plainly X V result) : Plainly X V (settle node slot result).result := by
  cases result with
  | ok t | error e => exact h

theorem ite [Decidable p] {r' : Except Cause β} (h : Plainly X V r) (h' : Plainly X V r') :
    Plainly X V (if p then r else r') := by
  split
  · exact h
  · exact h'

end Plainly

/-! ## tests and operators -/

section
variable {s : Scope} (hs : X → s.OneLine)
include hs

theorem Scope.plainly_lookupVariable (hx : X → isName x) :
    Plainly X (fun b : Binding => b.type.OneLine) (s.lookupVariable x) := by
  unfold Scope.lookupVariable
  split
  · next b hb => exact fun p => (hs p).findVariable hb
  · exact ⟨rfl, rfl, isLine_name hx⟩

theorem Scope.plainly_callee {x : Symbol} (hx : X → isName x.name) (slot : Option Ty) (constructs : Bool) :
    Plainly X (fun f : Callee => IsLine f.name ∧ f.signature.type.OneLine)
      (s.callee x slot constructs).result := by
  unfold Scope.callee
  split
  · next b hb =>
    dsimp only
    split
    · next f hf => exact fun p => ⟨isLine_of_isName (hx p), ((hs p).findVariable hb).signature hf⟩
    · exact ⟨rfl, rfl, isLine_name hx⟩
  · split
    · exact ⟨rfl, rfl, isLine_name hx⟩
    · next c hc =>
      split
      · exact ⟨rfl, rfl, isLine_name hx⟩
      · next f hf => exact fun p => ⟨isLine_of_isName (hx p), ((hs p).findClass hc).2 f hf⟩

end

section
variable {t u : Ty}

variable {k v : Ty} {first : Option (Ty × Ty)}

theorem BinaryOp.isLine_symbol (op : BinaryOp) : IsLine op.symbol := by
  cases op <;> exact isLine_ofList (by decide)

theorem UnaryOp.isLine_symbol (op : UnaryOp) : IsLine op.symbol := by
  cases op <;> exact isLine_ofList (by decide)

theorem BinaryOp.plainly_result (op : BinaryOp) (ht : X → t.OneLine) (hu : X → u.OneLine) :
    Plainly X Ty.OneLine (op.result t u) := by
  have hmismatch : Plainly X Ty.OneLine (.error (op.mismatch t u)) :=
    ⟨rfl, rfl, fun p => forall_mem_cons.mpr ⟨op.isLine_symbol, isLine_pair ht hu p⟩⟩
  unfold BinaryOp.result
  cases op with
  | power | subtract | multiply | modulo | divide => exact .ite (fun _ => Ty.oneLine_int) hmismatch
  | add =>
    exact .ite (fun _ => Ty.oneLine_int) (.ite (fun _ => Ty.oneLine_string) ⟨rfl, rfl, isLine_pair ht hu⟩)
  | _ => exact .ite (fun _ => Ty.oneLine_bool) hmismatch

theorem UnaryOp.plainly_result (op : UnaryOp) (ht : X → t.OneLine) : Plainly X Ty.OneLine (op.result t) := by
  unfold UnaryOp.result
  split
  · exact ht
  · exact ht
  · exact ht
  · exact ht
  · exact ht
  · exact ⟨rfl, rfl, isLine_pair (fun _ => op.isLine_symbol) ht⟩

theorem plainly_mismatch {β : Type} {V : β → Prop} (ht : X → t.OneLine) (hu : X → u.OneLine) :
    Plainly X V (.error (mismatch t u)) :=
  ⟨rfl, rfl, isLine_pair ht hu⟩

/-- what a test on types has to respect -/
def PlainTest (X : Prop) (test : List Ty → Ty → Except Cause Unit) : Prop :=
  ∀ seen t, (X → ∀ u ∈ seen, u.OneLine) → (X → t.OneLine) → Plainly X Done (test seen t)

theorem plainTest_element : PlainTest X elementTest := by
  intro seen t hseen ht
  unfold elementTest
  split
  · exact fun _ => trivial
  · next first _ =>
    exact .ite (fun _ => trivial) ⟨rfl, rfl, isLine_pair (fun p => hseen p first mem_cons_self) ht⟩

theorem Collection.plainTest (form : Collection) : PlainTest X form.test := by
  cases form with
  | tuple => exact fun _ _ _ _ _ => trivial
  | array | set => exact plainTest_element

theorem plainTest_argument (h : X → ∀ p ∈ params, p.type.OneLine) : PlainTest X (argumentTest params) := by
  intro seen t _ ht
  unfold argumentTest
  split
  · next p hp =>
    exact .ite (fun _ => trivial) ⟨rfl, rfl, isLine_pair (fun x => h x p (mem_of_getElem? hp)) ht⟩
  · exact fun _ => trivial

theorem plainTest_assigned (h : X → ∀ t ∈ targets, t.OneLine) : PlainTest X (assignedTest targets) := by
  intro seen t _ ht
  unfold assignedTest
  split
  · next target htarget =>
    exact .ite (fun _ => trivial) (plainly_mismatch (fun x => h x target (mem_of_getElem? htarget)) ht)
  · exact fun _ => trivial

def EntryOneLine (first : Option (Ty × Ty)) : Prop := ∀ p ∈ first, p.1.OneLine ∧ p.2.OneLine

theorem entryOneLine_none : EntryOneLine none := nofun

theorem plainly_entryTest (h : X → EntryOneLine first)
    (hk : X → k.OneLine) (hv : X → v.OneLine) : Plainly X Done (entryTest first k v) := by
  unfold entryTest
  split
  · exact fun _ => trivial
  · next k' v' =>
    have hfirst := fun x => h x (k', v') rfl
    exact .ite ⟨rfl, rfl, isLine_pair (fun x => (hfirst x).1) hk⟩
      (.ite ⟨rfl, rfl, isLine_pair (fun x => (hfirst x).2) hv⟩ fun _ => trivial)

theorem EntryOneLine.or (h : EntryOneLine first) (hk : k.OneLine)
    (hv : v.OneLine) : EntryOneLine (first.or (some (k, v))) := by
  cases first with
  | some p => exact h
  | none =>
    intro p hp
    cases hp
    exact ⟨hk, hv⟩

theorem plainly_subscriptType (ht : X → t.OneLine) (hu : X → u.OneLine) :
    Plainly X Ty.OneLine (subscriptType t u) := by
  unfold subscriptType
  split
  · exact ⟨rfl, rfl, isLine_single ht⟩
  · next element helement =>
    exact .ite (fun x => (ht x).subscript helement) ⟨rfl, rfl, isLine_single hu⟩

theorem Collection.oneLine_type (form : Collection) (h : ∀ t ∈ ts, t.OneLine) : (form.type ts).OneLine := by
  have hhead : (ts.headD .none).OneLine := by
    cases ts with
    | nil => exact Ty.oneLine_none
    | cons t ts => exact h t mem_cons_self
  cases form with
  | array => exact Ty.oneLine_array.mpr hhead
  | set => exact Ty.oneLine_set.mpr hhead
  | tuple => exact Ty.oneLine_tupleOf h

theorem Callee.plainly_awaitTest {f : Callee} (hf : X → IsLine f.name) (awaited : Bool)
    (around : Option Signature) : Plainly X Done (f.awaitTest awaited around) :=
  .ite ⟨rfl, rfl, isLine_single hf⟩ (.ite ⟨rfl, rfl, fun _ => forall_mem_nil _⟩ fun _ => trivial)

theorem Signature.plainly_arityTest (f : Signature) (received : Nat) :
    Plainly X Done (f.arityTest received) :=
  have htexts : X → ∀ t ∈ [], IsLine t := fun _ => forall_mem_nil _
  .ite ⟨rfl, rfl, htexts⟩ (.ite ⟨rfl, rfl, htexts⟩ fun _ => trivial)

end

/-! ## expressions -/

theorem Expr.WellFormed.isLine_describe {e : Expr} (h : e.WellFormed) : IsLine e.describe := by
  have hticked : ∀ {a x b : String}, IsLine a → IsLine x → IsLine b → IsLine (a ++ x ++ b) :=
    fun ha hx hb => isLine_append.mpr ⟨isLine_append.mpr ⟨ha, hx⟩, hb⟩
  cases h with
  | name hx => exact hticked (isLine_ofList (by decide)) (isLine_of_isName hx) (isLine_ofList (by decide))
  | member _ hx =>
    exact hticked (isLine_ofList (by decide)) (isLine_of_isName hx) (isLine_ofList (by decide))
  | @binary op | @unary op =>
    exact hticked (isLine_ofList (by decide)) op.isLine_symbol (isLine_ofList (by decide))
  | @collection form => cases form <;> exact isLine_ofList (by decide)
  | _ => exact isLine_ofList (by decide)

theorem Expr.Accepted.describe {e e' : Expr} (h : Expr.Accepted s e e' t) : e'.describe = e.describe := by
  cases h with
  | @collection form => cases form <;> rfl
  | _ => rfl

theorem Literal.oneLine_type (v : Literal) : v.type.OneLine := by
  cases v <;> exact isLine_ofList (by decide)

section
variable {s : Scope}

theorem Expr.plainly_checkAll (htest : PlainTest X test)
    (h : ∀ e ∈ es, Plainly X Ty.OneLine (e.check s).result) (seen : List Ty)
    (hseen : X → ∀ t ∈ seen, t.OneLine) :
    Plainly X (fun ts : List Ty => ∀ t ∈ ts, t.OneLine) (Expr.checkAll s test seen es).result := by
  induction es generalizing seen with
  | nil => exact hseen
  | cons e es ih =>
    obtain ⟨he, hes⟩ := forall_mem_cons.mp h
    rw [Expr.checkAll]
    refine .andThen he fun e' t _ ht => ?_
    split
    · next c hc => exact (htest seen t hseen ht).error_of_eq hc
    · refine (ih hes _ fun x => ?_).map fun _ ts hts => hts
      exact forall_mem_append.mpr ⟨hseen x, forall_mem_singleton.mpr (ht x)⟩

theorem Expr.plainly_checkEntries (hkeys : ∀ e ∈ es, Plainly X Ty.OneLine (e.1.check s).result)
    (hvalues : ∀ e ∈ es, Plainly X Ty.OneLine (e.2.check s).result) (first : Option (Ty × Ty))
    (hfirst : X → EntryOneLine first) : Plainly X EntryOneLine (Expr.checkEntries s first es).result := by
  induction es generalizing first with
  | nil => exact hfirst
  | cons e es ih =>
    obtain ⟨key, value⟩ := e
    obtain ⟨hkey, hkeys⟩ := forall_mem_cons.mp hkeys
    obtain ⟨hvalue, hvalues⟩ := forall_mem_cons.mp hvalues
    rw [Expr.checkEntries]
    refine .andThen hkey fun key' k _ hk => .andThen hvalue fun value' v _ hv => ?_
    split
    · next c hc => exact (plainly_entryTest hfirst hk hv).error_of_eq hc
    · exact (ih hkeys hvalues _ fun x => (hfirst x).or (hk x) (hv x)).map fun _ _ h => h

theorem Expr.plainly_checkCallee (hs : X → s.OneLine) {callee : Expr} (h : X → callee.WellFormed)
    (hcheck : Plainly X Ty.OneLine (callee.check s).result) (constructs : Bool) :
    Plainly X (fun f : Callee => IsLine f.name ∧ f.signature.type.OneLine)
      (callee.checkCallee s constructs).result := by
  by_cases hname : ∃ x slot, callee = .name x slot
  · obtain ⟨x, slot, rfl⟩ := hname
    exact Scope.plainly_callee hs (fun p => by cases h p with | name hx => exact hx) slot constructs
  · rw [Expr.checkCallee_of_not_name hname]
    refine .andThen hcheck fun callee' t heq ht => ?_
    have hdescribe : X → IsLine callee'.describe := by
      rw [(Expr.accepted_of_check heq).describe]
      exact fun p => (h p).isLine_describe
    dsimp only
    split
    · next f hf => exact fun p => ⟨hdescribe p, (ht p).signature hf⟩
    · exact ⟨rfl, rfl, isLine_single hdescribe⟩

theorem Expr.plainly_check (hs : X → s.OneLine) {e : Expr} (h : X → e.WellFormed) :
    Plainly X Ty.OneLine (e.check s).result := by
  induction e with
  | literal v slot => exact fun _ => v.oneLine_type
  | name x slot =>
    have hlookup := Scope.plainly_lookupVariable hs (x := x.name) fun p => by cases h p; assumption
    rw [Expr.check]
    split
    · next b hb => exact hlookup.ok_of_eq hb
    · next c hc => exact hlookup.error_of_eq hc
  | binary op left right slot ihl ihr =>
    rw [Expr.check]
    refine .andThen (ihl fun p => by cases h p; assumption) fun _ a _ ha => ?_
    exact .andThen (ihr fun p => by cases h p; assumption) fun _ b _ hb => .settle (op.plainly_result ha hb)
  | unary op operand slot ih =>
    rw [Expr.check]
    exact .andThen (ih fun p => by cases h p; assumption) fun _ t _ ht => .settle (op.plainly_result ht)
  | call callee arguments awaited constructs slot ihc iha =>
    have hcallee : X → callee.WellFormed := fun p => by cases h p; assumption
    rw [Expr.check_call]
    refine .andThen (Expr.plainly_checkCallee hs hcallee (ihc hcallee) constructs) fun e f _ hf => ?_
    have hsignature := fun x => Ty.oneLine_function.mp (hf x).2
    unfold Expr.checkApplied
    split
    · next c hc => exact (f.signature.plainly_arityTest arguments.length).error_of_eq hc
    · refine .andThen (Expr.plainly_checkAll (plainTest_argument fun x => (hsignature x).1)
        (fun a ha => iha a ha fun p => ?_) [] fun _ => forall_mem_nil _) fun _ _ _ _ => .settle ?_
      · cases h p with
        | call _ harguments => exact harguments a ha
      · exact (Callee.plainly_awaitTest (fun x => (hf x).1) awaited s.frame.function).map
          fun x _ _ => (hsignature x).2
  | subscript base index slot ihb ihi =>
    rw [Expr.check]
    refine .andThen (ihb fun p => by cases h p; assumption) fun _ b _ hb => ?_
    exact .andThen (ihi fun p => by cases h p; assumption) fun _ i _ hi =>
      .settle (plainly_subscriptType hb hi)
  | member object x slot ih =>
    have hlookup := Scope.plainly_lookupVariable hs (x := x.name) fun p => by cases h p; assumption
    rw [Expr.check]
    refine .andThen (ih fun p => by cases h p; assumption) fun _ _ _ _ => ?_
    split
    · next b hb => exact hlookup.ok_of_eq hb
    · next c hc => exact hlookup.error_of_eq hc
  | collection form elements slot ih =>
    rw [Expr.check]
    refine .andThen (Expr.plainly_checkAll form.plainTest (fun e he => ih e he fun p => ?_) []
      fun _ => forall_mem_nil _) fun _ ts _ hts => .settle fun x => form.oneLine_type (hts x)
    cases h p with
    | collection _ helements => exact helements e he
  | dict entries slot ihk ihv =>
    rw [Expr.check]
    refine .andThen (Expr.plainly_checkEntries (fun e he => ihk e he fun p => ?_)
      (fun e he => ihv e he fun p => ?_)
      none fun _ => entryOneLine_none) fun _ first _ hfirst => .settle fun x => ?_
    · cases h p with
      | dict hkeys _ => exact hkeys e he
    · cases h p with
      | dict _ hvalues => exact hvalues e he
    · cases first with
      | none => exact Ty.oneLine_dict.mpr ⟨Ty.oneLine_none, Ty.oneLine_none⟩
      | some p => exact Ty.oneLine_dict.mpr (hfirst x p rfl)

/-! ## written types -/

theorem Generic.oneLine_build (g : Generic) (h : ∀ t ∈ ts, t.OneLine) : (g.build ts).OneLine := by
  unfold Generic.build
  split
  · exact Ty.oneLine_array.mpr (h _ mem_cons_self)
  · exact Ty.oneLine_set.mpr (h _ mem_cons_self)
  · exact Ty.oneLine_dict.mpr ⟨h _ mem_cons_self, h _ (mem_cons_of_mem _ mem_cons_self)⟩
  · exact Ty.oneLine_tupleOf h

mutual

theorem TypeTerm.plainly_resolve (hs : X → s.OneLine) {w : TypeTerm} (h : X → w.WellFormed) :
    Plainly X Ty.OneLine (w.resolve s) := by
  cases w with
  | named x =>
    have hline := isLine_name (X := X) (a := x) fun p => by cases h p; assumption
    rw [TypeTerm.resolve]
    split
    · exact ⟨rfl, rfl, hline⟩
    · split
      · next c hc => exact fun p => ((hs p).findClass hc).1
      · exact ⟨rfl, rfl, hline⟩
  | generic x arguments =>
    have hline := isLine_name (X := X) (a := x) fun p => by cases h p; assumption
    have harguments : X → ∀ w ∈ arguments, w.WellFormed := fun p => by cases h p; assumption
    rw [TypeTerm.resolve]
    split
    · split <;> exact ⟨rfl, rfl, hline⟩
    · next g _ =>
      exact .ite ((TypeTerm.plainly_resolveAll hs harguments).bind fun ts hts x => g.oneLine_build (hts x))
        ⟨rfl, rfl, hline⟩
  | nullable inner =>
    rw [TypeTerm.resolve]
    exact (TypeTerm.plainly_resolve hs fun p => by cases h p; assumption).bind
      fun t ht x => Ty.oneLine_nullable.mpr (ht x)

theorem TypeTerm.plainly_resolveAll (hs : X → s.OneLine) (h : X → ∀ w ∈ ws, w.WellFormed) :
    Plainly X (fun ts : List Ty => ∀ t ∈ ts, t.OneLine) (TypeTerm.resolveAll s ws) := by
  cases ws with
  | nil => exact nofun
  | cons w ws =>
    have hw := TypeTerm.plainly_resolve hs fun p => h p w mem_cons_self
    rw [TypeTerm.resolveAll]
    refine hw.bind fun t ht => ?_
    exact (TypeTerm.plainly_resolveAll hs fun p w hw => h p w (mem_cons_of_mem _ hw)).bind
      fun ts hts x => forall_mem_cons.mpr ⟨ht x, hts x⟩

end

end

end TypedScript
