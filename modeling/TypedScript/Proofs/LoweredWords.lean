import TypedScript.Proofs.Legibility
import TypedScript.Proofs.ScriptOccurrences

/-!
# The words of lowered expressions

An expression that passes the check uses names that its scope finds, and awaits calls only inside an
asynchronous function.  In the script its words are the names of what it uses, `await`, and words that
mean nothing to a reader.
-/

namespace TypedScript

open Script (namesOf View Occurrence Region)
open List

variable {ν : DeclId → String}

/-! ## awaited calls -/

mutual

/-- some call in the expression is awaited -/
def Expr.awaits : Expr → Bool
  | .literal _ _ => false
  | .name _ _ => false
  | .binary _ left right _ => left.awaits || right.awaits
  | .unary _ operand _ => operand.awaits
  | .call callee arguments awaited _ _ => awaited || (callee.awaits || Expr.anyAwaits arguments)
  | .subscript base index _ => base.awaits || index.awaits
  | .member object _ _ => object.awaits
  | .collection _ elements _ => Expr.anyAwaits elements
  | .dict entries _ => Expr.entriesAwait entries

def Expr.anyAwaits : List Expr → Bool
  | [] => false
  | e :: es => e.awaits || Expr.anyAwaits es

def Expr.entriesAwait : List (Expr × Expr) → Bool
  | [] => false
  | (key, value) :: es => key.awaits || (value.awaits || Expr.entriesAwait es)

end

/-! ## names of expressions -/

mutual

theorem Expr.namesOf_named (e : Expr) : namesOf (e.named ν).pieces = e.uses.map (Symbol.label ν) := by
  match e with
  | .literal v t => rfl
  | .name x t => rfl
  | .binary op left right t =>
    rw [Expr.named]
    split <;> simp [Script.Expr.pieces, Expr.uses, left.namesOf_named, right.namesOf_named]
  | .unary op operand t =>
    rw [Expr.named]
    split <;> simp [Script.Expr.pieces, Expr.uses, operand.namesOf_named]
  | .call callee arguments awaited constructs t =>
    cases awaited <;> cases constructs <;>
      simp [Expr.named, Script.Expr.applied, Script.Expr.pieces, Expr.uses, callee.namesOf_named,
        Expr.namesOf_allNamed arguments]
  | .subscript base index t =>
    simp [Expr.named, Script.Expr.pieces, Expr.uses, base.namesOf_named, index.namesOf_named]
  | .member object x t => simp [Expr.named, Script.Expr.pieces, Expr.uses, object.namesOf_named]
  | .collection form elements t =>
    cases form <;> simp [Expr.named, Script.Expr.pieces, Expr.uses, Expr.namesOf_allNamed elements]
  | .dict entries t =>
    have hentries := Expr.namesOf_entriesNamed entries
    rw [Expr.named, Expr.uses]
    cases hes : Expr.entriesNamed ν entries with
    | nil => rw [← hentries, hes]; rfl
    | cons entry es => rw [← hentries, hes]; simp [Script.Expr.pieces]

theorem Expr.namesOf_allNamed (es : List Expr) :
    (Script.Expr.allPieces (Expr.allNamed ν es)).flatMap namesOf
      = (Expr.usesAll es).map (Symbol.label ν) := by
  match es with
  | [] => rfl
  | e :: es =>
    simp [Expr.allNamed, Script.Expr.allPieces, Expr.usesAll, e.namesOf_named, Expr.namesOf_allNamed es]

theorem Expr.namesOf_entriesNamed (es : List (Expr × Expr)) :
    (Script.Expr.entryPieces (Expr.entriesNamed ν es)).flatMap namesOf
      = (Expr.entryUses es).map (Symbol.label ν) := by
  match es with
  | [] => rfl
  | (key, value) :: es =>
    simp [Expr.entriesNamed, Script.Expr.entryPieces, Expr.entryUses, key.namesOf_named,
      value.namesOf_named, Expr.namesOf_entriesNamed es]

end

/-! ## waiting words -/

theorem await_mem_literalNodes (h : Script.Literal.Legible v) :
    "await" ∉ Script.wordsOf (Script.literalNodes v) :=
  fun hw => (Script.inert_literal h hw).notAwait rfl

section

open Script (wordsOf Node.words)

mutual

theorem Expr.await_mem_words (e : Expr) (h : (e.named ν).Legible) :
    "await" ∈ (e.named ν).words ↔ e.awaits = true := by
  match e with
  | .literal v t => exact iff_of_false (await_mem_literalNodes h) Bool.false_ne_true
  | .name x t =>
    exact iff_of_false (fun hw => h.notAwait (mem_singleton.mp hw).symm) Bool.false_ne_true
  | .binary op left right t =>
    have hoperands : (left.named ν).Legible ∧ (right.named ν).Legible := by
      rw [Expr.named] at h
      split at h <;> exact h
    have hl := left.await_mem_words hoperands.1
    have hr := right.await_mem_words hoperands.2
    rw [Expr.named]
    split <;> simpa [Script.Expr.words, Script.Expr.nodes, wordsOf, Node.words, Expr.awaits]
      using or_congr hl hr
  | .unary op operand t =>
    have hoperand : (operand.named ν).Legible := by
      rw [Expr.named] at h
      split at h <;> exact h
    have ho := operand.await_mem_words hoperand
    rw [Expr.named]
    split <;> simpa [Script.Expr.words, Script.Expr.nodes, wordsOf, Node.words, Expr.awaits] using ho
  | .call callee arguments awaited constructs t =>
    have hparts : (callee.named ν).Legible ∧ Script.Expr.AllLegible (Expr.allNamed ν arguments) := by
      rw [Expr.named] at h
      cases constructs <;> cases awaited <;> exact h
    have hf := callee.await_mem_words hparts.1
    have has := Expr.await_mem_allWords arguments hparts.2
    cases awaited with
    | true => simp [Expr.named, Script.Expr.applied, Script.Expr.words, Script.Expr.nodes, wordsOf,
        Node.words, Expr.awaits]
    | false =>
      cases constructs <;>
        simpa [Expr.named, Script.Expr.applied, Script.Expr.words, Script.Expr.nodes, wordsOf, Node.words,
          Expr.awaits] using or_congr hf has
  | .subscript base index t =>
    have hb := base.await_mem_words h.1
    have hi := index.await_mem_words h.2
    simpa [Expr.named, Script.Expr.words, Script.Expr.nodes, wordsOf, Node.words, Expr.awaits]
      using or_congr hb hi
  | .member object x t =>
    have ho := object.await_mem_words h.1
    have hx : "await" ≠ x.label ν := fun heq => h.2.notAwait heq.symm
    simpa [Expr.named, Script.Expr.words, Script.Expr.nodes, wordsOf, Node.words, Expr.awaits, hx] using ho
  | .collection form elements t =>
    have helements : Script.Expr.AllLegible (Expr.allNamed ν elements) := by
      cases form <;> exact h
    have hall := Expr.await_mem_allWords elements helements
    cases form <;>
      simpa [Expr.named, Script.Expr.words, Script.Expr.nodes, wordsOf, Node.words, Expr.awaits] using hall
  | .dict entries t =>
    have hall := Expr.await_mem_entryWords entries h
    simpa [Expr.named, Script.Expr.words, Script.Expr.nodes, wordsOf, Node.words, Expr.awaits] using hall

theorem Expr.await_mem_allWords (es : List Expr) (h : Script.Expr.AllLegible (Expr.allNamed ν es)) :
    "await" ∈ (Script.Expr.allNodes (Expr.allNamed ν es)).flatMap wordsOf ↔ Expr.anyAwaits es = true := by
  match es with
  | [] => exact iff_of_false nofun Bool.false_ne_true
  | e :: es =>
    have he := e.await_mem_words h.1
    have hes := Expr.await_mem_allWords es h.2
    simpa [Expr.allNamed, Script.Expr.allNodes, Script.Expr.words, Expr.anyAwaits] using or_congr he hes

theorem Expr.await_mem_entryWords (es : List (Expr × Expr))
    (h : Script.Expr.EntriesLegible (Expr.entriesNamed ν es)) :
    "await" ∈ (Script.Expr.entryNodes (Expr.entriesNamed ν es)).flatMap wordsOf
      ↔ Expr.entriesAwait es = true := by
  match es with
  | [] => exact iff_of_false nofun Bool.false_ne_true
  | (key, value) :: es =>
    have hk := key.await_mem_words h.1
    have hv := value.await_mem_words h.2.1
    have hes := Expr.await_mem_entryWords es h.2.2
    simpa [Expr.entriesNamed, Script.Expr.entryNodes, Script.Expr.words, wordsOf, Node.words,
      Expr.entriesAwait, or_assoc] using or_congr hk (or_congr hv hes)

end

end

/-! ## what scopes find -/

def Scope.Finds (s : Scope) (r : Resolution) : Prop :=
  (∃ x b, s.findVariable? x = some b ∧ b.resolution = r) ∨
    ∃ x b, s.findClass? x = some b ∧ b.resolution = r

theorem Scope.finds_variable {s : Scope} (h : s.findVariable? x = some b) : s.Finds b.resolution :=
  .inl ⟨x, b, h, rfl⟩

/-- the names in use stand for what the scope finds, and waiting is allowed where it is done -/
structure Expr.Placed (s : Scope) (uses : List Symbol) (awaits : Bool) : Prop where
  finds : ∀ x ∈ uses, ∃ r, x.resolution = some r ∧ s.Finds r
  async : awaits = true → s.frame.function.any (·.async) = true

namespace Expr.Placed

variable {s : Scope} {us vs : List Symbol} {a b : Bool}

theorem nothing : Expr.Placed s [] false :=
  ⟨forall_mem_nil _, fun h => absurd h Bool.false_ne_true⟩

theorem append (h : Expr.Placed s us a) (h' : Expr.Placed s vs b) : Expr.Placed s (us ++ vs) (a || b) :=
  ⟨forall_mem_append.mpr ⟨h.finds, h'.finds⟩,
    fun hab => (Bool.or_eq_true_iff.mp hab).elim h.async h'.async⟩

theorem symbol (x : Symbol) (h : s.Finds r) : Expr.Placed s [x.resolved r] false :=
  ⟨forall_mem_singleton.mpr ⟨r, rfl, h⟩, fun h => absurd h Bool.false_ne_true⟩

theorem awaited {f : Signature} (h : Expr.Placed s us a) {awaited : Bool}
    (hf : f.Allows n awaited s.frame.function) : Expr.Placed s us (awaited || a) :=
  ⟨h.finds, fun ha => (Bool.or_eq_true_iff.mp ha).elim hf.inside h.async⟩

end Expr.Placed

mutual

theorem Expr.Accepted.placed (h : Expr.Accepted s e e' t) : Expr.Placed s e'.uses e'.awaits := by
  match h with
  | .literal => exact .nothing
  | .name hb => exact .symbol _ (Scope.finds_variable hb)
  | .binary hl hr _ => exact hl.placed.append hr.placed
  | .unary ho _ => exact ho.placed
  | .call hf _ hallows hall => exact (hf.placed.append hall.placed).awaited hallows
  | .construct (x := x) _ hb _ hallows hall =>
    have hclass := Expr.Placed.symbol x (.inr ⟨_, _, hb, rfl⟩)
    exact (hclass.append hall.placed).awaited hallows
  | .subscript hb hi _ => exact hb.placed.append hi.placed
  | .member (x := x) ho hb =>
    have hmember := ho.placed.append (.symbol x (Scope.finds_variable hb))
    rw [Bool.or_false] at hmember
    exact hmember
  | .collection hall => exact hall.placed
  | .dict hentries => exact hentries.placed

theorem Expr.AcceptedAll.placed (h : Expr.AcceptedAll s test seen es es' ts) :
    Expr.Placed s (Expr.usesAll es') (Expr.anyAwaits es') := by
  match h with
  | .nil => exact .nothing
  | .cons he _ hes => exact he.placed.append hes.placed

theorem Expr.AcceptedEntries.placed (h : Expr.AcceptedEntries s first es es' last) :
    Expr.Placed s (Expr.entryUses es') (Expr.entriesAwait es') := by
  match h with
  | .nil => exact .nothing
  | .cons hk hv _ hes =>
    have hall := (hk.placed.append hv.placed).append hes.placed
    rw [Bool.or_assoc] at hall
    exact hall

end

/-! ## sound words -/

/-- what the names of a scope stand for is in scope, if its name was given out -/
def Scope.Covered (ν : DeclId → String) (s : Scope) (S : List String) : Prop :=
  ∀ r, s.Finds r → '_' ∈ (r.label ν).toList → r.label ν ∈ S

theorem Scope.Covered.mono {s : Scope} (h : s.Covered ν S) (hS : S ⊆ S') : s.Covered ν S' :=
  fun r hr hunderscore => hS (h r hr hunderscore)

/-- the body of an asynchronous function, or a list of parameters right inside of one -/
def MayAwait (around : List Region) : Prop :=
  around.head? = some (.body true) ∨ ∃ a, around.take 2 = [.params a, .body true]

namespace Script

/-- a word whose binder is in scope, with an asynchronous function around it if it waits -/
structure Occurrence.Sound (o : Occurrence) : Prop where
  bound : '_' ∈ o.word.toList → o.word ∈ o.scope
  waits : o.word = "await" → MayAwait o.around

def AllSound (os : List Occurrence) : Prop := ∀ o ∈ os, o.Sound

variable {v : View}

theorem allSound_nil : AllSound [] := nofun

theorem allSound_at_nil (v : View) : AllSound (v.at []) := nofun

theorem AllSound.append (h : AllSound os) (h' : AllSound os') : AllSound (os ++ os') :=
  forall_mem_append.mpr ⟨h, h'⟩

theorem AllSound.words (h : AllSound (v.at ws)) (h' : AllSound (v.at ws')) : AllSound (v.at (ws ++ ws')) := by
  rw [View.at_append]
  exact h.append h'

theorem AllSound.word (hw : Occurrence.Sound ⟨v, w⟩) (h : AllSound (v.at ws)) : AllSound (v.at (w :: ws)) :=
  forall_mem_cons.mpr ⟨hw, h⟩

theorem Occurrence.sound_inert (h : Inert w) : Occurrence.Sound ⟨v, w⟩ :=
  ⟨fun hunderscore => absurd hunderscore h.noUnderscore, fun hawait => absurd hawait h.notAwait⟩

theorem Occurrence.sound_name (hname : IsName w) (h : '_' ∈ w.toList → w ∈ v.scope) :
    Occurrence.Sound ⟨v, w⟩ := ⟨h, fun hawait => absurd hawait hname.notAwait⟩

end Script

/-! ## accepted expressions -/

open Script (AllSound)

section

variable {s : Scope} {v : View} (hcovered : s.Covered ν v.scope)
  (hasync : s.frame.function.any (·.async) = true → MayAwait v.around)

include hcovered

theorem Scope.Covered.symbol {x : Symbol} (hx : x.resolution = some r) (hr : s.Finds r) :
    '_' ∈ (x.label ν).toList → x.label ν ∈ v.scope := by
  have hlabel : x.label ν = r.label ν := by
    unfold Symbol.label
    rw [hx]
  rw [hlabel]
  exact hcovered r hr

include hasync

theorem Expr.Accepted.sound (h : Expr.Accepted s e e' t) (hlegible : (e'.named ν).Legible) :
    AllSound (v.at (e'.named ν).words) := by
  refine forall_mem_map.mpr fun w hw => ?_
  rcases (e'.named ν).wordsOf_words hlegible w hw with ⟨hname, hisName⟩ | rfl | hinert
  · rw [Expr.namesOf_named] at hname
    obtain ⟨x, hx, rfl⟩ := mem_map.mp hname
    obtain ⟨r, hresolution, hr⟩ := h.placed.finds x hx
    exact Script.Occurrence.sound_name hisName (hcovered.symbol hresolution hr)
  · have hletters : '_' ∉ "await".toList := by decide
    refine ⟨fun hunderscore => absurd hunderscore hletters, fun _ => ?_⟩
    exact hasync (h.placed.async ((e'.await_mem_words hlegible).mp hw))
  · exact Script.Occurrence.sound_inert hinert

theorem Expr.AcceptedAll.sound (h : Expr.AcceptedAll s test seen es es' ts)
    (hlegible : Script.Expr.AllLegible (Expr.allNamed ν es')) :
    AllSound (v.at (Script.Expr.allWords (Expr.allNamed ν es'))) := by
  induction es' generalizing es seen with
  | nil => exact Script.allSound_nil
  | cons e' es' ih =>
    cases h with
    | cons he _ hes =>
      exact (he.sound hcovered hasync hlegible.1).words (ih hes hlegible.2)

theorem TargetsAccepted.sound (h : TargetsAccepted s es es' ts)
    (hlegible : Script.Expr.AllLegible (Expr.allNamed ν es')) :
    AllSound (v.at (Script.Expr.allWords (Expr.allNamed ν es'))) := by
  induction h with
  | nil => exact Script.allSound_nil
  | cons _ he _ _ ih => exact (he.sound hcovered hasync hlegible.1).words (ih hlegible.2)

end

end TypedScript
