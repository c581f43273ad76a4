import TypedScript.Proofs.Atoms

/-!
# Reading a script

What a text of the target language says about its words, read from the text alone.  The atoms of the text
are nested by their brackets.  A walk over the nodes knows the functions around each word, and the names
that are bound where it stands: the functions of the block and of the blocks around it, and the variables,
parameters and loop indices whose binders stand further up in one of these blocks or in its header.

* `Node`, `nest`: brackets and what they hold; `nest_flattenAll`;
* `walks_quiet`: nodes that bind nothing.
-/

namespace TypedScript.Script

open List

/-! ## nodes -/

inductive Node where
  | word (text : String)
  | quoted
  | mark (c : Char)
  | group (b : Bracket) (inner : List Node)

mutual

def Node.flatten : Node → List Atom
  | .word w => [.word w]
  | .quoted => [.quoted]
  | .mark c => [.mark c]
  | .group b inner => .opening b :: (flattenAll inner ++ [.closing b])

def flattenAll : List Node → List Atom
  | [] => []
  | n :: ns => n.flatten ++ flattenAll ns

end

@[simp] theorem flattenAll_append (ns ms : List Node) :
    flattenAll (ns ++ ms) = flattenAll ns ++ flattenAll ms := by
  induction ns with
  | nil => rfl
  | cons n ns ih => rw [cons_append, flattenAll, flattenAll, ih, append_assoc]

mutual

def Node.words : Node → List String
  | .word w => [w]
  | .quoted => []
  | .mark _ => []
  | .group _ inner => wordsOf inner

def wordsOf : List Node → List String
  | [] => []
  | n :: ns => n.words ++ wordsOf ns

end

@[simp] theorem wordsOf_append (ns ms : List Node) : wordsOf (ns ++ ms) = wordsOf ns ++ wordsOf ms := by
  induction ns with
  | nil => rfl
  | cons n ns ih => rw [cons_append, wordsOf, wordsOf, ih, append_assoc]

/-! ## nesting -/

/-- nests atoms behind the nodes `before`, inside brackets that are open with the nodes in front of
them; fails if the brackets do not match -/
def nestFrom (opened : List (Bracket × List Node)) (before : List Node) : List Atom → Option (List Node)
  | [] => if opened.isEmpty then some before else none
  | .word w :: as => nestFrom opened (before ++ [.word w]) as
  | .quoted :: as => nestFrom opened (before ++ [.quoted]) as
  | .mark c :: as => nestFrom opened (before ++ [.mark c]) as
  | .opening b :: as => nestFrom ((b, before) :: opened) [] as
  | .closing b :: as =>
    match opened with
    | [] => none
    | (b', outer) :: opened =>
      if b' = b then nestFrom opened (outer ++ [.group b before]) as else none

def nest (as : List Atom) : Option (List Node) := nestFrom [] [] as

mutual

theorem nestFrom_flatten (n : Node) (opened : List (Bracket × List Node)) (before : List Node)
    (as : List Atom) :
    nestFrom opened before (n.flatten ++ as) = nestFrom opened (before ++ [n]) as := by
  cases n with
  | word w | quoted | mark c => rfl
  | group b inner =>
    rw [Node.flatten, cons_append, append_assoc, nestFrom, nestFrom_flattenAll inner,
      nil_append]
    exact if_pos rfl

theorem nestFrom_flattenAll (ns : List Node) (opened : List (Bracket × List Node))
    (before : List Node) (as : List Atom) :
    nestFrom opened before (flattenAll ns ++ as) = nestFrom opened (before ++ ns) as := by
  cases ns with
  | nil => rw [append_nil]; rfl
  | cons n ns =>
    rw [flattenAll, append_assoc, nestFrom_flatten n, nestFrom_flattenAll ns, append_assoc]
    rfl

end

theorem nest_flattenAll (ns : List Node) : nest (flattenAll ns) = some ns := by
  have h := nestFrom_flattenAll ns [] [] []
  rw [append_nil] at h
  exact h

/-! ## the walk -/

/-- the parts of a function: what stands between its parentheses, and its body -/
inductive Region where
  | params (async : Bool)
  | body (async : Bool)
  deriving DecidableEq, Repr

/-- the parts of functions around a place, the innermost first, and the names in scope -/
structure View where
  around : List Region
  scope : List String
  deriving DecidableEq, Repr

/-- a word that binds no name, and what it sees -/
structure Occurrence extends View where
  word : String
  deriving DecidableEq, Repr

def View.at (v : View) (ws : List String) : List Occurrence := ws.map fun w => ⟨v, w⟩

def View.bind (v : View) (x : String) : View := { v with scope := x :: v.scope }

/-- names bound one after the other -/
def View.bindAll (v : View) (xs : List String) : View := { v with scope := xs.reverse ++ v.scope }

theorem View.bindAll_cons (v : View) (x : String) (xs : List String) :
    v.bindAll (x :: xs) = (v.bind x).bindAll xs := by
  simp [View.bindAll, View.bind]

theorem View.bindAll_append (v : View) (xs ys : List String) :
    v.bindAll (xs ++ ys) = (v.bindAll xs).bindAll ys := by
  simp [View.bindAll]

/-- what the walk expects next -/
inductive Stage where
  | plain
  /-- behind `async` -/
  | async
  /-- the name of a function -/
  | name (async : Bool)
  /-- its parameters -/
  | params (async : Bool)
  /-- the header of a loop that binds an index -/
  | header
  /-- the block of a function or a loop, which sees more than stands around it -/
  | block (inside : View)
  /-- names behind `let` or `const` -/
  | binding
  /-- in a list of parameters: a name, or what stands behind it -/
  | parameter
  | value
  deriving DecidableEq

structure Walk where
  view : View
  stage : Stage

/-- the words that announce names -/
def keywords : List String := ["async", "function", "let", "const", "for"]

/-- what follows a keyword -/
def Stage.after (stage : Stage) (w : String) : Stage :=
  if w = "async" then .async
  else if w = "function" then .name (stage = .async)
  else if w = "for" then .header
  else .binding

namespace Walk

def word (σ : Walk) (w : String) : Walk × List Occurrence :=
  match σ.stage with
  | .binding => (⟨σ.view.bind w, .binding⟩, [])
  | .parameter => (⟨σ.view.bind w, .value⟩, [])
  | .name async => (⟨σ.view, .params async⟩, [])
  | stage => if w ∈ keywords then (⟨σ.view, stage.after w⟩, []) else (σ, σ.view.at [w])

def mark (σ : Walk) (c : Char) : Walk :=
  match σ.stage with
  | .binding => if c = '=' ∨ c = ';' then ⟨σ.view, .plain⟩ else σ
  | .value => if c = ',' then ⟨σ.view, .parameter⟩ else σ
  | _ => σ

/-- into brackets; a block sees the names of its functions from its start -/
def enter (σ : Walk) (functions : List String) : Bracket → Walk
  | .paren =>
    match σ.stage with
    | .params async => ⟨{ σ.view with around := .params async :: σ.view.around }, .parameter⟩
    | _ => ⟨σ.view, .plain⟩
  | .square =>
    match σ.stage with
    | .binding => σ
    | _ => ⟨σ.view, .plain⟩
  | .curly =>
    match σ.stage with
    | .block inside => ⟨{ inside with scope := functions ++ inside.scope }, .plain⟩
    | _ => ⟨{ σ.view with scope := functions ++ σ.view.scope }, .plain⟩

/-- out of brackets that end with the view `inner` -/
def leave (σ : Walk) (inner : View) : Bracket → Walk
  | .paren =>
    match σ.stage with
    | .params async => ⟨σ.view, .block ⟨.body async :: σ.view.around, inner.scope⟩⟩
    | .header => ⟨σ.view, .block inner⟩
    | _ => σ
  | .square =>
    match σ.stage with
    | .binding => ⟨inner, .binding⟩
    | _ => σ
  | .curly =>
    match σ.stage with
    | .block _ => ⟨σ.view, .plain⟩
    | _ => σ

end Walk

/-- the names behind `function` among nodes; `named` if it stands in front of them -/
def functionNames (named : Bool) : List Node → List String
  | [] => []
  | .word w :: ns => if named then w :: functionNames false ns else functionNames (w = "function") ns
  | _ :: ns => functionNames false ns

mutual

def Node.walk (σ : Walk) : Node → Walk × List Occurrence
  | .word w => σ.word w
  | .quoted => (σ, [])
  | .mark c => (σ.mark c, [])
  | .group b inner =>
    let r := walkAll (σ.enter (functionNames false inner) b) inner
    (σ.leave r.1.view b, r.2)

def walkAll (σ : Walk) : List Node → Walk × List Occurrence
  | [] => (σ, [])
  | n :: ns => ((walkAll (n.walk σ).1 ns).1, (n.walk σ).2 ++ (walkAll (n.walk σ).1 ns).2)

end

/-- a text as a block that is not inside of anything -/
def blockOccurrences (ns : List Node) : List Occurrence :=
  (walkAll ⟨⟨[], functionNames false ns⟩, .plain⟩ ns).2

/-- the words of a text that bind no name, if its brackets match -/
def occurrences (text : String) : Option (List Occurrence) := (nest (atoms text)).map blockOccurrences

theorem occurrences_of_reads (h : Reads text (flattenAll ns)) :
    occurrences text = some (blockOccurrences ns) := by
  unfold occurrences
  rw [h.atoms, nest_flattenAll]
  rfl

/-! ## walks -/

def Walks (σ : Walk) (ns : List Node) (σ' : Walk) (os : List Occurrence) : Prop :=
  walkAll σ ns = (σ', os)

variable {σ σ' σ'' : Walk} {n : Node} {ns ms : List Node} {os os' : List Occurrence}

theorem Walks.nil : Walks σ [] σ [] := rfl

theorem Walks.cons (h : n.walk σ = (σ', os)) (h' : Walks σ' ns σ'' os') :
    Walks σ (n :: ns) σ'' (os ++ os') := by
  unfold Walks at h' ⊢
  rw [walkAll, h, h']

theorem Walks.one (h : n.walk σ = (σ', os)) : Walks σ [n] σ' os := by
  have hcons := Walks.cons h Walks.nil
  rwa [append_nil] at hcons

theorem Walks.append (h : Walks σ ns σ' os) (h' : Walks σ' ms σ'' os') :
    Walks σ (ns ++ ms) σ'' (os ++ os') := by
  induction ns generalizing σ os with
  | nil =>
    obtain ⟨rfl, rfl⟩ := Prod.mk.inj h
    exact h'
  | cons n ns ih =>
    obtain ⟨rfl, rfl⟩ := Prod.mk.inj h
    rw [append_assoc]
    exact .cons rfl (ih rfl)

theorem walk_group (σ : Walk) (b : Bracket) {stage : Stage}
    (h : Walks (σ.enter (functionNames false ns) b) ns ⟨v, stage⟩ os) :
    (Node.group b ns).walk σ = (σ.leave v b, os) := by
  rw [Node.walk, show walkAll _ ns = _ from h]

theorem View.at_append (v : View) (ws vs : List String) : v.at (ws ++ vs) = v.at ws ++ v.at vs :=
  map_append

/-! ## nodes that bind nothing -/

/-- no word is a keyword -/
def Quiet (ns : List Node) : Prop := ∀ w ∈ wordsOf ns, w ∉ keywords

theorem Quiet.head (h : Quiet (n :: ns)) : ∀ w ∈ n.words, w ∉ keywords :=
  fun w hw => h w (mem_append_left _ hw)

theorem Quiet.tail (h : Quiet (n :: ns)) : Quiet ns :=
  fun w hw => h w (mem_append_right _ hw)

theorem functionNames_quiet (h : Quiet ns) : functionNames false ns = [] := by
  induction ns with
  | nil => rfl
  | cons n ns ih =>
    cases n with
    | word w =>
      have hw : w ≠ "function" := by
        rintro rfl
        exact h.head "function" mem_cons_self (by decide)
      rw [functionNames, if_neg Bool.false_ne_true, decide_eq_false hw]
      exact ih h.tail
    | quoted | mark c | group b inner => exact ih h.tail

/-- in an expression: nothing is announced, and a comma would end it if it is the default of a parameter -/
def Stage.Rests (stage : Stage) (ns : List Node) : Prop :=
  stage = .plain ∨ (stage = .value ∧ .mark ',' ∉ ns)

theorem Stage.Rests.head {stage : Stage} (h : stage.Rests (n :: ns)) : stage.Rests [n] :=
  h.imp_right (And.imp_right fun hcomma hn =>
    hcomma (mem_cons.mpr (.inl (mem_singleton.mp hn))))

theorem Stage.Rests.tail {stage : Stage} (h : stage.Rests (n :: ns)) : stage.Rests ns :=
  h.imp_right (And.imp_right fun hcomma hn => hcomma (mem_cons_of_mem n hn))

mutual

theorem walk_quiet (n : Node) (v : View) {stage : Stage} (hstage : stage.Rests [n])
    (hquiet : ∀ w ∈ n.words, w ∉ keywords) : n.walk ⟨v, stage⟩ = (⟨v, stage⟩, v.at n.words) := by
  cases n with
  | word w =>
    have hw : w ∉ keywords := hquiet w mem_cons_self
    rcases hstage with rfl | ⟨rfl, _⟩ <;> exact if_neg hw
  | quoted => rfl
  | mark c =>
    rcases hstage with rfl | ⟨rfl, hcomma⟩
    · rfl
    · have hc : c ≠ ',' := fun hc => hcomma (mem_singleton.mpr (congrArg Node.mark hc.symm))
      exact congrArg (·, []) (if_neg hc)
  | group b inner =>
    have hinner : Quiet inner := hquiet
    have hwalk : Walks (Walk.enter ⟨v, stage⟩ (functionNames false inner) b) inner ⟨v, .plain⟩
        (v.at (wordsOf inner)) := by
      have hplain := walks_quiet inner v (.inl rfl) hinner
      rw [functionNames_quiet hinner]
      rcases hstage with rfl | ⟨rfl, _⟩ <;> cases b <;> exact hplain
    rw [walk_group _ b hwalk]
    rcases hstage with rfl | ⟨rfl, _⟩ <;> cases b <;> rfl

theorem walks_quiet (ns : List Node) (v : View) {stage : Stage} (hstage : stage.Rests ns)
    (hquiet : Quiet ns) : Walks ⟨v, stage⟩ ns ⟨v, stage⟩ (v.at (wordsOf ns)) := by
  cases ns with
  | nil => rfl
  | cons n ns =>
    have hall := Walks.cons (walk_quiet n v hstage.head hquiet.head)
      (walks_quiet ns v hstage.tail hquiet.tail)
    rw [← View.at_append] at hall
    exact hall

end

end TypedScript.Script
