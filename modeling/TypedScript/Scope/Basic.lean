import TypedScript.Diagnostic.Cause
import TypedScript.Tree.Basic

/-!
# Scopes

A scope is a frame inside the frames around it.  A frame holds the variables and the classes declared
in it, in tables of their own, and knows the function around it and whether it is inside a loop.
Names are looked up from the innermost frame outwards; a name may be declared once in a frame.
Variables are kept in the order of declaration, with an index through which they are found and written.

* `Table`, `Indexed`                tables, and tables with an index of their names;
* `Variables`                       the table of a frame, whose index is in step with its entries;
* `enterFunction`, `enterLoop`, `enterBlock`, `leave?`   frames inside a scope;
* `declareVariable`, `declareClass`  fail if the frame has the name;
* `findVariable?`, `findClass?`      the innermost binding of a name.
-/

namespace TypedScript

/-! ## bindings -/

inductive BindingKind where
  | variable (constant : Bool)
  | parameter
  | function
  | builtin
  deriving DecidableEq, Repr, Inhabited

/-- what a variable name stands for -/
structure Binding where
  resolution : Resolution
  type : Ty
  kind : BindingKind
  deriving DecidableEq, Inhabited

/-- an assignment may overwrite variables that are not constant, and parameters -/
def Binding.writable (b : Binding) : Bool :=
  match b.kind with
  | .variable constant => !constant
  | .parameter => true
  | .function => false
  | .builtin => false

/-- what a class name stands for; primitive types have no constructor -/
structure ClassBinding where
  resolution : Resolution
  type : Ty
  constructor : Option Signature
  deriving DecidableEq, Inhabited

/-! ## tables -/

/-- names and what they stand for, in the order of declaration -/
abbrev Table (β : Type) := List (String × β)

namespace Table

variable {β : Type}

def find? (t : Table β) (name : String) : Option β := t.lookup name

def names (t : Table β) : List String := t.map (·.1)

/-- gives a name its meaning: in its place if the table has the name, else at the end -/
def put (t : Table β) (name : String) (b : β) : Table β :=
  match t with
  | [] => [(name, b)]
  | (n, a) :: rest => if n = name then (n, b) :: rest else (n, a) :: put rest name b

/-- the place of a name, which an index has to agree with -/
def index? (t : Table β) (name : String) : Option Nat := t.names.idxOf? name

theorem find?_cons (n x : String) (a : β) (t : Table β) :
    find? ((n, a) :: t) x = if n = x then some a else t.find? x := by
  unfold find?
  rw [List.lookup_cons]
  by_cases h : n = x
  · simp [h]
  · simp [h, beq_false_of_ne (Ne.symm h)]

theorem find?_put (t : Table β) (x y : String) (b : β) :
    (t.put x b).find? y = if y = x then some b else t.find? y := by
  induction t with
  | nil => simp [put, find?_cons, eq_comm]
  | cons e t ih =>
    rw [put]
    split
    · next h =>
      rw [find?_cons, find?_cons, h]
      by_cases hy : y = x
      · simp [hy]
      · simp [hy, Ne.symm hy]
    · next h =>
      rw [find?_cons, find?_cons, ih]
      by_cases hy : y = x <;> simp [hy, h]

theorem index?_cons (n x : String) (a : β) (t : Table β) :
    index? ((n, a) :: t) x = if n = x then some 0 else (t.index? x).map (· + 1) := by
  unfold index? names
  rw [List.map_cons, List.idxOf?_cons]
  by_cases h : n = x <;> simp [h]

theorem find?_eq_index? (t : Table β) (x : String) :
    t.find? x = (t.index? x).bind fun i => t[i]?.map (·.2) := by
  induction t with
  | nil => rfl
  | cons e t ih =>
    rw [find?_cons, index?_cons, ih]
    split
    · rfl
    · cases index? t x <;> rfl

theorem isSome_index? (t : Table β) (x : String) : (t.index? x).isSome = (t.find? x).isSome := by
  induction t with
  | nil => rfl
  | cons e t ih =>
    rw [find?_cons, index?_cons]
    split
    · rfl
    · rw [Option.isSome_map, ih]

theorem put_eq_index? (t : Table β) (x : String) (b : β) : t.put x b =
    match t.index? x with
    | some i => t.modify i fun e => (e.1, b)
    | none => t ++ [(x, b)] := by
  induction t with
  | nil => rfl
  | cons e t ih =>
    rw [put, index?_cons]
    split
    · rfl
    · rw [ih]
      cases index? t x <;> rfl

theorem names_put (t : Table β) (x : String) (b : β) :
    (t.put x b).names = if x ∈ t.names then t.names else t.names ++ [x] := by
  induction t with
  | nil => rfl
  | cons e t ih =>
    rw [put]
    split
    · next h => rw [if_pos (h ▸ List.mem_cons_self)]; rfl
    · next h =>
      show e.1 :: (put t x b).names = if x ∈ e.1 :: names t then e.1 :: names t else e.1 :: names t ++ [x]
      rw [ih]
      by_cases hx : x ∈ names t
      · rw [if_pos hx, if_pos (List.mem_cons_of_mem _ hx)]
      · rw [if_neg hx, if_neg (List.not_mem_cons_of_ne_of_not_mem (Ne.symm h) hx)]; rfl

theorem index?_eq_none_iff {t : Table β} : t.index? x = none ↔ x ∉ t.names := List.idxOf?_eq_none_iff

theorem index?_put (t : Table β) (x y : String) (b : β) : (t.put x b).index? y =
    if t.index? x = none ∧ y = x then some t.length else t.index? y := by
  unfold index?
  rw [names_put]
  by_cases hx : x ∈ t.names
  · rw [if_pos hx, if_neg fun h => index?_eq_none_iff.mp h.1 hx]
  · have hnone : t.names.idxOf? x = none := index?_eq_none_iff.mpr hx
    rw [if_neg hx, hnone]
    unfold List.idxOf? at hnone ⊢
    by_cases hy : y = x
    · simp [List.findIdx?_append, List.findIdx?_cons, hy, hnone,
        show t.names.length = t.length from List.length_map _]
    · simp [List.findIdx?_append, List.findIdx?_cons, hy, Ne.symm hy]

end Table

/-! ## tables with an index -/

/-- entries in the order of declaration, and a table of the places of their names -/
structure Indexed (β : Type) where
  entries : Table β
  index : Table Nat

namespace Indexed

variable {β : Type}

def empty : Indexed β := ⟨[], []⟩

def find? (t : Indexed β) (name : String) : Option β :=
  match t.index.find? name with
  | some i => t.entries[i]?.map (·.2)
  | none => none

/-- gives a name its meaning: at its place if the index has the name, else at the end -/
def put (t : Indexed β) (name : String) (b : β) : Indexed β :=
  match t.index.find? name with
  | some i => { t with entries := t.entries.modify i fun e => (e.1, b) }
  | none => ⟨t.entries ++ [(name, b)], t.index.put name t.entries.length⟩

/-- no name has two entries, and the index has the place of each -/
structure InStep (t : Indexed β) : Prop where
  distinct : t.entries.names.Nodup
  place : ∀ name, t.index.find? name = t.entries.index? name

theorem inStep_empty : InStep (empty : Indexed β) := ⟨.nil, fun _ => rfl⟩

variable {t : Indexed β}

theorem InStep.find?_eq (h : t.InStep) (x : String) : t.find? x = t.entries.find? x := by
  unfold find?
  rw [h.place, Table.find?_eq_index?]
  cases t.entries.index? x <;> rfl

theorem InStep.entries_put (h : t.InStep) (x : String) (b : β) : (t.put x b).entries = t.entries.put x b := by
  unfold put
  rw [h.place, Table.put_eq_index? t.entries]
  cases t.entries.index? x <;> rfl

theorem index_put (t : Indexed β) (x y : String) (b : β) : (t.put x b).index.find? y =
    if t.index.find? x = none ∧ y = x then some t.entries.length else t.index.find? y := by
  unfold put
  cases h : t.index.find? x with
  | some i => simp
  | none => simp [Table.find?_put]

/-- a write keeps the two tables in step -/
theorem InStep.put (h : t.InStep) (x : String) (b : β) : (t.put x b).InStep where
  distinct := by
    rw [h.entries_put, Table.names_put]
    split
    · exact h.distinct
    · next hx =>
      refine List.nodup_append.mpr ⟨h.distinct, List.pairwise_singleton _ x, fun y hy z hz heq => ?_⟩
      exact hx (List.mem_singleton.mp hz ▸ heq ▸ hy)
  place y := by rw [index_put, h.entries_put, Table.index?_put, h.place, h.place]

end Indexed

/-- the variables of a frame -/
structure Variables extends Indexed Binding where
  inStep : toIndexed.InStep

namespace Variables

def empty : Variables := ⟨.empty, Indexed.inStep_empty⟩

instance : Inhabited Variables := ⟨empty⟩

def put (v : Variables) (name : String) (b : Binding) : Variables :=
  ⟨v.toIndexed.put name b, v.inStep.put name b⟩

theorem find?_eq (v : Variables) (x : String) : v.find? x = v.entries.find? x := v.inStep.find?_eq x

theorem entries_put (v : Variables) (x : String) (b : Binding) : (v.put x b).entries = v.entries.put x b :=
  v.inStep.entries_put x b

theorem find?_put (v : Variables) (x y : String) (b : Binding) :
    (v.put x b).find? y = if y = x then some b else v.find? y := by
  rw [find?_eq, entries_put, Table.find?_put, find?_eq]

end Variables

/-! ## frames -/

structure Frame where
  vars : Variables
  classes : Table ClassBinding
  function : Option Signature
  insideLoop : Bool
  deriving Inhabited

/-- a frame without declarations -/
def Frame.empty (function : Option Signature) (insideLoop : Bool) : Frame :=
  ⟨.empty, [], function, insideLoop⟩

structure Scope where
  frame : Frame
  outer : List Frame
  deriving Inhabited

namespace Scope

/-- nothing is declared, and no function or loop is around -/
def empty : Scope := ⟨.empty none false, []⟩

/-! ## frames inside a scope -/

/-- a new innermost frame -/
def enter (s : Scope) (function : Option Signature) (insideLoop : Bool) : Scope :=
  ⟨.empty function insideLoop, s.frame :: s.outer⟩

/-- the scope of a function body; a loop around the function does not count in it -/
def enterFunction (s : Scope) (signature : Signature) : Scope := s.enter (some signature) false

def enterLoop (s : Scope) : Scope := s.enter s.frame.function true

def enterBlock (s : Scope) : Scope := s.enter s.frame.function s.frame.insideLoop

def leave? (s : Scope) : Option Scope :=
  match s.outer with
  | [] => none
  | f :: fs => some ⟨f, fs⟩

/-- the number of frames around the innermost one -/
def depth (s : Scope) : Nat := s.outer.length

/-- the frames of a scope from the innermost one outwards -/
def frames (s : Scope) : List Frame := s.frame :: s.outer

/-! ## declarations -/

def defineVariable (s : Scope) (name : String) (b : Binding) : Scope :=
  { s with frame := { s.frame with vars := s.frame.vars.put name b } }

def defineClass (s : Scope) (name : String) (b : ClassBinding) : Scope :=
  { s with frame := { s.frame with classes := s.frame.classes.put name b } }

def declareVariable (s : Scope) (name : String) (b : Binding) : Except Cause Scope :=
  match s.frame.vars.index.find? name with
  | some _ => .error (.duplicateDeclaration name)
  | none => .ok (s.defineVariable name b)

def declareClass (s : Scope) (name : String) (b : ClassBinding) : Except Cause Scope :=
  match s.frame.classes.find? name with
  | some _ => .error (.duplicateDeclaration name)
  | none => .ok (s.defineClass name b)

/-! ## looking up -/

def findVariable? (s : Scope) (name : String) : Option Binding :=
  s.frames.findSome? (·.vars.find? name)

def findClass? (s : Scope) (name : String) : Option ClassBinding :=
  s.frames.findSome? (·.classes.find? name)

def lookupVariable (s : Scope) (name : String) : Except Cause Binding :=
  match s.findVariable? name with
  | some b => .ok b
  | none => .error (.undeclaredIdentifier name)

def lookupClass (s : Scope) (name : String) : Except Cause ClassBinding :=
  match s.findClass? name with
  | some b => .ok b
  | none => .error (.undeclaredIdentifier name)

theorem declareVariable_eq (s : Scope) (name : String) (b : Binding) : s.declareVariable name b =
    match s.frame.vars.find? name with
    | some _ => .error (.duplicateDeclaration name)
    | none => .ok (s.defineVariable name b) := by
  have hsome : (s.frame.vars.index.find? name).isSome = (s.frame.vars.find? name).isSome := by
    rw [s.frame.vars.inStep.place, Variables.find?_eq, Table.isSome_index?]
  unfold declareVariable
  cases hb : s.frame.vars.find? name with
  | some b' =>
    rw [hb] at hsome
    obtain ⟨i, hi⟩ := Option.isSome_iff_exists.mp hsome
    rw [hi]
  | none =>
    rw [hb] at hsome
    rw [Option.isNone_iff_eq_none.mp (Option.isSome_eq_false_iff.mp hsome)]

/-- the variables of the innermost frame, in the order of declaration -/
def variableNames (s : Scope) : List String := s.frame.vars.entries.names

end Scope

end TypedScript
