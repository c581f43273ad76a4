import TypedScript.Scope.Basic

/-!
# Scopes are nested tables

A scope is made from the empty one by entering and leaving frames and by writing names into the innermost
frame.  What it finds, lists and knows of its surroundings is told by its history: the frames that are
open, how each was entered, and what was written in each.

* `Indexed.written`             the entries and the index that a sequence of writes leaves, always in step;
* `Scope.Op`, `Scope.run`       sequences of operations; a declaration that fails changes nothing;
* `Scope.History`               the frames that are open, with their writes, the last one first.
-/

namespace TypedScript

open List

/-! ## writes -/

namespace Table

variable {β : Type}

theorem find?_eq_none_iff {t : Table β} : t.find? x = none ↔ x ∉ t.names := by
  rw [← index?_eq_none_iff, ← Option.not_isSome_iff_eq_none, ← isSome_index?, Option.not_isSome_iff_eq_none]

theorem mem_names_of_find? {t : Table β} {b : β} (h : t.find? x = some b) : x ∈ t.names :=
  Decidable.not_not.mp fun hx => nomatch (find?_eq_none_iff.mpr hx).symm.trans h

theorem index?_eq_some_iff {t : Table β} (h : t.names.Nodup) :
    t.index? x = some i ↔ ∃ b, t[i]? = some (x, b) := by
  induction t generalizing i with
  | nil => exact ⟨nofun, fun ⟨_, hb⟩ => nomatch hb⟩
  | cons e t ih =>
    obtain ⟨hx, hnames⟩ := nodup_cons.mp h
    rw [index?_cons]
    split
    · next hn =>
      cases i with
      | zero => exact ⟨fun _ => ⟨e.2, by rw [← hn]; rfl⟩, fun _ => rfl⟩
      | succ i =>
        refine ⟨nofun, fun ⟨b, hb⟩ => absurd (mem_map.mpr ⟨(x, b), ?_, hn.symm⟩) hx⟩
        exact mem_of_getElem? hb
    · next hn =>
      cases i with
      | zero =>
        refine ⟨fun hi => ?_, fun ⟨b, hb⟩ => absurd (congrArg (·.1) (Option.some.inj hb)) hn⟩
        obtain ⟨j, _, hj⟩ := Option.map_eq_some_iff.mp hi
        exact absurd hj (Nat.succ_ne_zero j)
      | succ i =>
        rw [List.getElem?_cons_succ, ← ih hnames]
        exact ⟨fun hi => by simpa using hi, fun hi => by rw [hi]; rfl⟩

/-- the table that some writes leave, the last of which comes first -/
def written : List (String × β) → Table β
  | [] => []
  | (x, b) :: ws => (written ws).put x b

end Table

namespace Indexed

variable {β : Type}

/-- the two tables that some writes leave -/
def written : List (String × β) → Indexed β
  | [] => .empty
  | (x, b) :: ws => (written ws).put x b

/-- no write puts the two tables out of step -/
theorem inStep_written (ws : List (String × β)) : (written ws).InStep := by
  induction ws with
  | nil => exact inStep_empty
  | cons w ws ih => exact ih.put w.1 w.2

theorem entries_written (ws : List (String × β)) : (written ws).entries = .written ws := by
  induction ws with
  | nil => rfl
  | cons w ws ih => rw [written, (inStep_written ws).entries_put, ih, Table.written]

end Indexed

/-- the names of some writes, the last of which comes first, in the order of their first writes -/
def firsts {β : Type} : List (String × β) → List String
  | [] => []
  | (x, _) :: ws => if x ∈ firsts ws then firsts ws else firsts ws ++ [x]

namespace Table

variable {β : Type}

theorem names_written (ws : List (String × β)) : (written ws).names = firsts ws := by
  induction ws with
  | nil => rfl
  | cons w ws ih => rw [written, names_put, ih, firsts]

theorem find?_written (ws : List (String × β)) (x : String) : (written ws).find? x = ws.lookup x := by
  induction ws with
  | nil => rfl
  | cons w ws ih =>
    rw [written, find?_put, ih, lookup_cons]
    by_cases h : x = w.1
    · simp [h]
    · simp [h, beq_false_of_ne h]

end Table

/-! ## operations and their history -/

namespace Scope

inductive Op where
  | enterFunction (signature : Signature)
  | enterLoop
  | enterBlock
  | leave
  | declareVariable (name : String) (b : Binding)
  | defineVariable (name : String) (b : Binding)
  | declareClass (name : String) (b : ClassBinding)
  | defineClass (name : String) (b : ClassBinding)

/-- a declaration that fails changes nothing, and the outermost frame is not left -/
def after (s : Scope) : Op → Scope
  | .enterFunction signature => s.enterFunction signature
  | .enterLoop => s.enterLoop
  | .enterBlock => s.enterBlock
  | .leave => s.leave?.getD s
  | .declareVariable x b => (s.declareVariable x b).toOption.getD s
  | .defineVariable x b => s.defineVariable x b
  | .declareClass x b => (s.declareClass x b).toOption.getD s
  | .defineClass x b => s.defineClass x b

def run (ops : List Op) : Scope := ops.foldl after empty

/-- how a frame was entered -/
inductive Way where
  | root
  | function (signature : Signature)
  | loop
  | block

/-- a frame that is open, and what was written in it, the last write first -/
structure Layer where
  way : Way
  vars : List (String × Binding)
  classes : List (String × ClassBinding)

/-- the function of the nearest frame that was entered as one -/
def functionOf : List Layer → Option Signature
  | [] => none
  | l :: ls =>
    match l.way with
    | .function signature => some signature
    | _ => functionOf ls

/-- the nearest frame that was entered as a function or a loop is a loop -/
def inLoop : List Layer → Bool
  | [] => false
  | l :: ls =>
    match l.way with
    | .function _ => false
    | .loop => true
    | _ => inLoop ls

structure History where
  layer : Layer
  outer : List Layer

namespace History

def layers (H : History) : List Layer := H.layer :: H.outer

def enter (H : History) (way : Way) : History := ⟨⟨way, [], []⟩, H.layers⟩

def writeVariable (H : History) (x : String) (b : Binding) : History :=
  { H with layer := { H.layer with vars := (x, b) :: H.layer.vars } }

def writeClass (H : History) (x : String) (b : ClassBinding) : History :=
  { H with layer := { H.layer with classes := (x, b) :: H.layer.classes } }

def after (H : History) : Op → History
  | .enterFunction signature => H.enter (.function signature)
  | .enterLoop => H.enter .loop
  | .enterBlock => H.enter .block
  | .leave =>
    match H.outer with
    | [] => H
    | l :: ls => ⟨l, ls⟩
  | .declareVariable x b => if x ∈ firsts H.layer.vars then H else H.writeVariable x b
  | .defineVariable x b => H.writeVariable x b
  | .declareClass x b => if x ∈ firsts H.layer.classes then H else H.writeClass x b
  | .defineClass x b => H.writeClass x b

end History

def history (ops : List Op) : History := ops.foldl History.after ⟨⟨.root, [], []⟩, []⟩

/-! ## the scope of a history -/

def Layer.frame (l : Layer) (around : List Layer) : Frame :=
  ⟨⟨.written l.vars, Indexed.inStep_written _⟩, .written l.classes, functionOf (l :: around),
    inLoop (l :: around)⟩

def framesOf : List Layer → List Frame
  | [] => []
  | l :: ls => l.frame ls :: framesOf ls

def History.scope (H : History) : Scope := ⟨H.layer.frame H.outer, framesOf H.outer⟩

theorem declareVariable_eq_ite (s : Scope) (x : String) (b : Binding) : s.declareVariable x b
    = if x ∈ s.variableNames then .error (.duplicateDeclaration x) else .ok (s.defineVariable x b) := by
  rw [declareVariable_eq, Variables.find?_eq]
  unfold variableNames
  cases h : s.frame.vars.entries.find? x with
  | some a => rw [if_pos (Table.mem_names_of_find? h)]
  | none => rw [if_neg (Table.find?_eq_none_iff.mp h)]

theorem declareClass_eq (s : Scope) (x : String) (b : ClassBinding) : s.declareClass x b
    = if x ∈ s.frame.classes.names then .error (.duplicateDeclaration x) else .ok (s.defineClass x b) := by
  unfold declareClass
  cases h : s.frame.classes.find? x with
  | some a => rw [if_pos (Table.mem_names_of_find? h)]
  | none => rw [if_neg (Table.find?_eq_none_iff.mp h)]

theorem History.variableNames_scope (H : History) : H.scope.variableNames = firsts H.layer.vars :=
  (congrArg Table.names (Indexed.entries_written _)).trans (Table.names_written _)

theorem History.scope_after (H : History) (op : Op) : (H.after op).scope = H.scope.after op := by
  cases op with
  | enterFunction | enterLoop | enterBlock | defineVariable | defineClass => rfl
  | leave =>
    obtain ⟨l, ls⟩ := H
    cases ls <;> rfl
  | declareVariable x b =>
    have hnames := H.variableNames_scope
    rw [Scope.after, declareVariable_eq_ite, hnames, History.after]
    split <;> rfl
  | declareClass x b =>
    have hnames : H.scope.frame.classes.names = firsts H.layer.classes := Table.names_written _
    rw [Scope.after, declareClass_eq, hnames, History.after]
    split <;> rfl

theorem run_eq (ops : List Op) : run ops = (history ops).scope := by
  suffices h : ∀ H : History, ops.foldl after H.scope = (ops.foldl History.after H).scope from
    h ⟨⟨.root, [], []⟩, []⟩
  induction ops with
  | nil => exact fun _ => rfl
  | cons op ops ih =>
    intro H
    rw [foldl_cons, foldl_cons, ← H.scope_after op, ih]

theorem findSome?_framesOf {β : Type} {f : Frame → Option β} {g : Layer → Option β}
    (h : ∀ l ls, f (Layer.frame l ls) = g l) (ls : List Layer) :
    (framesOf ls).findSome? f = ls.findSome? g := by
  induction ls with
  | nil => rfl
  | cons l ls ih => rw [framesOf, List.findSome?_cons, List.findSome?_cons, h, ih]

theorem exists_layer (h : f ∈ framesOf ls) : ∃ l ∈ ls, ∃ around, f = Layer.frame l around := by
  induction ls with
  | nil => cases h
  | cons l ls ih =>
    rcases mem_cons.mp h with heq | hf
    · exact ⟨l, mem_cons_self, ls, heq⟩
    · obtain ⟨l', hl', around, heq⟩ := ih hf
      exact ⟨l', mem_cons_of_mem l hl', around, heq⟩

/-- Scopes that are built by operations are nested ordered tables.  In every frame the index and the entries
are what the writes of the frame leave, one through the other, and they agree: names are distinct, and the
index has exactly their places.  Names are found with their last write in the innermost frame that has one,
variables and classes apart; a declaration fails exactly if the own table has the name; names are listed in
the order of their first writes; and the nearest function or loop tells where a scope is. -/
theorem run_nests_ordered_maps (ops : List Op) :
    let s := run ops
    let H := history ops
    (∀ f ∈ s.frames, (∃ l ∈ H.layers, f.vars.toIndexed = .written l.vars) ∧ f.vars.entries.names.Nodup ∧
      (∀ x, (f.vars.index.find? x).isSome ↔ x ∈ f.vars.entries.names) ∧
      ∀ x i, f.vars.index.find? x = some i ↔ ∃ b, f.vars.entries[i]? = some (x, b)) ∧
    (∀ x, s.findVariable? x = H.layers.findSome? (·.vars.lookup x)) ∧
    (∀ x, s.findClass? x = H.layers.findSome? (·.classes.lookup x)) ∧
    (∀ x b, s.declareVariable x b = if x ∈ firsts H.layer.vars then .error (.duplicateDeclaration x)
      else .ok (s.defineVariable x b)) ∧
    (∀ x b, s.declareClass x b = if x ∈ firsts H.layer.classes then .error (.duplicateDeclaration x)
      else .ok (s.defineClass x b)) ∧
    s.variableNames = firsts H.layer.vars ∧
    s.frame.function = functionOf H.layers ∧ s.frame.insideLoop = inLoop H.layers := by
  intro s H
  have hs : s = H.scope := run_eq ops
  have hvars : s.variableNames = firsts H.layer.vars := hs ▸ H.variableNames_scope
  have hclasses : s.frame.classes.names = firsts H.layer.classes := by
    rw [hs]
    exact Table.names_written _
  refine ⟨fun f hf => ?_, fun x => ?_, fun x => ?_, fun x b => ?_, fun x b => ?_, hvars, ?_, ?_⟩
  · have hframes : s.frames = framesOf H.layers := congrArg Scope.frames hs
    obtain ⟨l, hl, around, rfl⟩ := exists_layer (hframes ▸ hf)
    have hstep : (Indexed.written l.vars).InStep := Indexed.inStep_written l.vars
    refine ⟨⟨l, hl, rfl⟩, hstep.distinct, fun x => ?_, fun x i => ?_⟩
    · show ((Indexed.written l.vars).index.find? x).isSome ↔ x ∈ (Indexed.written l.vars).entries.names
      rw [hstep.place, Option.isSome_iff_ne_none, Ne, Table.index?_eq_none_iff, Decidable.not_not]
    · show (Indexed.written l.vars).index.find? x = some i ↔ _
      rw [hstep.place]
      exact Table.index?_eq_some_iff hstep.distinct
  · rw [hs]
    refine findSome?_framesOf (fun l around => ?_) H.layers
    rw [Variables.find?_eq]
    exact (congrArg (Table.find? · x) (Indexed.entries_written l.vars)).trans (Table.find?_written l.vars x)
  · rw [hs]
    exact findSome?_framesOf (fun l _ => Table.find?_written l.classes x) H.layers
  · rw [declareVariable_eq_ite, hvars]
  · rw [declareClass_eq, hclasses]
  · rw [hs]
    rfl
  · rw [hs]
    rfl

end Scope

end TypedScript
