import TypedScript.Proofs.Sites
import TypedScript.Script.Lower

/-!
# What the identifiers of a script stand for

The occurrences of identifiers in the text of a script, read off the program: for each, the declaration
that it stands for, the range loop whose index it is, or a name that is printed as it is.  They are
listed in the order of the text.  Range loops are numbered in the order in which they start.

* `Referent`: what an identifier stands for;
* `bodyCovers`: each declaration and each loop has one.
-/

namespace TypedScript

open List

inductive Referent where
  | declared (id : DeclId)
  | loop (index : Nat)
  /-- a name of the target language -/
  | verbatim (text : String)
  deriving DecidableEq

/-- a declaration without an identity keeps its name -/
def Referent.ofId : Option DeclId → String → Referent
  | some id, _ => .declared id
  | none, name => .verbatim name

def Symbol.referent (x : Symbol) : Referent :=
  match x.resolution with
  | some (.declared id) => .declared id
  | some (.builtin native) => .verbatim native
  | none => .verbatim x.name

def Site.referent (d : Site) : Referent := .ofId d.id d.name

/-- the names in use in an expression -/
def Expr.referents (e : Expr) : List Referent := e.uses.map Symbol.referent

def Expr.allReferents (es : List Expr) : List Referent := (Expr.usesAll es).map Symbol.referent

def Declarator.referent (d : Declarator) : Referent := .ofId d.id d.name

def Parameter.referents (p : Parameter) : List Referent :=
  .ofId p.id p.name :: p.uses.map Symbol.referent

/-! ## range loops -/

mutual

def Stmt.loops : Stmt → Nat
  | .function _ body => bodyLoops body
  | .classDef _ body => bodyLoops body
  | .conditional branches otherwise => branchLoops branches + otherwiseLoops otherwise
  | .whileLoop _ body => bodyLoops body
  | .forLoop _ body => bodyLoops body
  | .rangeLoop _ _ body => 1 + bodyLoops body
  | .switch _ cases otherwise => branchLoops cases + otherwiseLoops otherwise
  | .block body => bodyLoops body
  | _ => 0

def bodyLoops : List Stmt → Nat
  | [] => 0
  | s :: ss => s.loops + bodyLoops ss

def branchLoops : List (Guarded Stmt) → Nat
  | [] => 0
  | ⟨_, body⟩ :: gs => bodyLoops body + branchLoops gs

def otherwiseLoops : Option (List Stmt) → Nat
  | none => 0
  | some body => bodyLoops body

end

/-! ## statements -/

/-- the variables that the statements of a class body declare -/
def fieldReferents : List Stmt → List Referent
  | [] => []
  | .declare _ ds _ :: ss => ds.map Declarator.referent ++ fieldReferents ss
  | _ :: ss => fieldReferents ss

/-- the functions that the statements of a class body declare -/
def methodReferents : List Stmt → List Referent
  | [] => []
  | .function h _ :: ss => .ofId h.id h.name :: methodReferents ss
  | _ :: ss => methodReferents ss

/-- the constructor of a class, with a line for each field, and a line for each method -/
def classReferents (constructor : Referent) (parameters fields methods : List Referent) :
    List Referent :=
  constructor :: (parameters ++ (fields.flatMap (fun r => [r, r]) ++
    methods.flatMap fun r => [constructor, r, r]))

mutual

/-- the identifiers of a statement whose range loops are numbered from `n` on.  The statements of a
class body stand before the constructor -/
def Stmt.referents (n : Nat) : Stmt → List Referent
  | .expression e => e.referents
  | .declare _ ds values => ds.map Declarator.referent ++ Expr.allReferents values
  | .assign targets values => Expr.allReferents targets ++ Expr.allReferents values
  | .function h body => .ofId h.id h.name :: (h.parameters.flatMap Parameter.referents ++
      bodyReferents n body)
  | .classDef h body => bodyReferents n body ++ classReferents (.ofId h.id h.name)
      (h.parameters.flatMap Parameter.referents) (fieldReferents body) (methodReferents body)
  | .conditional branches otherwise => branchReferents n branches ++
      otherwiseReferents (n + branchLoops branches) otherwise
  | .whileLoop condition body => condition.referents ++ bodyReferents n body
  | .forLoop h body => h.index.referent :: (h.init.referents ++ (h.test.referents ++
      (h.target.referent :: (Update.uses h.update).map Symbol.referent ++ bodyReferents n body)))
  | .rangeLoop start stop body => .loop n :: (start.referents ++ .loop n :: (stop.referents ++
      .loop n :: bodyReferents (n + 1) body))
  | .switch scrutinee cases otherwise => (if scrutinee.isAtom then [] else scrutinee.referents) ++
      (branchReferents n cases ++ otherwiseReferents (n + branchLoops cases) otherwise)
  | .breakLoop => []
  | .continueLoop => []
  | .returnValue value => Expr.allReferents value.toList
  | .print e => e.referents
  | .block body => bodyReferents n body

def bodyReferents (n : Nat) : List Stmt → List Referent
  | [] => []
  | s :: ss => s.referents n ++ bodyReferents (n + s.loops) ss

def branchReferents (n : Nat) : List (Guarded Stmt) → List Referent
  | [] => []
  | ⟨guard, body⟩ :: gs => guard.referents ++ (bodyReferents n body ++
      branchReferents (n + bodyLoops body) gs)

def otherwiseReferents (n : Nat) : Option (List Stmt) → List Referent
  | none => []
  | some body => bodyReferents n body

end

/-! ## each declaration and each loop occurs -/

/-- some identifiers hold those of the sites `ds` and of the `k` loops from `n` on -/
structure Covers (rs : List Referent) (ds : List Site) (n k : Nat) : Prop where
  sites : ∀ d ∈ ds, d.referent ∈ rs
  loops : ∀ i, n ≤ i → i < n + k → .loop i ∈ rs

namespace Covers

variable {rs rs' : List Referent} {ds ds' : List Site} {n k k' : Nat}

theorem none : Covers rs [] n 0 := ⟨nofun, fun _ hn hi => absurd hi (Nat.not_lt.mpr hn)⟩

theorem mono (h : Covers rs ds n k) (hsub : rs ⊆ rs') : Covers rs' ds n k :=
  ⟨fun d hd => hsub (h.sites d hd), fun i hn hi => hsub (h.loops i hn hi)⟩

theorem behind (h : Covers rs ds n k) (front : List Referent) : Covers (front ++ rs) ds n k :=
  h.mono (subset_append_right front rs)

theorem before (h : Covers rs ds n k) (rest : List Referent) : Covers (rs ++ rest) ds n k :=
  h.mono (subset_append_left rs rest)

theorem next (h : Covers rs ds n k) (r : Referent) : Covers (r :: rs) ds n k := h.behind [r]

theorem append (h : Covers rs ds n k) (h' : Covers rs' ds' (n + k) k') :
    Covers (rs ++ rs') (ds ++ ds') n (k + k') := by
  refine ⟨forall_mem_append.mpr ⟨(h.before rs').sites, (h'.behind rs).sites⟩, fun i hn hi => ?_⟩
  by_cases hlt : i < n + k
  · exact (h.before rs').loops i hn hlt
  · exact (h'.behind rs).loops i (Nat.not_lt.mp hlt) (by omega)

theorem cons (h : Covers rs ds n k) {d : Site} (hd : d.referent ∈ rs) : Covers rs (d :: ds) n k :=
  ⟨forall_mem_cons.mpr ⟨hd, h.sites⟩, h.loops⟩

theorem parameters (h : Covers rs ds n k) {ps : List Parameter}
    (hps : ∀ r ∈ ps.flatMap Parameter.referents, r ∈ rs) : Covers rs (ps.map Site.parameter ++ ds) n k := by
  refine ⟨forall_mem_append.mpr ⟨forall_mem_map.mpr fun p hp => ?_, h.sites⟩, h.loops⟩
  exact hps _ (mem_flatMap.mpr ⟨p, hp, mem_cons_self⟩)

end Covers

mutual

theorem Stmt.covers (n : Nat) (s : Stmt) : Covers (s.referents n) s.sites n s.loops := by
  cases s with
  | declare constant ds values =>
    refine Covers.before ⟨forall_mem_map.mpr fun d hd => ?_, Covers.none.loops⟩ _
    exact mem_map.mpr ⟨d, hd, rfl⟩
  | function h body =>
    refine .cons (.next (.parameters ((bodyCovers n body).behind _) fun r hr => ?_) _) mem_cons_self
    exact mem_append_left _ hr
  | classDef h body =>
    refine .cons (.parameters ((bodyCovers n body).before _) fun r hr => ?_) ?_
    · exact mem_append_right _ (mem_cons_of_mem _ (mem_append_left _ hr))
    · exact mem_append_right _ mem_cons_self
  | conditional branches otherwise => exact (branchesCover n branches).append (otherwiseCovers _ otherwise)
  | whileLoop condition body => exact (bodyCovers n body).behind _
  | forLoop h body =>
    exact .cons (.next (.behind (.behind (.behind (bodyCovers n body) _) _) _) _) mem_cons_self
  | rangeLoop start stop body =>
    have hbody := ((((bodyCovers (n + 1) body).next (.loop n)).behind stop.referents).next (.loop n)).behind
      start.referents
    refine ⟨(hbody.next _).sites, fun i hn hi => ?_⟩
    rw [Stmt.loops] at hi
    by_cases heq : i = n
    · rw [heq]
      exact mem_cons_self
    · exact (hbody.next _).loops i (by omega) (by omega)
  | switch scrutinee cases otherwise =>
    exact ((branchesCover n cases).append (otherwiseCovers _ otherwise)).behind _
  | block body => exact bodyCovers n body
  | _ => exact .none

theorem bodyCovers (n : Nat) (body : List Stmt) :
    Covers (bodyReferents n body) (bodySites body) n (bodyLoops body) := by
  cases body with
  | nil => exact .none
  | cons s ss => exact (s.covers n).append (bodyCovers _ ss)

theorem branchesCover (n : Nat) (gs : List (Guarded Stmt)) :
    Covers (branchReferents n gs) (branchSites gs) n (branchLoops gs) := by
  cases gs with
  | nil => exact .none
  | cons g gs => exact ((bodyCovers n g.body).append (branchesCover _ gs)).behind _

theorem otherwiseCovers (n : Nat) (o : Option (List Stmt)) :
    Covers (otherwiseReferents n o) (otherwiseSites o) n (otherwiseLoops o) := by
  cases o with
  | none => exact .none
  | some body => exact bodyCovers n body

end

end TypedScript
