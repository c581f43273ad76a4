import TypedScript.Proofs.Sites

/-!
# Numbering declarations

The identities of declarations are a matter of the tree alone.  In a body the functions come first,
in the order of the text, then everything else, statement by statement; a function counts its
parameters before its body, a class counts itself, its parameters and its body.
-/

namespace TypedScript

open List

/-! ## counting -/

/-- one for a function, which its list declares before anything else -/
def Stmt.functions : Stmt → Nat
  | .function _ _ => 1
  | _ => 0

def functionCount : List Stmt → Nat
  | [] => 0
  | s :: ss => s.functions + functionCount ss

mutual

def Stmt.taken : Stmt → Nat
  | .declare _ ds _ => ds.length
  | .function h body => h.parameters.length + (functionCount body + eachTaken body)
  | .classDef h body => 1 + h.parameters.length + (functionCount body + eachTaken body)
  | .conditional branches otherwise => branchesTaken branches + otherwiseTaken otherwise
  | .whileLoop _ body => functionCount body + eachTaken body
  | .forLoop _ body => 1 + (functionCount body + eachTaken body)
  | .rangeLoop _ _ body => functionCount body + eachTaken body
  | .switch _ cases otherwise => branchesTaken cases + otherwiseTaken otherwise
  | .block body => functionCount body + eachTaken body
  | _ => 0

def eachTaken : List Stmt → Nat
  | [] => 0
  | s :: ss => s.taken + eachTaken ss

def branchesTaken : List (Guarded Stmt) → Nat
  | [] => 0
  | ⟨_, body⟩ :: gs => functionCount body + eachTaken body + branchesTaken gs

def otherwiseTaken : Option (List Stmt) → Nat
  | none => 0
  | some body => functionCount body + eachTaken body

end

def bodyTaken (body : List Stmt) : Nat := functionCount body + eachTaken body

/-! ## numbering -/

def declaratorsNumbered (n : Nat) : List Declarator → List Declarator
  | [] => []
  | d :: ds => { d with id := some n, type := none } :: declaratorsNumbered (n + 1) ds

def parametersNumbered (n : Nat) : List Parameter → List Parameter
  | [] => []
  | p :: ps => { p with id := some n, type := none } :: parametersNumbered (n + 1) ps

def ForHead.numbered (n : Nat) (h : ForHead) : ForHead :=
  { h with index := { h.index with id := some n, type := none } }

mutual

/-- the statement with identities: `f` if it is a function, and those from `n` on inside it -/
def Stmt.numbered (f n : Nat) : Stmt → Stmt
  | .declare constant ds values => .declare constant (declaratorsNumbered n ds) values
  | .function h body =>
    .function { h with id := some f, parameters := parametersNumbered n h.parameters }
      (eachNumbered (n + h.parameters.length) (n + h.parameters.length + functionCount body) body)
  | .classDef h body =>
    .classDef { h with id := some n, parameters := parametersNumbered (n + 1) h.parameters }
      (eachNumbered (n + 1 + h.parameters.length)
        (n + 1 + h.parameters.length + functionCount body) body)
  | .conditional branches otherwise =>
    .conditional (branchesNumbered n branches)
      (otherwiseNumbered (n + branchesTaken branches) otherwise)
  | .whileLoop condition body =>
    .whileLoop condition (eachNumbered n (n + functionCount body) body)
  | .forLoop h body => .forLoop (h.numbered n) (eachNumbered (n + 1) (n + 1 + functionCount body) body)
  | .rangeLoop start stop body =>
    .rangeLoop start stop (eachNumbered n (n + functionCount body) body)
  | .switch scrutinee cases otherwise =>
    .switch scrutinee (branchesNumbered n cases)
      (otherwiseNumbered (n + branchesTaken cases) otherwise)
  | .block body => .block (eachNumbered n (n + functionCount body) body)
  | s => s

def eachNumbered (f n : Nat) : List Stmt → List Stmt
  | [] => []
  | s :: ss => s.numbered f n :: eachNumbered (f + s.functions) (n + s.taken) ss

def branchesNumbered (n : Nat) : List (Guarded Stmt) → List (Guarded Stmt)
  | [] => []
  | ⟨guard, body⟩ :: gs =>
    ⟨guard, eachNumbered n (n + functionCount body) body⟩ ::
      branchesNumbered (n + (functionCount body + eachTaken body)) gs

def otherwiseNumbered (n : Nat) : Option (List Stmt) → Option (List Stmt)
  | none => none
  | some body => some (eachNumbered n (n + functionCount body) body)

end

/-- a body with identities from `n` on: its functions first -/
def bodyNumbered (n : Nat) (body : List Stmt) : List Stmt :=
  eachNumbered n (n + functionCount body) body

/-! ## intervals of identities -/

/-- the `k` identities from `n` on -/
def interval (n k : Nat) : List (Option DeclId) := (List.range' n k).map some

theorem interval_one (n : Nat) : interval n 1 = [some n] := rfl

theorem interval_append (n a b : Nat) : interval n a ++ interval (n + a) b = interval n (a + b) := by
  unfold interval
  rw [← map_append, range'_append_1]

theorem nodup_interval (n k : Nat) : (interval n k).Nodup :=
  List.Pairwise.map some (fun _ _ hne h => hne (Option.some.inj h)) (nodup_range' (s := n) (n := k))

theorem interval_succ (n k : Nat) : interval n (k + 1) = some n :: interval (n + 1) k := by
  rw [Nat.add_comm k 1, ← interval_append, interval_one]
  rfl

theorem ids_declaratorsNumbered (n : Nat) (ds : List Declarator) :
    (declaratorsNumbered n ds).map Declarator.id = interval n ds.length := by
  induction ds generalizing n with
  | nil => rfl
  | cons d ds ih => rw [declaratorsNumbered, map_cons, ih, length_cons, interval_succ]

theorem ids_parametersNumbered (n : Nat) (ps : List Parameter) :
    (parametersNumbered n ps).map Parameter.id = interval n ps.length := by
  induction ps generalizing n with
  | nil => rfl
  | cons p ps ih => rw [parametersNumbered, map_cons, ih, length_cons, interval_succ]

/-! ## each identity once -/

variable {n t : Nat} {ids : List (Option DeclId)}

def siteIds (body : List Stmt) : List (Option DeclId) := (bodySites body).map Site.id

/-- identities of a list in any order: those of its functions and those inside -/
def Numbers (ids : List (Option DeclId)) (f functions n taken : Nat) : Prop :=
  ids.Perm (interval f functions ++ interval n taken)

theorem Numbers.body (h : Numbers ids n functions (n + functions) taken) :
    ids.Perm (interval n (functions + taken)) := by
  rw [← interval_append]
  exact h

theorem Numbers.append (h : Numbers ids f a n t) (h' : Numbers ids' (f + a) a' (n + t) t') :
    Numbers (ids ++ ids') f (a + a') n (t + t') := by
  unfold Numbers at h h' ⊢
  rw [← interval_append, ← interval_append]
  rw [perm_iff_count] at h h' ⊢
  intro i
  have hi := h i
  have hi' := h' i
  simp only [count_append] at hi hi' ⊢
  omega

theorem numbers_inside (h : ids.Perm (interval n t)) (f : Nat) : Numbers ids f 0 n t := h

theorem perm_parameters_append (ps : List Parameter) (h : ids.Perm (interval (n + ps.length) k)) :
    (((parametersNumbered n ps).map Site.parameter).map Site.id ++ ids).Perm
      (interval n (ps.length + k)) := by
  have hps : ((parametersNumbered n ps).map Site.parameter).map Site.id = interval n ps.length := by
    rw [List.map_map]
    exact ids_parametersNumbered n ps
  rw [hps, ← interval_append]
  exact h.append_left _

mutual

theorem numbers_sites (f n : Nat) (s : Stmt) :
    Numbers ((s.numbered f n).sites.map Site.id) f s.functions n s.taken := by
  cases s with
  | declare constant ds values =>
    refine numbers_inside ?_ f
    rw [Stmt.numbered, Stmt.sites, List.map_map]
    exact List.Perm.of_eq (ids_declaratorsNumbered n ds)
  | function h body =>
    have hbody := (numbers_bodySites (n + h.parameters.length)
      (n + h.parameters.length + functionCount body) body).body
    rw [Stmt.numbered, Stmt.sites, map_cons, map_append]
    exact (perm_parameters_append h.parameters hbody).cons (some f)
  | classDef h body =>
    have hbody := (numbers_bodySites (n + 1 + h.parameters.length)
      (n + 1 + h.parameters.length + functionCount body) body).body
    refine numbers_inside ?_ f
    rw [Stmt.numbered, Stmt.sites, map_cons, map_append, Stmt.taken, Nat.add_assoc 1,
      Nat.add_comm 1, interval_succ]
    exact (perm_parameters_append h.parameters hbody).cons (some n)
  | conditional branches otherwise =>
    refine numbers_inside ?_ f
    rw [Stmt.numbered, Stmt.sites, map_append, Stmt.taken, ← interval_append]
    exact (perm_branchSites n branches).append (perm_otherwiseSites _ otherwise)
  | whileLoop condition body | rangeLoop start stop body =>
    exact numbers_inside (numbers_bodySites n (n + functionCount body) body).body f
  | forLoop h body =>
    have hbody := (numbers_bodySites (n + 1) (n + 1 + functionCount body) body).body
    refine numbers_inside ?_ f
    rw [Stmt.numbered, Stmt.sites, map_cons, Stmt.taken, Nat.add_comm 1, interval_succ]
    exact hbody.cons (some n)
  | switch scrutinee cases otherwise =>
    refine numbers_inside ?_ f
    rw [Stmt.numbered, Stmt.sites, map_append, Stmt.taken, ← interval_append]
    exact (perm_branchSites n cases).append (perm_otherwiseSites _ otherwise)
  | block body => exact numbers_inside (numbers_bodySites n (n + functionCount body) body).body f
  | _ => exact List.Perm.refl []

theorem numbers_bodySites (f n : Nat) (ss : List Stmt) :
    Numbers ((bodySites (eachNumbered f n ss)).map Site.id) f (functionCount ss) n (eachTaken ss) := by
  cases ss with
  | nil => exact List.Perm.refl []
  | cons s ss =>
    rw [eachNumbered, bodySites, map_append]
    exact (numbers_sites f n s).append (numbers_bodySites (f + s.functions) (n + s.taken) ss)

theorem perm_branchSites (n : Nat) (gs : List (Guarded Stmt)) :
    ((branchSites (branchesNumbered n gs)).map Site.id).Perm (interval n (branchesTaken gs)) := by
  cases gs with
  | nil => exact List.Perm.refl []
  | cons g gs =>
    obtain ⟨guard, body⟩ := g
    rw [branchesNumbered, branchSites, map_append, branchesTaken, ← interval_append]
    exact (numbers_bodySites n (n + functionCount body) body).body.append (perm_branchSites _ gs)

theorem perm_otherwiseSites (n : Nat) (otherwise : Option (List Stmt)) :
    ((otherwiseSites (otherwiseNumbered n otherwise)).map Site.id).Perm
      (interval n (otherwiseTaken otherwise)) := by
  cases otherwise with
  | none => exact List.Perm.refl []
  | some body => exact (numbers_bodySites n (n + functionCount body) body).body

end

theorem perm_siteIds_bodyNumbered (n : Nat) (body : List Stmt) :
    (siteIds (bodyNumbered n body)).Perm (interval n (bodyTaken body)) :=
  (numbers_bodySites n (n + functionCount body) body).body

end TypedScript
