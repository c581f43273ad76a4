import TypedScript.Proofs.AddedNames
import TypedScript.Proofs.Blocks
import TypedScript.Proofs.OutputNames
import TypedScript.Proofs.WellFormedTrees

/-!
# Jumps of compiled programs

Every `break` and `continue` of an accepted program has a loop around it, in the function that it stands
in.  In the text of the script a `continue` goes on with that loop.  A `break` leaves it if no switch
stands between them; otherwise it leaves the switch.
-/

namespace TypedScript

open Script (Block Event namesOf jumpWords BodyPrints BranchesPrint CasesPrint OtherwisePrints
  DefaultPrints)
open List

/-! ## jumps of trees -/

mutual

/-- the number of loops and switches in a statement -/
def Stmt.headers : Stmt → Nat
  | .function _ body | .classDef _ body | .block body => bodyHeaders body
  | .conditional branches otherwise => branchHeaders branches + otherwiseHeaders otherwise
  | .whileLoop _ body | .forLoop _ body | .rangeLoop _ _ body => bodyHeaders body + 1
  | .switch _ cases otherwise => branchHeaders cases + otherwiseHeaders otherwise + 1
  | _ => 0

def bodyHeaders : List Stmt → Nat
  | [] => 0
  | s :: ss => s.headers + bodyHeaders ss

def branchHeaders : List (Guarded Stmt) → Nat
  | [] => 0
  | ⟨_, body⟩ :: gs => bodyHeaders body + branchHeaders gs

def otherwiseHeaders : Option (List Stmt) → Nat
  | none => 0
  | some body => bodyHeaders body

end

/-- A loop, a switch or a jump, and the loops, switches and functions around it from the inside out.
The break at the end of a case is not written in the program. -/
structure Landmark where
  written : Bool
  event : Event
  deriving DecidableEq, Repr

mutual

/-- the marks of a statement inside some blocks, behind `n` loops and switches -/
def Stmt.landmarks (around : List Block) (n : Nat) : Stmt → List Landmark
  | .function _ body => bodyLandmarks (.function :: around) n body
  | .classDef _ body | .block body => bodyLandmarks around n body
  | .conditional branches otherwise => branchLandmarks [] around n branches ++
      otherwiseLandmarks around (n + branchHeaders branches) otherwise
  | .whileLoop _ body | .forLoop _ body | .rangeLoop _ _ body =>
    ⟨true, ⟨.header (.loop n), around⟩⟩ :: bodyLandmarks (.loop n :: around) (n + 1) body
  | .switch _ cases otherwise =>
    ⟨true, ⟨.header (.switch n), around⟩⟩ ::
      (branchLandmarks [⟨false, ⟨.leave, .switch n :: around⟩⟩] (.switch n :: around) (n + 1) cases ++
        otherwiseLandmarks (.switch n :: around) (n + 1 + branchHeaders cases) otherwise)
  | .breakLoop => [⟨true, ⟨.leave, around⟩⟩]
  | .continueLoop => [⟨true, ⟨.next, around⟩⟩]
  | _ => []

def bodyLandmarks (around : List Block) (n : Nat) : List Stmt → List Landmark
  | [] => []
  | s :: ss => s.landmarks around n ++ bodyLandmarks around (n + s.headers) ss

/-- branches, each of which ends with some marks -/
def branchLandmarks (ending : List Landmark) (around : List Block) (n : Nat) :
    List (Guarded Stmt) → List Landmark
  | [] => []
  | ⟨_, body⟩ :: gs => bodyLandmarks around n body ++
      (ending ++ branchLandmarks ending around (n + bodyHeaders body) gs)

def otherwiseLandmarks (around : List Block) (n : Nat) : Option (List Stmt) → List Landmark
  | none => []
  | some body => bodyLandmarks around n body

end

def programLandmarks (q : Program) : List Landmark := bodyLandmarks [] 0 q

mutual

/-- Every conditional in a statement has a branch.  The lines of one without branches would close a block
that they did not open. -/
def Stmt.Branched : Stmt → Prop
  | .function _ body | .classDef _ body | .block body => BodyBranched body
  | .conditional branches otherwise =>
    branches ≠ [] ∧ BranchesBranched branches ∧ OtherwiseBranched otherwise
  | .whileLoop _ body | .forLoop _ body | .rangeLoop _ _ body => BodyBranched body
  | .switch _ cases otherwise => BranchesBranched cases ∧ OtherwiseBranched otherwise
  | _ => True

def BodyBranched : List Stmt → Prop
  | [] => True
  | s :: ss => s.Branched ∧ BodyBranched ss

def BranchesBranched : List (Guarded Stmt) → Prop
  | [] => True
  | ⟨_, body⟩ :: gs => BodyBranched body ∧ BranchesBranched gs

def OtherwiseBranched : Option (List Stmt) → Prop
  | none => True
  | some body => BodyBranched body

end

/-! ## lowering -/

/-- what holds of the result of a run, whatever names it starts with -/
def Naming.Always {α : Type} (m : Naming α) (P : α → Prop) : Prop := ∀ ns, P (m ns).1

section

variable {α β : Type} {m : Naming α} {P : α → Prop}
variable {Q : β → Prop} {f : α → Naming β}

theorem Naming.Always.pure {a : α} (h : P a) : Naming.Always (Pure.pure a) P := fun _ => h

theorem Naming.Always.bind (h : m.Always P)
    (hf : ∀ a, P a → (f a).Always Q) : (m >>= f).Always Q := fun ns => hf _ (h ns) _

theorem Naming.Always.skip (hf : ∀ a, (f a).Always Q) : (m >>= f).Always Q := fun _ => hf _ _

end

/-- the events of landmarks, as a part of a script shows them -/
def shown (landmarks : List Block → Nat → List Landmark) : Script.Shown :=
  fun around n => (landmarks around n).map Landmark.event

theorem shown_append (f g : List Block → Nat → List Landmark) (k : Nat) :
    (fun around n => shown f around n ++ shown g around (n + k))
      = shown fun around n => f around n ++ g around (n + k) := by
  funext around n
  exact map_append.symm

theorem shown_case (f g : List Block → Nat → List Landmark) (k : Nat) :
    (fun around n => shown f around n ++ ⟨.leave, around⟩ :: shown g around (n + k))
      = shown fun around n => f around n ++ ⟨false, ⟨.leave, around⟩⟩ :: g around (n + k) := by
  funext around n
  show _ = List.map Landmark.event (_ ++ _ :: _)
  rw [map_append]
  rfl

theorem shown_switch (f g : List Block → Nat → List Landmark) (k : Nat) :
    (fun around n => ⟨.header (.switch n), around⟩ ::
        (shown f (.switch n :: around) (n + 1) ++ shown g (.switch n :: around) (n + 1 + k)))
      = shown fun around n => ⟨true, ⟨.header (.switch n), around⟩⟩ ::
        (f (.switch n :: around) (n + 1) ++ g (.switch n :: around) (n + 1 + k)) := by
  funext around n
  exact congrArg (_ :: ·) map_append.symm

theorem silent_evaluation (scrutinee : Expr) (e : Script.Expr) :
    Script.Silent (Stmt.lower.evaluation scrutinee e) := by
  unfold Stmt.lower.evaluation
  split
  · exact .nil
  · exact Script.silent_expression e

theorem silent_methods (name : String) (methods : List String) :
    Script.Silent (methods.map (.attach name)) := by
  induction methods with
  | nil => exact .nil
  | cons method methods ih => exact (Script.silent_attach name method).before ih

mutual

theorem Stmt.prints_lower (s : Stmt) (h : s.Branched) :
    s.lower.Always fun ss => BodyPrints ss (shown fun around n => s.landmarks around n) s.headers := by
  match s, h with
  | .expression e, _ =>
    rw [Stmt.lower]
    exact .skip fun e' => .pure (Script.silent_expression e')
  | .declare constant ds values, _ =>
    rw [Stmt.lower]
    exact .skip fun names => .skip fun values' => .pure (Script.silent_declare _ _ _)
  | .assign targets values, _ =>
    rw [Stmt.lower]
    exact .skip fun ts => .skip fun vs => .pure (Script.silent_assign _ _)
  | .function h body, hbody =>
    rw [Stmt.lower]
    refine .skip fun name => .skip fun ps => .bind (prints_lowerBody body hbody) fun ss hss => ?_
    exact .pure (hss.function _ _ _)
  | .classDef h body, hbody =>
    rw [Stmt.lower]
    refine .skip fun name => .skip fun ps => .bind (prints_lowerMembers body hbody) fun r hr => ?_
    obtain ⟨ss, fields, methods⟩ := r
    have hrest : Script.Silent (_ :: methods.map (.attach name)) :=
      (Script.silent_constructor name ps fields).before (silent_methods name methods)
    exact .pure (hrest.behind hr)
  | .conditional branches none, hbranched =>
    rw [Stmt.lower]
    refine .bind (prints_lowerBranches branches hbranched.2.1) fun gs hgs => .pure ?_
    have hnone : OtherwisePrints none (shown fun around n => otherwiseLandmarks around n none)
      (otherwiseHeaders none) := .none
    have hall := hgs.2.1.conditional (hgs.1 hbranched.1) hnone
    rw [shown_append] at hall
    exact hall
  | .conditional branches (some body), hbranched =>
    rw [Stmt.lower]
    refine .bind (prints_lowerBranches branches hbranched.2.1) fun gs hgs =>
      .bind (prints_lowerBody body hbranched.2.2) fun ss hss => .pure ?_
    have hall := hgs.2.1.conditional (hgs.1 hbranched.1) (.some hss)
    rw [shown_append] at hall
    exact hall
  | .whileLoop condition body, hbody =>
    rw [Stmt.lower]
    refine .skip fun c => .bind (prints_lowerBody body hbody) fun ss hss => ?_
    exact .pure (hss.whileLoop c)
  | .forLoop h body, hbody =>
    rw [Stmt.lower]
    refine .skip fun index => .skip fun init => .skip fun test => .skip fun target =>
      .skip fun update => .bind (prints_lowerBody body hbody) fun ss hss => ?_
    exact .pure (hss.forLoop _ _ _ _ _)
  | .rangeLoop start stop body, hbody =>
    rw [Stmt.lower]
    refine .skip fun first => .skip fun last => .skip fun index =>
      .bind (prints_lowerBody body hbody) fun ss hss => ?_
    exact .pure (hss.forLoop _ _ _ _ _)
  | .switch scrutinee cases none, hbranched =>
    rw [Stmt.lower]
    refine .skip fun e => .bind (prints_lowerBranches cases hbranched.1) fun gs hgs => .pure ?_
    have hnone : DefaultPrints none (shown fun around n => otherwiseLandmarks around n none)
      (otherwiseHeaders none) := .none
    have hall := hgs.2.2.switch hnone
    rw [shown_switch] at hall
    exact (silent_evaluation scrutinee e).before hall
  | .switch scrutinee cases (some body), hbranched =>
    rw [Stmt.lower]
    refine .skip fun e => .bind (prints_lowerBranches cases hbranched.1) fun gs hgs =>
      .bind (prints_lowerBody body hbranched.2) fun ss hss => .pure ?_
    have hall := hgs.2.2.switch (.some hss)
    rw [shown_switch] at hall
    exact (silent_evaluation scrutinee e).before hall
  | .breakLoop, _ => exact .pure Script.bodyPrints_break
  | .continueLoop, _ => exact .pure Script.bodyPrints_continue
  | .returnValue none, _ => exact .pure (Script.silent_return none)
  | .returnValue (some e), _ =>
    rw [Stmt.lower]
    exact .skip fun e' => .pure (Script.silent_return (some e'))
  | .print e, _ =>
    rw [Stmt.lower]
    exact .skip fun e' => .pure (Script.silent_print e')
  | .block body, hbody =>
    rw [Stmt.lower]
    exact .bind (prints_lowerBody body hbody) fun ss hss => .pure hss.block

theorem prints_lowerBody (body : List Stmt) (h : BodyBranched body) :
    (lowerBody body).Always fun ss =>
      BodyPrints ss (shown fun around n => bodyLandmarks around n body) (bodyHeaders body) := by
  match body, h with
  | [], _ => exact .pure Script.Silent.nil
  | s :: ss, h =>
    rw [lowerBody]
    refine .bind (s.prints_lower h.1) fun first hfirst =>
      .bind (prints_lowerBody ss h.2) fun others hothers => .pure ?_
    have hall := hfirst.append hothers
    rw [shown_append] at hall
    exact hall

theorem prints_lowerMembers (body : List Stmt) (h : BodyBranched body) :
    (lowerMembers body).Always fun r =>
      BodyPrints r.1 (shown fun around n => bodyLandmarks around n body) (bodyHeaders body) := by
  match body, h with
  | [], _ => exact .pure Script.Silent.nil
  | s :: ss, h =>
    rw [lowerMembers]
    refine .skip fun names => .bind (s.prints_lower h.1) fun first hfirst =>
      .bind (prints_lowerMembers ss h.2) fun others hothers => .pure ?_
    have hall := hfirst.append hothers
    rw [shown_append] at hall
    exact hall

theorem prints_lowerBranches (gs : List (Guarded Stmt)) (h : BranchesBranched gs) :
    (lowerBranches gs).Always fun gs' => (gs ≠ [] → gs' ≠ []) ∧
      BranchesPrint gs' (shown fun around n => branchLandmarks [] around n gs) (branchHeaders gs) ∧
      CasesPrint gs' (shown fun around n => branchLandmarks [⟨false, ⟨.leave, around⟩⟩] around n gs)
        (branchHeaders gs) := by
  match gs, h with
  | [], _ => exact .pure ⟨fun hne => absurd rfl hne, .nil, .nil⟩
  | ⟨guard, body⟩ :: gs, h =>
    rw [lowerBranches]
    refine .skip fun g => .bind (prints_lowerBody body h.1) fun ss hss =>
      .bind (prints_lowerBranches gs h.2) fun gs' hgs' => .pure ⟨fun _ => nofun, ?_, ?_⟩
    · have hall : BranchesPrint (⟨g, ss⟩ :: gs') _ _ := .cons hss hgs'.2.1
      rw [shown_append] at hall
      exact hall
    · -- the break at the end of the case is a landmark of its own
      have hall : CasesPrint (⟨g, ss⟩ :: gs') _ _ := .cons hss hgs'.2.2
      rw [shown_case] at hall
      exact hall

end

/-! ## texts of scripts -/

variable {p q : Program}

theorem names_disjoint_jumpWords (h : analyse Scope.root p = .ok q) (width : Nat) :
    (namesOf (Script.bodyPieces width 0 (script q))).Disjoint jumpWords := by
  have hidentify := namesIdentify_script h width
  obtain ⟨order, _, _, hname⟩ := hidentify.numbers
  intro a ha hword
  rw [← map_fst_zip hidentify.length.le] at ha
  obtain ⟨⟨name, r⟩, hmem, rfl⟩ := mem_map.mp ha
  have hnameIn : nameIn order r = some name := hname _ hmem
  rcases nameIn_cases order r with ⟨t, rfl, ht⟩ | ⟨_, hgiven⟩
  · cases ht.symm.trans hnameIn
    obtain ⟨b, hb, rfl⟩ := hidentify.native name (of_mem_zip hmem).2
    have hnatives : ∀ s ∈ natives, s ∉ jumpWords := by decide
    exact hnatives _ (mem_natives hb) hword
  · obtain ⟨base, number, _, _, hmangled⟩ := mem_of_given (hgiven.symm.trans hnameIn)
    have hletters : ∀ w ∈ jumpWords, '_' ∉ w.toList := by decide
    have hunderscore := underscore_mem_mangled base number
    rw [← hmangled] at hunderscore
    exact hletters _ hword hunderscore

/-- the text of a script shows the landmarks of its program -/
theorem events_script (h : analyse Scope.root p = .ok q) (hq : BodyBranched q) :
    Script.events (Script.bodyLines 0 (script q)) = (programLandmarks q).map Landmark.event :=
  (prints_lowerBody q hq Names.initial 0 .start (names_disjoint_jumpWords h 0)).events

/-! ## trees with branches -/

variable {body : List Stmt}

theorem Hoisted.branched (h : Hoisted body c hoisted c') (hbody : BodyBranched body) :
    BodyBranched hoisted := by
  induction h with
  | nil => trivial
  | function _ _ _ _ ih | other _ _ ih => exact ⟨hbody.1, ih hbody.2⟩

mutual

theorem Stmt.Accepted.branched (h : Stmt.Accepted c s c' s') (hs : s.Branched) : s'.Branched := by
  match h with
  | .expression _ | .print _ | .declare _ _ _ | .assign _ _ _ | .breakLoop _ | .continueLoop _
  | .returnValue _ => trivial
  | .function _ _ _ _ hbody | .classDef _ hbody | .whileLoop _ hbody | .forLoop _ hbody =>
    exact hbody.branched hs
  | .conditional hbranches hotherwise =>
    obtain ⟨hne, hgs⟩ := hbranches.branched hs.2.1
    exact ⟨hne hs.1, hgs, hotherwise.branched hs.2.2⟩
  | .rangeLoop _ _ _ _ hbody | .block hbody => exact hbody.branched hs
  | .switch _ hcases hotherwise => exact ⟨(hcases.branched hs.1).2, hotherwise.branched hs.2⟩

theorem EachAccepted.branched (h : EachAccepted c ss c' ss') (hss : BodyBranched ss) : BodyBranched ss' := by
  match h with
  | .nil => trivial
  | .cons hs hrest => exact ⟨hs.branched hss.1, hrest.branched hss.2⟩

theorem BodyAccepted.branched {body body' : List Stmt} (h : BodyAccepted c body c' body')
    (hbody : BodyBranched body) : BodyBranched body' := by
  match h with
  | .intro hhoisted heach => exact heach.branched (hhoisted.branched hbody)

theorem BranchesAccepted.branched (h : BranchesAccepted c gs c' gs') (hgs : BranchesBranched gs) :
    (gs ≠ [] → gs' ≠ []) ∧ BranchesBranched gs' := by
  match h with
  | .nil => exact ⟨id, trivial⟩
  | .cons _ hbody hrest => exact ⟨fun _ => nofun, hbody.branched hgs.1, (hrest.branched hgs.2).2⟩

theorem OtherwiseAccepted.branched (h : OtherwiseAccepted c o c' o') (ho : OtherwiseBranched o) :
    OtherwiseBranched o' := by
  match h with
  | .none => trivial
  | .some hbody => exact hbody.branched ho

end

theorem bodyBranched_of_forall (h : ∀ s ∈ body, s.Branched) : BodyBranched body := by
  induction body with
  | nil => trivial
  | cons s ss ih =>
    exact ⟨h s mem_cons_self, ih fun s' hs' => h s' (mem_cons_of_mem s hs')⟩

theorem branchesBranched_of_forall (h : ∀ b ∈ gs, ∀ s ∈ b.body, s.Branched) : BranchesBranched gs := by
  induction gs with
  | nil => trivial
  | cons b gs ih =>
    exact ⟨bodyBranched_of_forall (h b mem_cons_self),
      ih fun b' hb' => h b' (mem_cons_of_mem b hb')⟩

theorem otherwiseBranched_of_forall (h : ∀ body ∈ o, ∀ s ∈ body, s.Branched) : OtherwiseBranched o := by
  cases o with
  | none => trivial
  | some body => exact bodyBranched_of_forall (h body rfl)

theorem Stmt.WellFormed.branched {s : Stmt} (h : s.WellFormed) : s.Branched := by
  induction h with
  | function _ _ ih | classDef _ _ ih | whileLoop _ _ ih | forLoop _ _ ih | rangeLoop _ _ _ ih =>
    exact bodyBranched_of_forall ih
  | conditional hne _ _ _ ihbranches ihotherwise =>
    exact ⟨hne, branchesBranched_of_forall ihbranches, otherwiseBranched_of_forall ihotherwise⟩
  | switch _ _ _ _ ihcases ihotherwise =>
    exact ⟨branchesBranched_of_forall ihcases, otherwiseBranched_of_forall ihotherwise⟩
  | block _ ih => exact bodyBranched_of_forall ih
  | _ => trivial

/-- every conditional that is read has a branch -/
theorem bodyBranched_of_parse (hscan : scan source file = .ok ts) (hparse : parse ts file' = .ok p) :
    BodyBranched p :=
  bodyBranched_of_forall fun s hs => (wellFormed_of_parse (scanned_of_scan hscan) hparse s hs).branched

/-! ## legal jumps -/

variable {around : List Block}

/-- the jumps that are written have a loop around them, with no function between -/
def Landmark.Legal (m : Landmark) : Prop :=
  m.written = true → m.event.sign.isJump = true → ∃ n, Script.home? m.event.around = some (.loop n)

/-- a place whose scope is `inside` a loop has one around it, with only switches between -/
def HasLoop (inside : Bool) (around : List Block) : Prop :=
  inside = true → ∃ n, Script.home? around = some (.loop n)

theorem legal_header {b : Block} {ms : List Landmark} (h : ∀ m ∈ ms, m.Legal) :
    ∀ m ∈ ⟨true, ⟨.header b, around⟩⟩ :: ms, m.Legal := forall_mem_cons.mpr ⟨fun _ => nofun, h⟩

theorem HasLoop.switch {inside : Bool} (h : HasLoop inside around) (n : Nat) :
    HasLoop inside (.switch n :: around) := h

theorem hasLoop_loop (inside : Bool) (n : Nat) (around : List Block) :
    HasLoop inside (.loop n :: around) := fun _ => ⟨n, rfl⟩

theorem Scope.Gains.hasLoop {s s' : Scope} (h : s.Gains names classes Δ s')
    (hloop : HasLoop s.frame.insideLoop around) : HasLoop s'.frame.insideLoop around := h.around.2.1 ▸ hloop

mutual

theorem Stmt.Accepted.legal {c c' : Context} {s s' : Stmt} (h : Stmt.Accepted c s c' s')
    {around : List Block} (n : Nat) (hloop : HasLoop c.scope.frame.insideLoop around) :
    ∀ m ∈ s'.landmarks around n, m.Legal := by
  match h with
  | .function _ _ _ hps hbody =>
    -- a loop around the function does not count in its body
    have houtside : HasLoop false (.function :: around) := nofun
    exact hbody.legal n (hps.gains.hasLoop houtside)
  | .classDef hhead hbody => exact hbody.legal n (hhead.gains.hasLoop hloop)
  | .conditional hbranches hotherwise =>
    have hending : ∀ m ∈ ([] : List Landmark), m.Legal := nofun
    have hloop₁ := hbranches.scope_eq ▸ hloop
    exact forall_mem_append.mpr ⟨hbranches.legal hending n hloop, hotherwise.legal _ hloop₁⟩
  | .whileLoop _ hbody | .forLoop _ hbody =>
    exact legal_header (hbody.legal (n + 1) (hasLoop_loop _ n around))
  | .rangeLoop _ _ _ _ hbody => exact legal_header (hbody.legal (n + 1) (hasLoop_loop _ n around))
  | .switch _ hcases hotherwise =>
    have hending : ∀ m ∈ [(⟨false, ⟨.leave, .switch n :: around⟩⟩ : Landmark)], m.Legal := by
      intro m hm hwritten
      rw [mem_singleton.mp hm] at hwritten
      exact nomatch hwritten
    have hlegal := hcases.legal hending (n + 1) (hloop.switch n)
    have hloop₁ := hcases.scope_eq ▸ hloop.switch n
    exact legal_header (forall_mem_append.mpr ⟨hlegal, hotherwise.legal _ hloop₁⟩)
  | .breakLoop hinside | .continueLoop hinside =>
    intro m hm _ _
    rw [mem_singleton.mp hm]
    exact hloop hinside
  | .block hbody => exact hbody.legal n hloop
  | .expression _ | .print _ | .declare _ _ _ | .assign _ _ _ | .returnValue _ => exact nofun

theorem EachAccepted.legal (h : EachAccepted c ss c' ss') {around : List Block} (n : Nat)
    (hloop : HasLoop c.scope.frame.insideLoop around) : ∀ m ∈ bodyLandmarks around n ss', m.Legal := by
  match h with
  | .nil => exact nofun
  | .cons hs hss =>
    exact forall_mem_append.mpr ⟨hs.legal n hloop, hss.legal _ (hs.gains.hasLoop hloop)⟩

theorem BodyAccepted.legal {body body' : List Stmt} (h : BodyAccepted c body c' body') {around : List Block}
    (n : Nat) (hloop : HasLoop c.scope.frame.insideLoop around) :
    ∀ m ∈ bodyLandmarks around n body', m.Legal := by
  match h with
  | .intro hhoisted heach => exact heach.legal n (hhoisted.gains.1.hasLoop hloop)

theorem BranchesAccepted.legal (h : BranchesAccepted c gs c' gs') (hending : ∀ m ∈ ending, m.Legal)
    {around : List Block} (n : Nat) (hloop : HasLoop c.scope.frame.insideLoop around) :
    ∀ m ∈ branchLandmarks ending around n gs', m.Legal := by
  match h with
  | .nil => exact nofun
  | .cons _ hbody hgs =>
    refine forall_mem_append.mpr ⟨hbody.legal n hloop, ?_⟩
    exact forall_mem_append.mpr ⟨hending, hgs.legal hending _ hloop⟩

theorem OtherwiseAccepted.legal (h : OtherwiseAccepted c o c' o') {around : List Block} (n : Nat)
    (hloop : HasLoop c.scope.frame.insideLoop around) : ∀ m ∈ otherwiseLandmarks around n o', m.Legal := by
  match h with
  | .none => exact nofun
  | .some hbody => exact hbody.legal n hloop

end

theorem legal_of_analyse (h : analyse Scope.root p = .ok q) : ∀ m ∈ programLandmarks q, m.Legal := by
  obtain ⟨c, hbody⟩ := accepted_of_analyse h
  have houtside : HasLoop Scope.root.frame.insideLoop [] := nofun
  exact hbody.legal 0 houtside

/-- The jumps of a compiled program whose conditionals have a branch, as every program that is read.
Line by line, the output shows the loops, the switches and the jumps of the program in their order, with
the same blocks around each, and a break at the end of each case.  A jump that is written has a loop
around it; it acts on that loop if and only if it is no `break` or no switch stands between them. -/
theorem compile_jumps_to_loop_iff {p q : Program} {options : Options} {text : String} (hp : BodyBranched p)
    (h : analyse Scope.root p = .ok q) (hcompile : compile options q = .ok text) :
    let lines := Script.bodyLines 0 (script q)
    text = Script.layout options.indent lines ∧
      Script.events lines = (programLandmarks q).map Landmark.event ∧
      ∀ m ∈ programLandmarks q, m.written = true → m.event.sign.isJump = true →
        ∃ n, Script.home? m.event.around = some (.loop n) ∧
          (m.event.target? = some (.loop n) ↔
            (m.event.sign = .leave → Script.switches m.event.around = [])) := by
  intro lines
  obtain ⟨c, hbody⟩ := accepted_of_analyse h
  refine ⟨scriptText_of_compile hcompile, events_script h (hbody.branched hp), ?_⟩
  intro m hm hwritten hjump
  obtain ⟨n, hn⟩ := legal_of_analyse h m hm hwritten hjump
  exact ⟨n, hn, Script.Event.target?_eq_iff hjump hn⟩

/-- `while true { if true { break; } switch (1) { case true: continue; } }` -/
theorem compile_jumps_to_loop_iff_guarded : let yes := fun t => Expr.literal (.boolean true) t
    let one := fun t => Expr.literal (.integer 1) t
    let program := fun t u =>
      [Stmt.whileLoop (yes t) [.conditional [⟨yes t, [.breakLoop]⟩] none,
        .switch (one u) [⟨yes t, [.continueLoop]⟩] none]]
    let p : Program := program none none
    let q : Program := program (some .bool) (some .int)
    let lines := Script.bodyLines 0 (script q)
    BodyBranched p ∧ analyse Scope.root p = .ok q ∧
      compile Options.standard q = .ok (Script.layout Options.standard.indent lines) ∧
      Script.events lines = (programLandmarks q).map Landmark.event ∧
      ∀ m ∈ programLandmarks q, m.written = true → m.event.sign.isJump = true →
        ∃ n, Script.home? m.event.around = some (.loop n) ∧
          (m.event.target? = some (.loop n) ↔
            (m.event.sign = .leave → Script.switches m.event.around = [])) := by
  intro yes one program p q lines
  have hp : BodyBranched p := by
    simp [p, program, BodyBranched, Stmt.Branched, BranchesBranched, OtherwiseBranched]
  have h : analyse Scope.root p = .ok q := by cbv
  have hcompile : compile Options.standard q
    = .ok (Script.layout Options.standard.indent lines) := rfl
  exact ⟨hp, h, hcompile, (compile_jumps_to_loop_iff hp h hcompile).2⟩

/-- `while true { switch (1) { case true: break; } }`: the break leaves the switch and not the loop -/
theorem compile_break_leaves_switch : let yes := fun t => Expr.literal (.boolean true) t
    let one := fun t => Expr.literal (.integer 1) t
    let program := fun t u =>
      [Stmt.whileLoop (yes t) [.switch (one u) [⟨yes t, [.breakLoop]⟩] none]]
    let p : Program := program none none
    let q : Program := program (some .bool) (some .int)
    let text := "while (true) \x7b\n    switch (true) \x7b\n        case true:\n" ++
      "            break;\n            break;\n    \x7d\n\x7d\n"
    let e : Event := ⟨.leave, [.switch 1, .loop 0]⟩
    analyse Scope.root p = .ok q ∧ compile Options.standard q = .ok text ∧
      Script.events (Script.bodyLines 0 (script q))
        = [⟨.header (.loop 0), []⟩, ⟨.header (.switch 1), [.loop 0]⟩, e, e] ∧
      ⟨true, e⟩ ∈ programLandmarks q ∧ Script.home? e.around = some (.loop 0) ∧
      e.target? = some (.switch 1) := by
  intro yes one program p q text e
  have h : analyse Scope.root p = .ok q := by cbv
  have hcompile : compile Options.standard q = .ok text := by with_unfolding_all rfl
  refine ⟨h, hcompile, ?_, ?_, rfl, rfl⟩
  · with_unfolding_all rfl
  · exact mem_of_getElem? (i := 2) rfl

end TypedScript
