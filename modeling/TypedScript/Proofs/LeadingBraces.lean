import TypedScript.Proofs.OutputScopes

/-!
# Lines that start with a curly bracket

The target language reads a line that starts with `{` as a block.  Lines that start with an expression
are printed for expression statements, for assignments and for what a switch switches on; the first
character of such a line is that of the operand at its left end, below all members, subscripts and calls.
Parentheses of the source are not printed, so that operand may be a dict, and then the line is misread.
-/

namespace TypedScript

open Script (Line IsWord)
open List

/-! ## left ends -/

/-- the operand with which the text of an expression starts -/
def Expr.leading : Expr → Expr
  | .call callee _ false false _ => callee.leading
  | .subscript base _ _ => base.leading
  | .member object _ _ => object.leading
  | e => e

def Expr.isDict : Expr → Bool
  | .dict _ _ => true
  | _ => false

/-- a line that starts with an expression: a value that is computed, or targets that take values -/
inductive Lead where
  | value (e : Expr)
  | assignment (targets values : List Expr)

namespace Lead

/-- the expression at the start of the line; several targets or values stand in brackets -/
def first? : Lead → Option Expr
  | .value e => some e
  | .assignment [target] [_] => some target
  | .assignment _ _ => none

def startsWithDict (x : Lead) : Bool := x.first?.any fun e => e.leading.isDict

def text (ν : DeclId → String) : Lead → String
  | .value e => (e.named ν).text ++ ";"
  | .assignment targets values => Script.destructure ((Expr.allNamed ν targets).map Script.Expr.text)
      ((Expr.allNamed ν values).map Script.Expr.text) ++ ";"

end Lead

mutual

/-- the lines of a statement that start with an expression, at any depth; a literal or a name that a
switch switches on is not printed -/
def Stmt.leads : Stmt → List Lead
  | .expression e => [.value e]
  | .assign targets values => [.assignment targets values]
  | .function _ body | .classDef _ body | .block body => bodyLeads body
  | .conditional branches otherwise => branchLeads branches ++ otherwiseLeads otherwise
  | .whileLoop _ body | .forLoop _ body | .rangeLoop _ _ body => bodyLeads body
  | .switch scrutinee cases otherwise => (if scrutinee.isAtom then [] else [.value scrutinee]) ++
      (branchLeads cases ++ otherwiseLeads otherwise)
  | .declare _ _ _ | .breakLoop | .continueLoop | .returnValue _ | .print _ => []

def bodyLeads : List Stmt → List Lead
  | [] => []
  | s :: ss => s.leads ++ bodyLeads ss

def branchLeads : List (Guarded Stmt) → List Lead
  | [] => []
  | ⟨_, body⟩ :: gs => bodyLeads body ++ branchLeads gs

def otherwiseLeads : Option (List Stmt) → List Lead
  | none => []
  | some body => bodyLeads body

end

/-! ## first characters -/

variable {ν : DeclId → String}
variable {t : String} {b : Bool}

def startsWithBrace (text : String) : Bool := text.toList.head? == some '\x7b'

/-- a text with a first character, which is a curly bracket or not -/
def Opens (brace : Bool) (t : String) : Prop := ∃ c, t.toList.head? = some c ∧ (c == '\x7b') = brace

theorem Opens.startsWithBrace (h : Opens b t) : startsWithBrace t = b := by
  obtain ⟨c, hc, rfl⟩ := h
  unfold TypedScript.startsWithBrace
  rw [hc]
  rfl

theorem Opens.append (h : Opens b t) (u : String) : Opens b (t ++ u) := by
  obtain ⟨c, hc, hb⟩ := h
  refine ⟨c, ?_, hb⟩
  rw [String.toList_append, List.head?_append, hc]
  rfl

theorem opens_word (h : IsWord x) : Opens false x := by
  obtain ⟨c, cs, hlist⟩ := exists_cons_of_ne_nil h.nonempty
  refine ⟨c, by rw [hlist]; rfl, ?_⟩
  have hpart : Text.isWordPart c = true := h.parts c (hlist ▸ mem_cons_self)
  refine beq_false_of_ne ?_
  rintro rfl
  exact absurd hpart (by decide)

theorem opens_literal (h : Script.Literal.Legible v) : Opens false (Script.literalText v) := by
  cases v with
  | integer n =>
    cases n with
    | ofNat m => exact opens_word (Script.isWord_toString m)
    | negSucc m => exact Opens.append ⟨'-', rfl, rfl⟩ (toString (m + 1))
  | long digits => exact opens_word (Script.isWord_long h)
  | string s =>
    refine ⟨'"', ?_, rfl⟩
    rw [Script.literalText, Script.stringLiteral, String.toList_ofList]
    rfl
  | boolean b => cases b <;> exact ⟨_, rfl, rfl⟩
  | null => exact ⟨_, rfl, rfl⟩

theorem Expr.opens_named (e : Expr) (h : (e.named ν).Legible) : Opens e.leading.isDict (e.named ν).text := by
  fun_induction Expr.leading e with
  | case1 callee arguments t ih | case2 base index t ih => exact (((ih h.1).append _).append _).append _
  | case3 object x t ih => exact ((ih h.1).append _).append _
  | case4 e hcall hsubscript hmember =>
    cases e with
    | literal v t => exact opens_literal h
    | name x t => exact opens_word h.word
    | binary op left right t =>
      rw [Expr.named]
      split
      · exact ⟨'M', by simp [Script.Expr.text], rfl⟩
      · exact ⟨'(', by simp [Script.Expr.text], rfl⟩
    | unary op operand t =>
      rw [Expr.named]
      split <;> exact ⟨'(', by simp [Script.Expr.text], rfl⟩
    | call callee arguments awaited constructs t =>
      cases awaited with
      | true => exact ⟨'(', by simp [Expr.named, Script.Expr.applied, Script.Expr.text], rfl⟩
      | false =>
        cases constructs with
        | true => exact ⟨'n', by simp [Expr.named, Script.Expr.applied, Script.Expr.text], rfl⟩
        | false => exact (hcall callee arguments t rfl).elim
    | subscript base index t => exact (hsubscript base index t rfl).elim
    | member object x t => exact (hmember object x t rfl).elim
    | collection form elements t =>
      cases form with
      | array | tuple => exact ⟨'[', by simp [Expr.named, Script.Expr.text], rfl⟩
      | set => exact ⟨'n', by simp [Expr.named, Script.Expr.text], rfl⟩
    | dict entries t =>
      rw [Expr.named]
      cases Expr.entriesNamed ν entries with
      | nil => exact ⟨'\x7b', rfl, rfl⟩
      | cons entry entries => exact ⟨'\x7b', by simp [Script.Expr.text], rfl⟩

/-- the target of an assignment stands at the start of the line if it is the only one, and takes the only
value -/
theorem opens_assignment (h : Script.Expr.AllLegible (Expr.allNamed ν targets)) :
    Opens (Lead.assignment targets values).startsWithDict ((Lead.assignment targets values).text ν) := by
  unfold Lead.text
  refine Opens.append ?_ _
  match targets, values with
  | [target], [value] => exact ((target.opens_named h.1).append _).append _
  | [], _ | [_], [] | [_], _ :: _ :: _ | _ :: _ :: _, _ =>
    exact ⟨'[', by simp [Expr.allNamed, Script.destructure], rfl⟩

/-! ## lines -/

/-- Lines, and the expressions with which some of them start.  Such a line starts with a curly bracket if
and only if its expression starts with a dict; any other one that does opens a block. -/
inductive Shown (ν : DeclId → String) : List Line → List Lead → Prop
  | nil : Shown ν [] []
  | lead {d : Nat} {x : Lead} {ls : List Line} {xs : List Lead} :
    startsWithBrace (x.text ν) = x.startsWithDict → Shown ν ls xs →
    Shown ν (⟨d, x.text ν⟩ :: ls) (x :: xs)
  | other {l : Line} {ls : List Line} {xs : List Lead} :
    (startsWithBrace l.text = true → l.text = "\x7b") → Shown ν ls xs → Shown ν (l :: ls) xs

namespace Shown

variable {ls ms : List Line} {xs ys : List Lead}
variable {d : Nat}

theorem append (h : Shown ν ls xs) (h' : Shown ν ms ys) : Shown ν (ls ++ ms) (xs ++ ys) := by
  induction h with
  | nil => exact h'
  | lead hx _ ih => exact .lead hx ih
  | other hl _ ih => exact .other hl ih

theorem plain (ht : Opens false t) (h : Shown ν ls xs) : Shown ν (⟨d, t⟩ :: ls) xs :=
  .other (fun hbrace => absurd (ht.startsWithBrace.symm.trans hbrace) Bool.false_ne_true) h

theorem closed (h : Shown ν ls xs) : Shown ν (ls ++ [⟨d, "\x7d"⟩]) xs := by
  have hclosing : Shown ν [⟨d, "\x7d"⟩] [] := .plain ⟨'\x7d', rfl, rfl⟩ .nil
  have hall := h.append hclosing
  rw [append_nil] at hall
  exact hall

theorem block {d' : Nat} (ht : Opens false t) (h : Shown ν ls xs) :
    Shown ν (⟨d, t⟩ :: (ls ++ [⟨d', "\x7d"⟩])) xs :=
  .plain ht h.closed

end Shown

theorem opens_functionHeader (async : Bool) (name : String) (params : List Script.Param) :
    Opens false (Script.functionHeader async name params) := by
  cases async with
  | false => exact ⟨'f', by simp [Script.functionHeader], rfl⟩
  | true => exact ⟨'a', by simp [Script.functionHeader], rfl⟩

theorem opens_forHeader (index : String) (init test : Script.Expr) (target : String)
    (update : Update Script.Expr) : Opens false (Script.forHeader index init test target update) := by
  have hstart : Opens false "for (let " := ⟨'f', rfl, rfl⟩
  exact (((((((hstart.append _).append _).append _).append _).append _).append _).append _).append _

theorem opens_declaration (constant : Bool) (names values : List String) :
    Opens false (Script.declarationText constant names values) := by
  unfold Script.declarationText
  cases constant with
  | false => exact Opens.append (Opens.append ⟨'l', rfl, rfl⟩ _) _
  | true => exact Opens.append (Opens.append ⟨'c', rfl, rfl⟩ _) _

theorem Shown.one {s : Script.Stmt} (h : Shown ν (s.lines d) xs) : Shown ν (Script.bodyLines d [s]) xs := by
  rw [Script.bodyLines, Script.bodyLines, append_nil]
  exact h

theorem shown_value {e : Expr} (h : (e.named ν).Legible) (d : Nat) :
    Shown ν [⟨d, (Lead.value e).text ν⟩] [.value e] :=
  .lead (((e.opens_named h).append _).startsWithBrace) .nil

theorem shown_return (value : Option Script.Expr) (d : Nat) :
    Shown ν (Script.Stmt.lines d (.returnValue value)) [] := by
  cases value with
  | none => exact .plain ⟨'r', rfl, rfl⟩ .nil
  | some e => exact .plain (Opens.append (Opens.append ⟨'r', rfl, rfl⟩ _) _) .nil

theorem shown_evaluation (h : Script.BodyLegible (Stmt.lower.evaluation scrutinee (scrutinee.named ν)))
    (d : Nat) :
    Shown ν (Script.bodyLines d (Stmt.lower.evaluation scrutinee (scrutinee.named ν)))
      (if scrutinee.isAtom then [] else [.value scrutinee]) := by
  unfold Stmt.lower.evaluation at h ⊢
  split
  · exact .nil
  · next hatom =>
    rw [if_neg hatom] at h
    exact .one (shown_value h.1 d)

theorem shown_members {h : ClassHead} (hlegible : Script.BodyLegible (h.members ν body)) (d : Nat) :
    Shown ν (Script.bodyLines d (h.members ν body)) [] := by
  have hname : Opens false (h.label ν) := opens_word hlegible.1.1.word
  have hfields : ∀ fields : List String, Shown ν
      (fields.map fun f => (⟨d + 1, "this." ++ f ++ " = " ++ f ++ ";"⟩ : Line)) [] := by
    intro fields
    induction fields with
    | nil => exact .nil
    | cons f fields ih => exact .plain ⟨'t', by simp, rfl⟩ ih
  have hmethods : ∀ methods : List String,
      Shown ν (Script.bodyLines d (methods.map (.attach (h.label ν)))) [] := by
    intro methods
    induction methods with
    | nil => exact .nil
    | cons m methods ih =>
      refine .plain ?_ ih
      exact ((((hname.append _).append _).append _).append _).append _
  exact (Shown.block (opens_functionHeader _ _ _) (hfields _)).append (hmethods _)

mutual

theorem Stmt.Lowers.shown {s : Stmt} (h : s.Lowers ν ss) (hlegible : Script.BodyLegible ss) (d : Nat) :
    Shown ν (Script.bodyLines d ss) s.leads := by
  match h with
  | .expression => exact .one (shown_value hlegible.1 d)
  | .declare => exact .one (.plain (opens_declaration _ _ _) .nil)
  | .assign => exact .one (.lead (opens_assignment hlegible.1.1).startsWithBrace .nil)
  | .function hbody =>
    exact .one (.block (opens_functionHeader _ _ _) (hbody.shown hlegible.1.2.2 (d + 1)))
  | .classDef hbody =>
    obtain ⟨hlegible, hmembers⟩ := bodyLegible_split hlegible
    have hall := (hbody.shown hlegible d).append (shown_members hmembers d)
    rw [append_nil, ← Script.bodyLines_append] at hall
    exact hall
  | .conditional hgs ho =>
    obtain ⟨⟨_, hgsLegible, hoLegible⟩, _⟩ := hlegible
    exact .one (.closed ((hgs.shown_branches hgsLegible d ⟨'i', rfl, rfl⟩).append (ho.shown hoLegible d)))
  | .whileLoop hbody =>
    exact .one (.block (Opens.append (Opens.append ⟨'w', rfl, rfl⟩ _) _)
      (hbody.shown hlegible.1.2 (d + 1)))
  | .forLoop hbody | .rangeLoop _ hbody =>
    obtain ⟨⟨_, _, _, _, _, hlegible⟩, _⟩ := hlegible
    exact .one (.block (opens_forHeader _ _ _ _ _) (hbody.shown hlegible (d + 1)))
  | .switch hgs ho =>
    obtain ⟨hevaluation, ⟨hgsLegible, hoLegible⟩, _⟩ := bodyLegible_split hlegible
    rw [Script.bodyLines_append]
    exact (shown_evaluation hevaluation d).append (.one (.block ⟨'s', rfl, rfl⟩
      ((hgs.shown_cases hgsLegible (d + 1)).append (ho.shown_default hoLegible (d + 1)))))
  | .breakLoop | .continueLoop => exact .one (.plain ⟨_, rfl, rfl⟩ .nil)
  | .returnValue => exact .one (shown_return _ d)
  | .print => exact .one (.plain (Opens.append (Opens.append ⟨'c', rfl, rfl⟩ _) _) .nil)
  | .block hbody => exact .one (.other (fun _ => rfl) (hbody.shown hlegible.1 (d + 1)).closed)

theorem BodyLowers.shown (h : BodyLowers ν body ss) (hlegible : Script.BodyLegible ss) (d : Nat) :
    Shown ν (Script.bodyLines d ss) (bodyLeads body) := by
  match h with
  | .nil => exact .nil
  | .cons hs hbody =>
    obtain ⟨hsLegible, hbodyLegible⟩ := bodyLegible_split hlegible
    rw [Script.bodyLines_append]
    exact (hs.shown hsLegible d).append (hbody.shown hbodyLegible d)

theorem BranchesLower.shown_branches {branches : List (Script.Guarded Script.Stmt)}
    (h : BranchesLower ν gs branches) (hlegible : Script.BranchesLegible branches) (d : Nat)
    (hopening : Opens false opening) : Shown ν (Script.branchLines d opening branches) (branchLeads gs) := by
  match h with
  | .nil => exact .nil
  | .cons hbody hgs =>
    obtain ⟨_, hbodyLegible, hgsLegible⟩ := hlegible
    exact .plain ((hopening.append _).append _) ((hbody.shown hbodyLegible (d + 1)).append
      (hgs.shown_branches hgsLegible d ⟨'\x7d', rfl, rfl⟩))

theorem OtherwiseLowers.shown (h : OtherwiseLowers ν o otherwise)
    (hlegible : Script.OtherwiseLegible otherwise) (d : Nat) :
    Shown ν (Script.otherwiseLines d otherwise) (otherwiseLeads o) := by
  match h with
  | .none => exact .nil
  | .some hbody => exact .plain ⟨'\x7d', rfl, rfl⟩ (hbody.shown hlegible (d + 1))

theorem BranchesLower.shown_cases (h : BranchesLower ν gs cases) (hlegible : Script.BranchesLegible cases)
    (d : Nat) : Shown ν (Script.caseLines d cases) (branchLeads gs) := by
  match h with
  | .nil => exact .nil
  | .cons hbody hgs =>
    obtain ⟨_, hbodyLegible, hgsLegible⟩ := hlegible
    exact .plain (Opens.append (Opens.append ⟨'c', rfl, rfl⟩ _) _)
      ((hbody.shown hbodyLegible (d + 1)).append (.plain ⟨'b', rfl, rfl⟩ (hgs.shown_cases hgsLegible d)))

theorem OtherwiseLowers.shown_default (h : OtherwiseLowers ν o otherwise)
    (hlegible : Script.OtherwiseLegible otherwise) (d : Nat) :
    Shown ν (Script.defaultLines d otherwise) (otherwiseLeads o) := by
  match h with
  | .none => exact .nil
  | .some hbody => exact .plain ⟨'d', rfl, rfl⟩ (hbody.shown hlegible (d + 1))

end

/-! ## compiled programs -/

theorem Lead.text_ne_brace (x : Lead) : x.text ν ≠ "\x7b" := by
  have hend : ∃ t : String, x.text ν = t ++ ";" := by
    cases x with
    | value e | assignment targets values => exact ⟨_, rfl⟩
  obtain ⟨t, ht⟩ := hend
  intro hbrace
  have hlast := congrArg (fun u : String => u.toList.getLast?) (ht.symm.trans hbrace)
  rw [String.toList_append, List.getLast?_append] at hlast
  have hchars : some ';' = some '\x7b' := hlast
  exact absurd hchars (by decide)

theorem Shown.only_blocks_iff (h : Shown ν ls xs) :
    (∀ l ∈ ls, startsWithBrace l.text = true → l.text = "\x7b") ↔ ∀ x ∈ xs, x.startsWithDict = false := by
  induction h with
  | nil => exact iff_of_true nofun nofun
  | @lead d x ls xs hx _ ih =>
    rw [forall_mem_cons, forall_mem_cons]
    refine and_congr ⟨fun hblock => ?_, fun hdict hbrace => ?_⟩ ih
    · exact Bool.of_not_eq_true fun hdict => x.text_ne_brace (hblock (hx.trans hdict))
    · rw [hx, hdict] at hbrace
      cases hbrace
  | other hl _ ih =>
    rw [forall_mem_cons]
    exact (and_iff_right hl).trans ih

/-- The lines of a compiled program that start with an expression, in order, and with a curly bracket where
the left end of that expression is a dict.  So the lines that start with one are those that open a block,
and no others, if and only if no left end is a dict. -/
theorem compile_starts_with_brace_iff {p q : Program} {options : Options} {text : String}
    (hp : p.WellFormed) (h : analyse Scope.root p = .ok q) (hcompile : compile options q = .ok text) :
    let lines := Script.bodyLines 0 (script q)
    text = Script.layout options.indent lines ∧ (∃ ν, Shown ν lines (bodyLeads q)) ∧
      ((∀ l ∈ lines, startsWithBrace l.text = true → l.text = "\x7b") ↔
        ∀ x ∈ bodyLeads q, x.startsWithDict = false) := by
  obtain ⟨ν, hlowers, hlegible⟩ := exists_naming hp h
  have hshown := hlowers.shown hlegible 0
  exact ⟨scriptText_of_compile hcompile, ⟨ν, hshown⟩, hshown.only_blocks_iff⟩

/-- five lines start with an expression, the last of them with a curly bracket -/
theorem compile_starts_with_brace_iff_targets :
    let source := "let d = \x7b1: 2\x7d; d[1] = 3; \x7b d[1] + 1; \x7d (\x7b1: 2\x7d)[1], d[1] = 4, 5; " ++
      "switch (d[1]) \x7b case d[1] == 1: (\x7b1: 2\x7d)[1] = 4; \x7d"
    let text := "let d_1 = \x7b 1: 2 \x7d;\nd_1[1] = 3;\n\x7b\n    (d_1[1] + 1);\n\x7d\n" ++
      "[\x7b 1: 2 \x7d[1], d_1[1]] = [4, 5];\nd_1[1];\nswitch (true) \x7b\n" ++
      "    case (d_1[1] === 1):\n        \x7b 1: 2 \x7d[1] = 4;\n        break;\n\x7d\n"
    ∃ q, analyseSource Scope.root source "" = .ok q ∧ compile Options.standard q = .ok text ∧
      (bodyLeads q).map Lead.startsWithDict = [false, false, false, false, true] ∧
      ¬ ∀ l ∈ Script.bodyLines 0 (script q), startsWithBrace l.text = true → l.text = "\x7b" := by
  intro source text
  have h : compileSource Scope.root source "" Options.standard = .ok text :=
    eq_ok_of_toOption (by decide +kernel)
  obtain ⟨q, hanalysed, hcompile⟩ := compileSource_eq_ok h
  obtain ⟨p, hp, hanalyse⟩ := analyseSource_eq_ok hanalysed
  obtain ⟨-, -, hiff⟩ := compile_starts_with_brace_iff hp hanalyse hcompile
  have hleads : (analyseSource Scope.root source "").toOption.map
      (fun q => (bodyLeads q).map Lead.startsWithDict) = some [false, false, false, false, true] := by
    decide +kernel
  rw [hanalysed] at hleads
  have hdicts : (bodyLeads q).map Lead.startsWithDict = [false, false, false, false, true] :=
    Option.some.inj hleads
  refine ⟨q, hanalysed, hcompile, hdicts, fun hall => ?_⟩
  have hnone : ∀ b ∈ (bodyLeads q).map Lead.startsWithDict, b = false :=
    forall_mem_map.mpr (hiff.mp hall)
  rw [hdicts] at hnone
  exact absurd (hnone true (by decide)) (by decide)

/-- The subscript of a dict is printed as the start of a block, in which `1: 2` cannot stand. -/
theorem compile_subscript_of_dict_starts_with_brace :
    compileSource Scope.root "(\x7b1: 2\x7d)[1];" "" Options.standard = .ok "\x7b 1: 2 \x7d[1];\n" ∧
      (analyseSource Scope.root "(\x7b1: 2\x7d)[1];" "").toOption.map
        (fun q => Script.bodyLines 0 (script q)) = some [⟨0, "\x7b 1: 2 \x7d[1];"⟩] ∧
      startsWithBrace "\x7b 1: 2 \x7d[1];" = true :=
  ⟨eq_ok_of_toOption (by decide +kernel), by decide +kernel, by decide⟩

end TypedScript
