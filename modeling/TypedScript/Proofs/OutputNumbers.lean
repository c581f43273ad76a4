import TypedScript.Proofs.OutputScopes

/-!
# Numbers in the output

The words of a script that start with a digit are the numbers of its program: integers in their canonical
decimal form, longs as they are written in the source.  They stand in the order of the source, but for two
exceptions: the defaults of a class's parameters come behind its body, and a number that a switch switches
on is not printed.
-/

namespace TypedScript

open List

/-- a number as it is printed, without its sign -/
def Literal.word? : Literal → Option String
  | .integer n => some (toString n.natAbs)
  | .long digits => some (digits ++ "n")
  | _ => none

/-! ## nodes -/

namespace Script

def Atom.number? : Atom → Option String
  | .word w => if isNumber w then some w else none
  | _ => none

def numbers (text : String) : List String := (atoms text).filterMap Atom.number?

def Shows (ns : List Node) (vs : List Literal) : Prop :=
  (wordsOf ns).filter isNumber = vs.filterMap Literal.word?

namespace Shows

variable {ns ms : List Node} {vs ws : List Literal}

theorem nil : Shows [] [] := rfl

theorem append (h : Shows ns vs) (h' : Shows ms ws) : Shows (ns ++ ms) (vs ++ ws) := by
  unfold Shows at *
  rw [wordsOf_append, filter_append, filterMap_append, h, h']

theorem mark (h : Shows ns vs) (c : Char) : Shows (.mark c :: ns) vs := h

theorem word (hw : isNumber w = false) (h : Shows ns vs) : Shows (.word w :: ns) vs :=
  (filter_cons_of_neg (by rw [hw]; exact Bool.false_ne_true)).trans h

theorem group (h : Shows ms ws) (h' : Shows ns vs) (b : Bracket) : Shows (.group b ms :: ns) (ws ++ vs) := by
  unfold Shows at *
  rw [wordsOf, Node.words, filter_append, filterMap_append, h, h']

theorem last (h : Shows ms ws) (b : Bracket) : Shows [.group b ms] ws := by
  have hall := h.group nil b
  rwa [append_nil] at hall

end Shows

theorem shows_markNodes (text : String) : Shows (markNodes text) [] := by
  unfold Shows
  rw [wordsOf_markNodes]
  rfl

theorem shows_commas {nss : List (List Node)} {vs : List Literal}
    (h : (nss.flatMap wordsOf).filter isNumber = vs.filterMap Literal.word?) : Shows (commaNodes nss) vs := by
  unfold Shows
  rw [wordsOf_commaNodes]
  exact h

theorem isNumber_of_isNumeral (h : isNumeral digits = true) (rest : String) :
    isNumber (digits ++ rest) = true := by
  obtain ⟨hne, hdigits⟩ := Bool.and_eq_true_iff.mp h
  unfold isNumber
  cases hlist : digits.toList with
  | nil =>
    rw [hlist] at hne
    cases hne
  | cons c cs =>
    rw [String.toList_append, hlist]
    exact all_eq_true.mp hdigits c (hlist ▸ mem_cons_self)

theorem isNumber_toString (n : Nat) : isNumber (toString n) = true := by
  obtain ⟨c, cs, hlist⟩ := exists_cons_of_ne_nil (isWord_toString n).nonempty
  unfold isNumber
  rw [hlist]
  exact isDigit_of_mem_toString (hlist ▸ mem_cons_self)

theorem shows_literal (h : Literal.Legible v) : Shows (literalNodes v) [v] := by
  cases v with
  | integer n =>
    cases n with
    | ofNat m => exact filter_cons_of_pos (isNumber_toString m)
    | negSucc m => exact filter_cons_of_pos (isNumber_toString (m + 1))
  | long digits => exact filter_cons_of_pos (isNumber_of_isNumeral h "n")
  | string s | null => rfl
  | boolean b => cases b <;> rfl

end Script

/-! ## expressions -/

open Script (Shows isNumber wordsOf)

variable {ν : DeclId → String}

mutual

theorem Expr.shows (e : Expr) (h : (e.named ν).Legible) : Shows (e.named ν).nodes e.literals := by
  match e with
  | .literal v t => exact Script.shows_literal h
  | .name x t => exact .word h.notNumber .nil
  | .binary op left right t =>
    have hoperands : (left.named ν).Legible ∧ (right.named ν).Legible := by
      rw [Expr.named] at h
      split at h <;> exact h
    have hboth := ((left.shows hoperands.1).append ((Script.shows_markNodes (Script.operatorText op)).append
      (right.shows hoperands.2))).last .paren
    rw [Expr.named]
    split
    · exact .word (by decide) (.mark (.word (by decide) (hboth.last .paren)) '.')
    · exact hboth
  | .unary op operand t =>
    have hoperand : (operand.named ν).Legible := by
      rw [Expr.named] at h
      split at h <;> exact h
    rw [Expr.named]
    split
    · exact (operand.shows hoperand).last .paren
    · exact ((Script.shows_markNodes op.symbol).append (operand.shows hoperand)).last .paren
  | .call callee arguments awaited constructs t =>
    have hparts : (callee.named ν).Legible ∧ Script.Expr.AllLegible (Expr.allNamed ν arguments) := by
      rw [Expr.named] at h
      cases constructs <;> cases awaited <;> exact h
    have hcall := (callee.shows hparts.1).append
      ((Script.shows_commas (Expr.shows_all arguments hparts.2)).last .paren)
    have hconstruct := hcall.word (w := "new") (by decide)
    cases constructs <;> cases awaited
    · exact hcall
    · exact (hcall.word (by decide)).last .paren
    · exact hconstruct
    · exact (hconstruct.word (by decide)).last .paren
  | .subscript base index t => exact (base.shows h.1).append ((index.shows h.2).last .square)
  | .member object x t =>
    have hall := (object.shows h.1).append (.mark (.word h.2.notNumber .nil) '.')
    rw [append_nil] at hall
    exact hall
  | .collection form elements t =>
    have hlegible : Script.Expr.AllLegible (Expr.allNamed ν elements) := by cases form <;> exact h
    have hall := (Script.shows_commas (Expr.shows_all elements hlegible)).last .square
    cases form with
    | array | tuple => exact hall
    | set => exact .word (by decide) (.word (by decide) (hall.last .paren))
  | .dict entries t => exact (Script.shows_commas (Expr.shows_entries entries h)).last .curly

theorem Expr.shows_all (es : List Expr) (h : Script.Expr.AllLegible (Expr.allNamed ν es)) :
    ((Script.Expr.allNodes (Expr.allNamed ν es)).flatMap wordsOf).filter isNumber
      = (Expr.allLiterals es).filterMap Literal.word? := by
  match es with
  | [] => rfl
  | e :: es =>
    have he : _ = _ := e.shows h.1
    rw [Expr.allNamed, Script.Expr.allNodes, flatMap_cons, filter_append, he,
      Expr.shows_all es h.2, Expr.allLiterals, filterMap_append]

theorem Expr.shows_entries (es : List (Expr × Expr))
    (h : Script.Expr.EntriesLegible (Expr.entriesNamed ν es)) :
    ((Script.Expr.entryNodes (Expr.entriesNamed ν es)).flatMap wordsOf).filter isNumber
      = (Expr.entryLiterals es).filterMap Literal.word? := by
  match es with
  | [] => rfl
  | (key, value) :: es =>
    have hentry : _ = _ := (key.shows h.1).append ((value.shows h.2.1).mark ':')
    rw [Expr.entriesNamed, Script.Expr.entryNodes, flatMap_cons, filter_append, hentry,
      Expr.shows_entries es h.2.2, Expr.entryLiterals]
    exact filterMap_append.symm

end

/-! ## what is printed -/

mutual

/-- the literals of a statement in the order in which they are printed -/
def Stmt.printed : Stmt → List Literal
  | .expression e => e.literals
  | .declare _ _ values => Expr.allLiterals values
  | .assign targets values => Expr.allLiterals targets ++ Expr.allLiterals values
  | .function h body => h.parameters.flatMap Parameter.literals ++ bodyPrinted body
  | .classDef h body => bodyPrinted body ++ h.parameters.flatMap Parameter.literals
  | .conditional branches otherwise => branchPrinted branches ++ otherwisePrinted otherwise
  | .whileLoop condition body => condition.literals ++ bodyPrinted body
  | .forLoop h body => h.literals ++ bodyPrinted body
  | .rangeLoop start stop body => start.literals ++ stop.literals ++ bodyPrinted body
  | .switch scrutinee cases otherwise => (if scrutinee.isAtom then [] else scrutinee.literals) ++
      (branchPrinted cases ++ otherwisePrinted otherwise)
  | .breakLoop => []
  | .continueLoop => []
  | .returnValue value => Expr.allLiterals value.toList
  | .print e => e.literals
  | .block body => bodyPrinted body

def bodyPrinted : List Stmt → List Literal
  | [] => []
  | s :: ss => s.printed ++ bodyPrinted ss

def branchPrinted : List (Guarded Stmt) → List Literal
  | [] => []
  | ⟨guard, body⟩ :: gs => guard.literals ++ (bodyPrinted body ++ branchPrinted gs)

def otherwisePrinted : Option (List Stmt) → List Literal
  | none => []
  | some body => bodyPrinted body

end

mutual

/-- the literals of a statement that switches switch on; they are not printed -/
def Stmt.silent : Stmt → List Literal
  | .function _ body | .classDef _ body | .block body => bodySilent body
  | .conditional branches otherwise => branchSilent branches ++ otherwiseSilent otherwise
  | .whileLoop _ body | .forLoop _ body | .rangeLoop _ _ body => bodySilent body
  | .switch scrutinee cases otherwise => (if scrutinee.isAtom then scrutinee.literals else []) ++
      (branchSilent cases ++ otherwiseSilent otherwise)
  | .expression _ | .declare _ _ _ | .assign _ _ | .breakLoop | .continueLoop | .returnValue _
  | .print _ => []

def bodySilent : List Stmt → List Literal
  | [] => []
  | s :: ss => s.silent ++ bodySilent ss

def branchSilent : List (Guarded Stmt) → List Literal
  | [] => []
  | ⟨_, body⟩ :: gs => bodySilent body ++ branchSilent gs

def otherwiseSilent : Option (List Stmt) → List Literal
  | none => []
  | some body => bodySilent body

end

mutual

theorem Stmt.count_printed (v : Literal) (s : Stmt) :
    s.printed.count v + s.silent.count v = s.literals.count v := by
  match s with
  | .expression e | .declare _ _ values | .assign targets values | .breakLoop | .continueLoop
  | .returnValue value | .print e => rfl
  | .function h body | .classDef h body | .whileLoop condition body | .forLoop h body
  | .rangeLoop start stop body =>
    have hbody := count_bodyPrinted v body
    simp only [Stmt.printed, Stmt.silent, Stmt.literals, count_append]
    omega
  | .conditional branches otherwise =>
    have hbranches := count_branchPrinted v branches
    have hotherwise := count_otherwisePrinted v otherwise
    simp only [Stmt.printed, Stmt.silent, Stmt.literals, count_append]
    omega
  | .switch scrutinee cases otherwise =>
    have hcases := count_branchPrinted v cases
    have hotherwise := count_otherwisePrinted v otherwise
    simp only [Stmt.printed, Stmt.silent, Stmt.literals, count_append]
    split <;> simp only [count_nil] <;> omega
  | .block body => exact count_bodyPrinted v body

theorem count_bodyPrinted (v : Literal) (body : List Stmt) :
    (bodyPrinted body).count v + (bodySilent body).count v = (bodyLiterals body).count v := by
  match body with
  | [] => rfl
  | s :: ss =>
    have hs := s.count_printed v
    have hss := count_bodyPrinted v ss
    simp only [bodyPrinted, bodySilent, bodyLiterals, count_append]
    omega

theorem count_branchPrinted (v : Literal) (gs : List (Guarded Stmt)) :
    (branchPrinted gs).count v + (branchSilent gs).count v = (branchLiterals gs).count v := by
  match gs with
  | [] => rfl
  | ⟨guard, body⟩ :: gs =>
    have hbody := count_bodyPrinted v body
    have hgs := count_branchPrinted v gs
    simp only [branchPrinted, branchSilent, branchLiterals, count_append]
    omega

theorem count_otherwisePrinted (v : Literal) (o : Option (List Stmt)) :
    (otherwisePrinted o).count v + (otherwiseSilent o).count v = (otherwiseLiterals o).count v := by
  match o with
  | none => rfl
  | some body => exact count_bodyPrinted v body

end

/-- every literal is printed once, or not at all if a switch switches on it -/
theorem perm_bodyPrinted (body : List Stmt) :
    (bodyPrinted body ++ bodySilent body).Perm (bodyLiterals body) :=
  perm_iff_count.mpr fun v => count_append.trans (count_bodyPrinted v body)

/-! ## statements -/

variable {vs : List Literal} {ns : List Script.Node} {names : List String} {values : List Expr}
  {ps : List Parameter} {name : String}

theorem Script.Shows.one {s : Script.Stmt} (h : Shows s.nodes vs) : Shows (Script.bodyNodes [s]) vs := by
  rw [Script.bodyNodes, Script.bodyNodes, append_nil]
  exact h

theorem Script.Shows.ended (h : Shows ns vs) (c : Char) : Shows (ns ++ [.mark c]) vs := by
  have hall := h.append (Shows.nil.mark c)
  rwa [append_nil] at hall

theorem shows_names (h : ∀ x ∈ names, Script.IsName x) : names.filter isNumber = [] :=
  filter_eq_nil_iff.mpr fun x hx => by rw [(h x hx).notNumber]; exact Bool.false_ne_true

theorem shows_destructure (ht : Script.Expr.AllLegible (Expr.allNamed ν targets))
    (hv : Script.Expr.AllLegible (Expr.allNamed ν values)) :
    Shows (Script.destructureNodes (Script.Expr.allNodes (Expr.allNamed ν targets))
      (Script.Expr.allNodes (Expr.allNamed ν values)))
      (Expr.allLiterals targets ++ Expr.allLiterals values) := by
  unfold Shows
  rw [Script.wordsOf_destructureNodes, filter_append, Expr.shows_all targets ht,
    Expr.shows_all values hv, filterMap_append]

theorem shows_declaration (hnames : ∀ x ∈ names, Script.IsName x)
    (hv : Script.Expr.AllLegible (Expr.allNamed ν values)) :
    Shows (Script.declarationNodes constant names (Expr.allNamed ν values)) (Expr.allLiterals values) := by
  have hkeyword : ¬ isNumber (if constant then "const" else "let") = true := by cases constant <;> decide
  unfold Shows
  rw [Script.wordsOf_declarationNodes, filter_cons_of_neg hkeyword, filter_append,
    shows_names hnames, ← Script.flatMap_allNodes, Expr.shows_all values hv, nil_append]

theorem shows_parameters (h : ∀ p ∈ ps.map (Parameter.named ν), p.Legible) :
    (((ps.map (Parameter.named ν)).map Script.Param.nodes).flatMap wordsOf).filter isNumber
      = (ps.flatMap Parameter.literals).filterMap Literal.word? := by
  induction ps with
  | nil => rfl
  | cons p ps ih =>
    obtain ⟨hp, hps⟩ := forall_mem_cons.mp h
    have hone : Shows (p.named ν).nodes p.literals := by
      obtain ⟨name, written, default, id, type⟩ := p
      cases default with
      | none => exact .word hp.name.notNumber .nil
      | some e =>
        have he := e.shows (hp.default _ rfl)
        have hliterals : Parameter.literals ⟨name, written, some e, id, type⟩ = e.literals := by
          unfold Parameter.literals
          exact append_nil _
        rw [hliterals]
        exact .word hp.name.notNumber (he.mark '=')
    have hword : _ = _ := hone
    rw [map_cons, map_cons, flatMap_cons, filter_append, hword, ih hps,
      flatMap_cons, filterMap_append]

theorem shows_function (hname : Script.IsName name) (h : ∀ p ∈ ps.map (Parameter.named ν), p.Legible)
    (hbody : Shows ns vs) :
    Shows (Script.functionNodes async name (ps.map (Parameter.named ν)) ns)
      (ps.flatMap Parameter.literals ++ vs) := by
  have hrest := Shows.word hname.notNumber
    ((Script.shows_commas (shows_parameters h)).group (hbody.last .curly) .paren)
  cases async with
  | false => exact hrest.word (by decide)
  | true => exact (hrest.word (by decide)).word (by decide)

theorem shows_fields {fields : List String} (h : ∀ f ∈ fields, Script.IsName f) :
    Shows (fields.flatMap Script.fieldNodes) [] := by
  induction fields with
  | nil => exact .nil
  | cons f fields ih =>
    obtain ⟨hf, hfields⟩ := forall_mem_cons.mp h
    have hline : Shows (Script.fieldNodes f) [] :=
      .word (by decide) (.mark (.word hf.notNumber (.mark (.word hf.notNumber (.mark .nil ';')) '=')) '.')
    exact hline.append (ih hfields)

theorem shows_methods {methods : List String} (h : Script.BodyLegible (methods.map (.attach name))) :
    Shows (Script.bodyNodes (methods.map (.attach name))) [] := by
  induction methods with
  | nil => exact .nil
  | cons m methods ih =>
    obtain ⟨⟨hname, hm⟩, hmethods⟩ := h
    have hline : Shows (Script.Stmt.attach name m).nodes [] :=
      .word hname.notNumber (.mark (.word (by decide) (.mark (.word hm.notNumber
        (.mark (.word hm.notNumber (.mark .nil ';')) '=')) '.')) '.')
    exact hline.append (ih hmethods)

theorem shows_members {h : ClassHead} (hlegible : Script.BodyLegible (h.members ν body)) :
    Shows (Script.bodyNodes (h.members ν body)) (h.parameters.flatMap Parameter.literals) := by
  obtain ⟨⟨hname, hps, hfields⟩, hmethods⟩ := hlegible
  have hconstructor : Shows (Script.Stmt.constructor _ _ _).nodes _ :=
    shows_function hname hps (shows_fields hfields)
  have hall := hconstructor.append (shows_methods hmethods)
  rw [append_nil, append_nil] at hall
  exact hall

theorem shows_header {h : ForHead} (hindex : Script.IsName (h.index.label ν))
    (hinit : (h.init.named ν).Legible) (htest : (h.test.named ν).Legible)
    (htarget : Script.IsName (h.target.label ν)) (hupdate : Script.updateLegible (h.update.named ν)) :
    Shows (Script.headerNodes (h.index.label ν) (h.init.named ν) (h.test.named ν) (h.target.label ν)
      (h.update.named ν)) h.literals := by
  obtain ⟨index, init, test, target, update⟩ := h
  have hend : Shows (Script.updateNodes (target.label ν) (update.named ν)) (Update.literals update) := by
    cases update with
    | increment => exact .word htarget.notNumber (.mark (.mark .nil '+') '+')
    | decrement => exact .word htarget.notNumber (.mark (.mark .nil '-') '-')
    | increase e => exact .word htarget.notNumber (.mark (.mark (e.shows hupdate) '=') '+')
    | decrease e => exact .word htarget.notNumber (.mark (.mark (e.shows hupdate) '=') '-')
  have hall := (init.shows hinit).append (((test.shows htest).append (hend.mark ';')).mark ';')
  rw [← append_assoc] at hall
  exact .word (by decide) (.word hindex.notNumber (hall.mark '='))

theorem shows_range {start stop : Expr} (hindex : Script.IsName index) (hstart : (start.named ν).Legible)
    (hstop : (stop.named ν).Legible) :
    Shows (Script.headerNodes index (start.named ν) (.binary .less (.ident index) (stop.named ν)) index
      .increment) (start.literals ++ stop.literals) := by
  have htest : Shows (Script.Expr.binary .less (.ident index) (stop.named ν)).nodes stop.literals :=
    (Shows.word hindex.notNumber ((Script.shows_markNodes _).append (stop.shows hstop))).last .paren
  have hupdate : Shows (Script.updateNodes index .increment) [] :=
    .word hindex.notNumber (.mark (.mark .nil '+') '+')
  have hall := (start.shows hstart).append ((htest.append (hupdate.mark ';')).mark ';')
  rw [append_nil] at hall
  exact .word (by decide) (.word hindex.notNumber (hall.mark '='))

theorem shows_print {e : Expr} (h : (e.named ν).Legible) :
    Shows (Script.Stmt.print (e.named ν)).nodes e.literals := by
  have hall := (e.shows h).group (Shows.nil.mark ';') .paren
  rw [append_nil] at hall
  exact .word (by decide) (.mark (.word (by decide) hall) '.')

theorem shows_evaluation (h : Script.BodyLegible (Stmt.lower.evaluation scrutinee (scrutinee.named ν))) :
    Shows (Script.bodyNodes (Stmt.lower.evaluation scrutinee (scrutinee.named ν)))
      (if scrutinee.isAtom then [] else scrutinee.literals) := by
  unfold Stmt.lower.evaluation at h ⊢
  split
  · exact .nil
  · next hatom =>
    rw [if_neg hatom] at h
    exact .one ((scrutinee.shows h.1).ended ';')

theorem shows_return {value : Option Expr} (h : ∀ e ∈ value.map (Expr.named ν), e.Legible) :
    Shows (Script.Stmt.returnValue (value.map (Expr.named ν))).nodes (Expr.allLiterals value.toList) := by
  cases value with
  | none => exact .word (by decide) (.mark .nil ';')
  | some e =>
    have hliterals : Expr.allLiterals (some e).toList = e.literals := append_nil _
    rw [hliterals]
    exact .word (by decide) ((e.shows (h _ rfl)).ended ';')

theorem bodyNodes_append (ss ts : List Script.Stmt) :
    Script.bodyNodes (ss ++ ts) = Script.bodyNodes ss ++ Script.bodyNodes ts := by
  induction ss with
  | nil => rfl
  | cons s ss ih => rw [cons_append, Script.bodyNodes, Script.bodyNodes, ih, append_assoc]

mutual

theorem Stmt.Lowers.shows {s : Stmt} (h : s.Lowers ν ss) (hlegible : Script.BodyLegible ss) :
    Shows (Script.bodyNodes ss) s.printed := by
  match h with
  | .expression => exact .one ((Expr.shows _ hlegible.1).ended ';')
  | .declare => exact .one (shows_declaration hlegible.1.1 hlegible.1.2)
  | .assign => exact .one ((shows_destructure hlegible.1.1 hlegible.1.2).ended ';')
  | .function hbody =>
    obtain ⟨⟨hname, hps, hlegible⟩, _⟩ := hlegible
    exact .one (shows_function hname hps (hbody.shows hlegible))
  | .classDef hbody =>
    obtain ⟨hlegible, hmembers⟩ := bodyLegible_split hlegible
    rw [bodyNodes_append]
    exact (hbody.shows hlegible).append (shows_members hmembers)
  | .conditional hgs ho =>
    obtain ⟨⟨_, hgsLegible, hoLegible⟩, _⟩ := hlegible
    have hif : Shows [.word "if"] [] := .word (by decide) .nil
    exact .one ((hgs.shows_branches hgsLegible hif).append (ho.shows hoLegible))
  | .whileLoop hbody =>
    obtain ⟨⟨hcondition, hlegible⟩, _⟩ := hlegible
    have hblock := (hbody.shows hlegible).last .curly
    exact .one (.word (by decide) ((Expr.shows _ hcondition).group hblock .paren))
  | .forLoop hbody =>
    obtain ⟨⟨hindex, hinit, htest, htarget, hupdate, hlegible⟩, _⟩ := hlegible
    have hheader := shows_header hindex hinit htest htarget hupdate
    exact .one (.word (by decide) (hheader.group ((hbody.shows hlegible).last .curly) .paren))
  | .rangeLoop _ hbody =>
    obtain ⟨⟨hindex, hinit, htest, _, _, hlegible⟩, _⟩ := hlegible
    have hheader := shows_range hindex hinit htest.2
    exact .one (.word (by decide) (hheader.group ((hbody.shows hlegible).last .curly) .paren))
  | .switch hgs ho =>
    obtain ⟨hevaluation, ⟨hgsLegible, hoLegible⟩, _⟩ := bodyLegible_split hlegible
    have hcases := ((hgs.shows_cases hgsLegible).append (ho.shows_default hoLegible)).last .curly
    have htrue : Shows [.word "true"] [] := .word (by decide) .nil
    rw [bodyNodes_append]
    exact (shows_evaluation hevaluation).append (.one (.word (by decide) (htrue.group hcases .paren)))
  | .breakLoop | .continueLoop => exact .one (.word (by decide) (.mark .nil ';'))
  | .returnValue => exact .one (shows_return hlegible.1)
  | .print => exact .one (shows_print hlegible.1)
  | .block hbody => exact .one ((hbody.shows hlegible.1).last .curly)

theorem BodyLowers.shows (h : BodyLowers ν body ss) (hlegible : Script.BodyLegible ss) :
    Shows (Script.bodyNodes ss) (bodyPrinted body) := by
  match h with
  | .nil => exact .nil
  | .cons hs hbody =>
    obtain ⟨hsLegible, hbodyLegible⟩ := bodyLegible_split hlegible
    rw [bodyNodes_append]
    exact (hs.shows hsLegible).append (hbody.shows hbodyLegible)

theorem BranchesLower.shows_branches {branches : List (Script.Guarded Script.Stmt)}
    (h : BranchesLower ν gs branches) (hlegible : Script.BranchesLegible branches)
    (hopening : Shows opening []) : Shows (Script.branchNodes opening branches) (branchPrinted gs) := by
  match h with
  | .nil => exact .nil
  | .cons hbody hgs =>
    obtain ⟨hguard, hbodyLegible, hgsLegible⟩ := hlegible
    have helse : Shows [.word "else", .word "if"] [] := .word (by decide) (.word (by decide) .nil)
    exact hopening.append ((Expr.shows _ hguard).group ((hbody.shows hbodyLegible).group
      (hgs.shows_branches hgsLegible helse) .curly) .paren)

theorem OtherwiseLowers.shows (h : OtherwiseLowers ν o otherwise)
    (hlegible : Script.OtherwiseLegible otherwise) :
    Shows (Script.otherwiseNodes otherwise) (otherwisePrinted o) := by
  match h with
  | .none => exact .nil
  | .some hbody => exact .word (by decide) ((hbody.shows hlegible).last .curly)

theorem BranchesLower.shows_cases (h : BranchesLower ν gs cases) (hlegible : Script.BranchesLegible cases) :
    Shows (Script.caseNodes cases) (branchPrinted gs) := by
  match h with
  | .nil => exact .nil
  | .cons hbody hgs =>
    obtain ⟨hguard, hbodyLegible, hgsLegible⟩ := hlegible
    have hrest := (hgs.shows_cases hgsLegible).mark ';'
    exact .word (by decide) ((Expr.shows _ hguard).append (.mark ((hbody.shows hbodyLegible).append
      (.word (by decide) hrest)) ':'))

theorem OtherwiseLowers.shows_default (h : OtherwiseLowers ν o otherwise)
    (hlegible : Script.OtherwiseLegible otherwise) :
    Shows (Script.defaultNodes otherwise) (otherwisePrinted o) := by
  match h with
  | .none => exact .nil
  | .some hbody => exact .word (by decide) ((hbody.shows hlegible).mark ':')

end

/-! ## texts -/

namespace Script

mutual

theorem Node.filterMap_flatten (n : Node) : n.flatten.filterMap Atom.number? = n.words.filter isNumber := by
  match n with
  | .word w => by_cases hw : isNumber w = true <;> simp [Node.flatten, Node.words, Atom.number?, hw]
  | .quoted | .mark c => rfl
  | .group b inner =>
    rw [Node.flatten, filterMap_cons_none rfl, filterMap_append, filterMap_flattenAll inner]
    exact append_nil _

theorem filterMap_flattenAll (ns : List Node) :
    (flattenAll ns).filterMap Atom.number? = (wordsOf ns).filter isNumber := by
  match ns with
  | [] => rfl
  | n :: ns =>
    rw [flattenAll, wordsOf, filterMap_append, filter_append, n.filterMap_flatten,
      filterMap_flattenAll ns]

end

end Script

theorem numbers_layout (h : BodyLowers ν body ss) (hlegible : Script.BodyLegible ss) (width : Nat) :
    Script.numbers (Script.layout width (Script.bodyLines 0 ss))
      = (bodyPrinted body).filterMap Literal.word? := by
  have hreads := (Script.reads_bodyLines ss hlegible 0 width).reads
  unfold Script.numbers
  rw [hreads.atoms, Script.filterMap_flattenAll]
  exact h.shows hlegible

end TypedScript
