import TypedScript.Proofs.ErrorReports
import TypedScript.Proofs.OutputNames
import TypedScript.Proofs.SourceSlices

/-!
# Compilation within limits

Compilation with every step that could leave a range checked: cuts of the source, the indices of tokens
and of the types of values, the removal of type arguments from a list, and the numbers of bytes,
declarations and names, which are kept in 32 bits.  For a source whose length fits into 32 bits no such
step fails.
-/

namespace TypedScript

open Text List

/-! ## token indices -/

namespace Cursor

/-- the cursor behind `n` tokens -/
def after : Nat → Cursor → Cursor
  | 0, c => c
  | n + 1, c => after n c.next

/-- the index of a token, which stays at the end marker -/
def index (ts : List Token) (n : Nat) : Nat := min n (ts.length - 1)

theorem getElem?_index (c : Cursor) (n : Nat) : c.tokens[index c.tokens n]? = some (c.after n).current := by
  obtain ⟨ahead, last⟩ := c
  induction n generalizing ahead with
  | zero => cases ahead <;> rfl
  | succ n ih =>
    cases ahead with
    | nil =>
      -- the end marker is not passed
      have hindex : index (tokens ⟨[], last⟩) (n + 1) = index (tokens ⟨[], last⟩) n := by
        unfold index tokens
        rw [nil_append, length_singleton, Nat.min_zero, Nat.min_zero]
      rw [hindex]
      exact ih []
    | cons t ts =>
      have hindex : index (tokens ⟨t :: ts, last⟩) (n + 1) = index (tokens ⟨ts, last⟩) n + 1 := by
        unfold index tokens
        simp only [length_append, length_cons, length_nil]
        omega
      rw [hindex]
      exact ih ts

end Cursor

theorem tokens_ofTokens (h : EndsWithEof ts) (file : String) : (Cursor.ofTokens ts file).tokens = ts := by
  obtain ⟨front, last, rfl, hlast⟩ := h
  rw [Cursor.ofTokens_concat front hlast]
  rfl

/-! ## type arguments -/

variable {ts : List Ty}

/-- the member at an index, and the others -/
def removeAt? {α : Type} (xs : List α) (i : Nat) : Option (α × List α) :=
  xs[i]?.map fun x => (x, xs.eraseIdx i)

/-- the type built from arguments that are removed one by one -/
def Generic.build? : Generic → List Ty → Option Ty
  | array, ts => do
    let (t, _) ← removeAt? ts 0
    return .array t
  | set, ts => do
    let (t, _) ← removeAt? ts 0
    return .set t
  | dict, ts => do
    let (value, ts) ← removeAt? ts 1
    let (key, _) ← removeAt? ts 0
    return .dict key value
  | tuple, ts => some (.tupleOf ts)

theorem Generic.build?_eq_some {g : Generic} (h : g.accepts ts.length = true) :
    g.build? ts = some (g.build ts) := by
  cases g with
  | tuple => rfl
  | array | set =>
    obtain ⟨t, rfl⟩ := length_eq_one_iff.mp (of_decide_eq_true h)
    rfl
  | dict =>
    obtain ⟨key, value, rfl⟩ := length_eq_two.mp (of_decide_eq_true h)
    rfl

mutual

def TypeTerm.resolve? (s : Scope) : TypeTerm → Option (Except Cause Ty)
  | .named name => some (TypeTerm.resolve s (.named name))
  | .generic name arguments =>
    match Generic.ofName? name with
    | none => some (TypeTerm.resolve s (.generic name arguments))
    | some g =>
      if g.accepts arguments.length then
        (TypeTerm.resolveAll? s arguments).bind fun
          | .error e => some (.error e)
          | .ok ts => (g.build? ts).map .ok
      else some (.error (.genericArity name g.arity arguments.length))
  | .nullable inner => (inner.resolve? s).map (Except.map .nullable)

def TypeTerm.resolveAll? (s : Scope) : List TypeTerm → Option (Except Cause (List Ty))
  | [] => some (.ok [])
  | t :: ts =>
    (t.resolve? s).bind fun
      | .error e => some (.error e)
      | .ok type => (TypeTerm.resolveAll? s ts).map (Except.map (type :: ·))

end

theorem length_of_resolveAll (h : TypeTerm.resolveAll s ws = .ok ts) : ts.length = ws.length := by
  induction ws generalizing ts with
  | nil =>
    cases h
    rfl
  | cons w ws ih =>
    rw [TypeTerm.resolveAll] at h
    cases hw : w.resolve s with
    | error e =>
      rw [hw] at h
      exact nomatch h
    | ok t =>
      cases hws : TypeTerm.resolveAll s ws with
      | error e =>
        rw [hw, hws] at h
        exact nomatch h
      | ok us =>
        rw [hw, hws] at h
        cases h
        exact congrArg (· + 1) (ih hws)

mutual

theorem TypeTerm.resolve?_eq_some (s : Scope) (t : TypeTerm) : t.resolve? s = some (t.resolve s) := by
  match t with
  | .named name => rw [TypeTerm.resolve?]
  | .generic name arguments =>
    rw [TypeTerm.resolve?]
    split
    · rfl
    · next g hg =>
      rw [TypeTerm.resolve, hg]
      dsimp only
      split
      · next haccepts =>
        rw [TypeTerm.resolveAll?_eq_some s arguments]
        cases hts : TypeTerm.resolveAll s arguments with
        | error e => rfl
        | ok ts =>
          rw [← length_of_resolveAll hts] at haccepts
          show (g.build? ts).map Except.ok = _
          rw [Generic.build?_eq_some haccepts]
          rfl
      · rfl
  | .nullable inner =>
    rw [TypeTerm.resolve?, TypeTerm.resolve, TypeTerm.resolve?_eq_some s inner]
    cases inner.resolve s <;> rfl

theorem TypeTerm.resolveAll?_eq_some (s : Scope) (ts : List TypeTerm) :
    TypeTerm.resolveAll? s ts = some (TypeTerm.resolveAll s ts) := by
  match ts with
  | [] => rw [TypeTerm.resolveAll?, TypeTerm.resolveAll]
  | t :: ts =>
    rw [TypeTerm.resolveAll?, TypeTerm.resolveAll, TypeTerm.resolve?_eq_some s t]
    cases t.resolve s with
    | error e => rfl
    | ok type =>
      show (TypeTerm.resolveAll? s ts).map _ = _
      rw [TypeTerm.resolveAll?_eq_some s ts]
      cases TypeTerm.resolveAll s ts <;> rfl

end

/-! ## the types of values -/

variable {i : Nat} {values : List Ty} {ds : List Declarator}

def declaredType? (s : Scope) (written : Option TypeTerm) (values : List Ty) (i : Nat) :
    Option (Except Cause Ty) :=
  match written with
  | none => values[i]?.map .ok
  | some w =>
    (w.resolve? s).map fun r => do
      let t ← r
      match values[i]? with
      | none => return t
      | some v => if v.assignable t then return t else throw (mismatch t v)

def Declarator.bind? (d : Declarator) (constant : Bool) (values : List Ty) (i : Nat) (c : Context) :
    Option (Step Declarator) :=
  (declaredType? c.scope d.written values i).map fun
    | .error e => .fail c d e
    | .ok t =>
      match c.bind d.name t (.variable constant) with
      | (c, .ok id) => .ok c { d with id := some id, type := some t }
      | (c, .error e) => .fail c d e

/-- declares names, from number `i` on -/
def bindDeclarators? (constant : Bool) (values : List Ty) :
    Nat → List Declarator → Context → Option (Step (List Declarator))
  | _, [], c => some (.ok c [])
  | i, d :: ds, c =>
    (d.bind? constant values i c).bind fun x =>
      match x.failure with
      | some e => some (.fail x.context (x.tree :: ds) e)
      | none => (bindDeclarators? constant values (i + 1) ds x.context).map (·.map (x.tree :: ·))

def checkDeclaration? (constant : Bool) (ds : List Declarator) (values : List Expr) (c : Context) :
    Option (Step Stmt) :=
  match declarationFault? constant ds values with
  | some e => some (.fail c (.declare constant ds values) e)
  | none =>
    let x := Expr.checkEach c.scope values
    match x.result with
    | .error e => some (.fail c (.declare constant ds x.tree) e)
    | .ok ts => (bindDeclarators? constant ts 0 ds c).map (·.map (.declare constant · x.tree))

theorem declaredType?_eq_some (s : Scope) (name : String) (h : written = none → i < values.length) :
    declaredType? s written values i = some (declaredType s name written values[i]?) := by
  cases written with
  | none =>
    rw [declaredType?, List.getElem?_eq_getElem (h rfl)]
    rfl
  | some w =>
    rw [declaredType?, TypeTerm.resolve?_eq_some]
    cases values[i]? with
    | none => cases hw : w.resolve s <;> simp only [declaredType, hw] <;> rfl
    | some v => rfl

theorem Declarator.bind?_eq_some (d : Declarator) (constant : Bool) (c : Context)
    (h : d.written = none → i < values.length) :
    d.bind? constant values i c = some (d.bind constant values[i]? c) := by
  rw [Declarator.bind?, Declarator.bind, declaredType?_eq_some c.scope d.name h]
  cases declaredType c.scope d.name d.written values[i]? <;> rfl

theorem bindDeclarators?_eq_some (constant : Bool)
    (h : ∀ j d, ds[j]? = some d → d.written = none → i + j < values.length) (c : Context) :
    bindDeclarators? constant values i ds c = some (bindDeclarators constant ds (values.drop i) c) := by
  induction ds generalizing i c with
  | nil => rfl
  | cons d ds ih =>
    have hfirst : d.written = none → i < values.length := h 0 d rfl
    have hrest : ∀ j e, ds[j]? = some e → e.written = none → i + 1 + j < values.length := by
      intro j e he hwritten
      have := h (j + 1) e he hwritten
      omega
    rw [bindDeclarators?, d.bind?_eq_some constant c hfirst, bindDeclarators, List.head?_drop,
      tail_drop]
    show (match (d.bind constant values[i]? c).failure with | some e => _ | none => _) = _
    cases hfailure : (d.bind constant values[i]? c).failure with
    | some e => rw [Step.andThen_some hfailure]
    | none =>
      rw [Step.andThen_none hfailure]
      show (bindDeclarators? constant values (i + 1) ds _).map _ = _
      rw [ih hrest]
      rfl

theorem value_of_declarationFault? {values : List Expr} (h : declarationFault? constant ds values = none)
    (hd : ds[j]? = some d) (hwritten : d.written = none) : j < values.length := by
  unfold declarationFault? at h
  have hmem := mem_of_getElem? hd
  split at h
  · have hd' := List.findSome?_eq_none_iff.mp h d hmem
    rw [hwritten] at hd'
    cases constant <;> exact nomatch hd'
  · split at h
    · exact nomatch h
    · next heq =>
      obtain ⟨hlt, _⟩ := List.getElem?_eq_some_iff.mp hd
      omega

theorem length_of_checkEach (h : Expr.checkEach s es = ⟨es', .ok ts⟩) : ts.length = es.length := by
  have hall := Expr.acceptedAll_of_check h
  obtain ⟨us, rfl, hus⟩ := hall.types
  have hlength := congrArg List.length hus
  rw [length_map, length_map, hall.length] at hlength
  exact hlength.symm

theorem checkDeclaration?_eq_some (constant : Bool) (ds : List Declarator) (values : List Expr)
    (c : Context) :
    checkDeclaration? constant ds values c = some ((Stmt.declare constant ds values).check c) := by
  rw [checkDeclaration?, Stmt.check]
  cases hfault : declarationFault? constant ds values with
  | some e => rfl
  | none =>
    dsimp only
    cases hx : Expr.checkEach c.scope values with
    | mk values' result =>
      cases result with
      | error e => rfl
      | ok ts =>
        have hvalues : ∀ j d, ds[j]? = some d → d.written = none → 0 + j < ts.length := by
          intro j d hd hwritten
          have hj := value_of_declarationFault? hfault hd hwritten
          rw [← length_of_checkEach hx] at hj
          omega
        show (bindDeclarators? constant ts 0 ds c).map _ = _
        rw [bindDeclarators?_eq_some constant hvalues]
        rfl

/-! ## counting declarations -/

mutual

theorem Stmt.length_sites (s : Stmt) : s.sites.length = s.functions + s.taken := by
  cases s with
  | declare constant ds values =>
    rw [Stmt.sites, length_map]
    exact (Nat.zero_add _).symm
  | function h body =>
    rw [Stmt.sites, length_cons, length_append, length_map, length_bodySites body]
    exact Nat.add_comm _ 1
  | classDef h body =>
    rw [Stmt.sites, length_cons, length_append, length_map, length_bodySites body]
    show _ = 0 + (1 + h.parameters.length + bodyTaken body)
    omega
  | conditional branches otherwise =>
    rw [Stmt.sites, length_append, length_branchSites branches, length_otherwiseSites otherwise]
    exact (Nat.zero_add _).symm
  | whileLoop condition body | rangeLoop start stop body =>
    exact (length_bodySites body).trans (Nat.zero_add _).symm
  | forLoop h body =>
    rw [Stmt.sites, length_cons, length_bodySites body]
    show _ = 0 + (1 + bodyTaken body)
    omega
  | switch scrutinee cases otherwise =>
    rw [Stmt.sites, length_append, length_branchSites cases, length_otherwiseSites otherwise]
    exact (Nat.zero_add _).symm
  | block body => exact (length_bodySites body).trans (Nat.zero_add _).symm
  | _ => rfl

theorem length_bodySites (body : List Stmt) : (bodySites body).length = bodyTaken body := by
  cases body with
  | nil => rfl
  | cons s ss =>
    rw [bodySites, length_append, s.length_sites, length_bodySites ss, bodyTaken, bodyTaken,
      functionCount, eachTaken]
    omega

theorem length_branchSites (gs : List (Guarded Stmt)) : (branchSites gs).length = branchesTaken gs := by
  cases gs with
  | nil => rfl
  | cons g gs =>
    obtain ⟨guard, body⟩ := g
    rw [branchSites, length_append, length_bodySites body, length_branchSites gs]
    rfl

theorem length_otherwiseSites (o : Option (List Stmt)) : (otherwiseSites o).length = otherwiseTaken o := by
  cases o with
  | none => rfl
  | some body => exact length_bodySites body

end

theorem Hoisted.loops (h : Hoisted body c hoisted c') : bodyLoops hoisted = bodyLoops body := by
  induction h with
  | nil => rfl
  | function _ _ _ _ ih | other _ _ ih => exact congrArg (_ + ·) ih

mutual

theorem Stmt.Accepted.loops (h : Stmt.Accepted c s c' s') : s'.loops = s.loops := by
  match h with
  | .expression _ | .print _ | .declare _ _ _ | .assign _ _ _ | .breakLoop _ | .continueLoop _
  | .returnValue _ => rfl
  | .function _ _ _ _ hbody | .classDef _ hbody | .whileLoop _ hbody | .forLoop _ hbody | .block hbody =>
    exact hbody.loops
  | .conditional hbranches hotherwise => exact congrArg₂ (· + ·) hbranches.loops hotherwise.loops
  | .rangeLoop _ _ _ _ hbody => exact congrArg (1 + ·) hbody.loops
  | .switch _ hcases hotherwise => exact congrArg₂ (· + ·) hcases.loops hotherwise.loops

theorem EachAccepted.loops (h : EachAccepted c ss c' ss') : bodyLoops ss' = bodyLoops ss := by
  match h with
  | .nil => rfl
  | .cons hs hrest => exact congrArg₂ (· + ·) hs.loops hrest.loops

theorem BodyAccepted.loops (h : BodyAccepted c body c' body') : bodyLoops body' = bodyLoops body := by
  match h with
  | .intro hhoisted heach => exact heach.loops.trans hhoisted.loops

theorem BranchesAccepted.loops (h : BranchesAccepted c gs c' gs') : branchLoops gs' = branchLoops gs := by
  match h with
  | .nil => rfl
  | .cons _ hbody hrest => exact congrArg₂ (· + ·) hbody.loops hrest.loops

theorem OtherwiseAccepted.loops (h : OtherwiseAccepted c o c' o') : otherwiseLoops o' = otherwiseLoops o := by
  match h with
  | .none => rfl
  | .some hbody => exact hbody.loops

end

theorem next_lowerBody (h : analyse Scope.root p = .ok q) :
    (lowerBody q Names.initial).2.next ≤ 1 + bodyWeight p := by
  obtain ⟨order, htracks, hgrows, _⟩ := gives_lowerBody q 0 [] Names.initial tracks_initial
  have hsub := mem_namedEntries_of_grows h htracks hgrows subset_rfl nofun
  have horder : order.length ≤ (namedEntries q).length :=
    (subperm_of_subset htracks.nodup.of_map hsub).length_le
  have hsites : (bodySites q).length = bodyTaken p := by
    have hlength := (perm_siteIds_of_analyse h).length_eq
    rwa [siteIds, interval, length_map, length_map, length_range'] at hlength
  obtain ⟨c, hbody⟩ := accepted_of_analyse h
  rw [namedEntries, length_append, length_map, length_map, length_range, hsites,
    hbody.loops] at horder
  rw [htracks.next, bodyWeight, length_bodySites]
  omega

/-! ## counting tokens -/

variable {file : String}

theorem Tiles.length_le {ts : List Token} (h : Tiles source file i ts) :
    ts.length + i ≤ byteLength source + 1 := by
  induction h with
  | ending hslice _ =>
    have := hslice.le
    rw [length_singleton]
    omega
  | token hgap _ _ hlt _ _ _ ih =>
    have := hgap.le
    rw [length_cons]
    omega

/-- a source has more bytes than its program has declarations and range loops, if it has statements -/
theorem weight_lt (h : parseSource source file = .ok p) (hsource : byteLength source.toList < offsetBound) :
    1 + bodyWeight p < offsetBound := by
  obtain ⟨ts, hscan, hparse⟩ := parseSource_eq_ok h
  have htiles := Reader.tiles [] [] (.inl .nil) hscan
  have htokens : ts.length + 0 ≤ byteLength source.toList + 1 := htiles.length_le
  have hpasses := passes_parse htiles.endsWithEof file
  rw [hparse] at hpasses
  have hweight : bodyWeight p + p.length < ts.length := hpasses
  cases p with
  | nil => decide
  | cons s ss =>
    rw [length_cons] at hweight
    omega

/-! ## compilation -/

/-- Checks a program and compiles it with the standard options.  The numbers of declarations and of names
only grow, so that each is looked at once, at the end. -/
def compileProgram? (p : Program) : Option (Except Diagnostic String) :=
  let x := checkProgram Scope.root p
  (offset? x.context.nextId).bind fun _ =>
    match x.failure with
    | some e => some (.error (.unplaced e))
    | none =>
      let y := lowerBody x.tree Names.initial
      (offset? y.2.next).map fun _ =>
        .ok (Script.layout Options.standard.indent (Script.bodyLines 0 y.1))

def compileWithin? (source file : String) : Option (Except Diagnostic String) :=
  (tokensFrom? source.toList file 0).bind fun
    | .error d => some (.error d)
    | .ok ts =>
      match parse ts file with
      | .error d => some (.error d)
      | .ok p => compileProgram? p

theorem compileProgram?_eq_some {p : Program} (hp : p.WellFormed) (h : 1 + bodyWeight p < offsetBound) :
    compileProgram? p = some (analyse Scope.root p >>= compile .standard) := by
  have hid : (checkProgram Scope.root p).context.nextId < offsetBound := by
    refine Nat.lt_of_le_of_lt (orderly_checkProgram hp).counted ?_
    rw [← length_bodySites]
    unfold bodyWeight at h
    omega
  unfold compileProgram?
  dsimp only
  rw [offset?_eq_some hid]
  cases hfailure : (checkProgram Scope.root p).failure with
  | some e =>
    have hanalyse : analyse Scope.root p = .error (.unplaced e) := by
      unfold analyse
      dsimp only
      rw [hfailure]
    rw [hanalyse]
    rfl
  | none =>
    have hanalyse : analyse Scope.root p = .ok (checkProgram Scope.root p).tree := by
      unfold analyse
      dsimp only
      rw [hfailure]
    dsimp only [Option.bind_some]
    rw [hanalyse, offset?_eq_some (Nat.lt_of_le_of_lt (next_lowerBody hanalyse) h)]
    rfl

theorem compileWithin?_eq_some {source : String} (file : String)
    (h : byteLength source.toList < offsetBound) :
    compileWithin? source file = some (compileSource Scope.root source file .standard) := by
  have htokens : tokensFrom? source.toList file 0 = some (scan source file) :=
    tokensFrom?_eq_some file [] source.toList h
  unfold compileWithin? compileSource analyseSource
  rw [htokens]
  cases hscan : scan source file with
  | error d =>
    unfold parseSource
    rw [hscan]
    rfl
  | ok ts =>
    have hsource : parseSource source file = parse ts file := by
      unfold parseSource
      rw [hscan]
      rfl
    rw [hsource]
    dsimp only [Option.bind_some]
    cases hparse : parse ts file with
    | error d => rfl
    | ok p =>
      have hp := hsource.trans hparse
      exact compileProgram?_eq_some (wellFormed_of_parseSource hp) (weight_lt hp h)

/-- Below the bound no step fails.  The whole compilation returns what it returns without checks; the
parser reads each token at an index of the token list; declarations find the types of their values, and
written types their arguments, in every scope. -/
theorem compile_stays_in_range {source : String} (file : String)
    (h : byteLength source.toList < offsetBound) :
    compileWithin? source file = some (compileSource Scope.root source file .standard) ∧
    (∀ ts, scan source file = .ok ts → ∀ n, Cursor.index ts n < ts.length ∧
      ts[Cursor.index ts n]? = some ((Cursor.ofTokens ts file).after n).current) ∧
    (∀ constant ds values c,
      checkDeclaration? constant ds values c = some ((Stmt.declare constant ds values).check c)) ∧
    ∀ s t, TypeTerm.resolve? s t = some (t.resolve s) := by
  refine ⟨compileWithin?_eq_some file h, fun ts hscan n => ?_, checkDeclaration?_eq_some,
    TypeTerm.resolve?_eq_some⟩
  have htoken := (Cursor.ofTokens ts file).getElem?_index n
  rw [tokens_ofTokens (Reader.tiles [] [] (.inl .nil) hscan).endsWithEof file] at htoken
  exact ⟨(List.getElem?_eq_some_iff.mp htoken).1, htoken⟩

theorem compile_stays_in_range_accent : byteLength "let x = \"é\";".toList < offsetBound ∧
    compileWithin? "let x = \"é\";" "main.sc"
      = some (compileSource Scope.root "let x = \"é\";" "main.sc" .standard) :=
  have h : byteLength "let x = \"é\";".toList < offsetBound := by decide
  ⟨h, (compile_stays_in_range "main.sc" h).1⟩

end TypedScript
