import TypedScript.Proofs.OutputScopes

/-!
# Waiting in compiled programs

The check lets the default of a parameter wait if the function around the declaration is asynchronous.
In the output the default stands in the list of parameters, where it waits on behalf of another function.
All other words of the output that wait stand in the body of an asynchronous function.
-/

namespace TypedScript

open Script (View Occurrence Region bodyOccurrences)
open List

variable {ν : DeclId → String} {v : View}

/-! ## lists of parameters -/

/-- the place stands in a list of parameters -/
def Script.View.inHeader (v : View) : Bool :=
  match v.around with
  | .params _ :: _ => true
  | _ => false

/-- no list of parameters waits -/
def PlainHeaders (os : List Occurrence) : Prop := ∀ o ∈ os, o.word = "await" → o.inHeader = false

/-- the default of a parameter waits -/
def Site.awaits : Site → Bool
  | .parameter p => p.default.any Expr.awaits
  | _ => false

/-- words of a script and sites of a program: no list of parameters waits there if and only if no
default does here -/
def HeadersAgree (os : List Occurrence) (ds : List Site) : Prop :=
  PlainHeaders os ↔ ∀ d ∈ ds, d.awaits = false

theorem plainHeaders_at (hv : v.inHeader = false) (ws : List String) : PlainHeaders (v.at ws) :=
  forall_mem_map.mpr fun _ _ _ => hv

namespace HeadersAgree

variable {os os' : List Occurrence} {ds ds' : List Site}

theorem append (h : HeadersAgree os ds) (h' : HeadersAgree os' ds') :
    HeadersAgree (os ++ os') (ds ++ ds') := by
  unfold HeadersAgree PlainHeaders
  rw [forall_mem_append, forall_mem_append]
  exact and_congr h h'

theorem swap (h : HeadersAgree os ds) (h' : HeadersAgree os' ds') :
    HeadersAgree (os ++ os') (ds' ++ ds) := by
  unfold HeadersAgree PlainHeaders
  rw [forall_mem_append, forall_mem_append]
  exact (and_congr h h').trans and_comm

theorem of_plain (h : PlainHeaders os) : HeadersAgree os [] := iff_of_true h (forall_mem_nil _)

theorem words (hv : v.inHeader = false) (ws : List String) : HeadersAgree (v.at ws) [] :=
  .of_plain (plainHeaders_at hv ws)

theorem behind (h : PlainHeaders os) (h' : HeadersAgree os' ds) : HeadersAgree (os ++ os') ds :=
  (of_plain h).append h'

theorem site {d : Site} (h : HeadersAgree os ds) (hd : d.awaits = false) : HeadersAgree os (d :: ds) := by
  unfold HeadersAgree
  rw [forall_mem_cons]
  exact h.trans (and_iff_right hd).symm

theorem one {s : Script.Stmt} (h : HeadersAgree (s.occurrences v) ds) :
    HeadersAgree (bodyOccurrences v [s]) ds := by
  rw [Script.bodyOccurrences, Script.bodyOccurrences, append_nil]
  exact h

end HeadersAgree

/-! ## parameters -/

theorem plainHeaders_default {p : Parameter} (hlegible : (p.named ν).Legible) (hv : v.inHeader = true) :
    PlainHeaders (v.at ((p.named ν).default.elim [] Script.Expr.words)) ↔
      (Site.parameter p).awaits = false := by
  have hdefault : ∀ e ∈ p.default.map (Expr.named ν), e.Legible := hlegible.default
  show PlainHeaders (v.at ((p.default.map (Expr.named ν)).elim [] Script.Expr.words)) ↔
    p.default.any Expr.awaits = false
  cases hd : p.default with
  | none => exact iff_of_true nofun rfl
  | some e =>
    rw [hd] at hdefault
    have hawaits := e.await_mem_words (hdefault _ rfl)
    refine forall_mem_map.trans ?_
    show (∀ w ∈ (e.named ν).words, w = "await" → v.inHeader = false) ↔ e.awaits = false
    rw [hv, ← Bool.not_eq_true e.awaits, ← hawaits]
    exact ⟨fun h hmem => Bool.false_ne_true (h "await" hmem rfl).symm,
      fun h w hw hawait => absurd (hawait ▸ hw) h⟩

theorem headersAgree_params {ps : List Parameter}
    (hlegible : ∀ p ∈ ps.map (Parameter.named ν), p.Legible) (hv : v.inHeader = true) :
    HeadersAgree (Script.paramOccurrences v (ps.map (Parameter.named ν))) (ps.map Site.parameter) := by
  induction ps generalizing v with
  | nil => exact .of_plain nofun
  | cons p ps ih =>
    obtain ⟨hp, hps⟩ := forall_mem_cons.mp hlegible
    have hdefault := plainHeaders_default (v := v.bind (p.named ν).name) hp hv
    have hrest := ih (v := v.bind (p.named ν).name) hps hv
    unfold HeadersAgree PlainHeaders
    rw [map_cons, map_cons, Script.paramOccurrences, forall_mem_append,
      forall_mem_cons]
    exact and_congr hdefault hrest

/-! ## statements -/

theorem headersAgree_members {ps : List Parameter} {fields methods : List String}
    (hlegible : ∀ p ∈ ps.map (Parameter.named ν), p.Legible) (hv : v.inHeader = false) :
    HeadersAgree (bodyOccurrences v (.constructor name (ps.map (Parameter.named ν)) fields ::
      methods.map (.attach name))) (ps.map Site.parameter) := by
  have hmethods : PlainHeaders (bodyOccurrences v (methods.map (.attach name))) := by
    induction methods with
    | nil => exact nofun
    | cons m methods ih => exact forall_mem_append.mpr ⟨plainHeaders_at hv _, ih⟩
  have hfields : HeadersAgree (((v.inside (.body false)).bindAll ((ps.map (Parameter.named ν)).map
      Script.Param.name)).at (fields.flatMap fun f => ["this", f, f])) [] := .words rfl _
  have hconstructor := (headersAgree_params (v := v.inside (.params false)) hlegible rfl).append hfields
  have hall := hconstructor.append (.of_plain hmethods)
  rw [append_nil, append_nil] at hall
  exact hall

theorem headersAgree_declare (hv : v.inHeader = false) (constant : Bool) (ds : List Declarator)
    (values : List Script.Expr) :
    HeadersAgree (Script.Stmt.occurrences v (.declare constant (ds.map (Declarator.label ν)) values))
      (ds.map (Site.variable constant)) :=
  iff_of_true (plainHeaders_at (v := v.bindAll (ds.map (Declarator.label ν))) hv _)
    (forall_mem_map.mpr fun _ _ => rfl)

theorem plainHeaders_return (hv : v.inHeader = false) (value : Option Script.Expr) :
    PlainHeaders (Script.Stmt.occurrences v (.returnValue value)) := by
  cases value with
  | none | some e => exact plainHeaders_at hv _

theorem plainHeaders_evaluation (hv : v.inHeader = false) (scrutinee : Expr) (e : Script.Expr) :
    PlainHeaders (bodyOccurrences v (Stmt.lower.evaluation scrutinee e)) := by
  unfold Stmt.lower.evaluation
  split
  · exact nofun
  · exact forall_mem_append.mpr ⟨plainHeaders_at hv _, nofun⟩

-- a place in a block, and behind names that are bound, is in a list of parameters if its surroundings are
mutual

theorem Stmt.Lowers.headersAgree {s : Stmt} {v : View} (h : s.Lowers ν ss) (hlegible : Script.BodyLegible ss)
    (hv : v.inHeader = false) : HeadersAgree (bodyOccurrences v ss) s.sites := by
  match h with
  | .expression | .assign | .breakLoop | .continueLoop | .print => exact .one (.words hv _)
  | .declare => exact .one (headersAgree_declare hv _ _ _)
  | .function hbody =>
    obtain ⟨⟨_, hparams, hlegible⟩, _⟩ := hlegible
    refine .one (.site (.append (headersAgree_params hparams ?_)
      (hbody.headersAgree hlegible ?_)) ?_) <;> rfl
  | .classDef hbody =>
    obtain ⟨hlegible, hmembers⟩ := bodyLegible_split hlegible
    rw [Script.bodyOccurrences_append]
    refine .site (.swap (hbody.headersAgree hlegible hv) (headersAgree_members hmembers.1.2.1 ?_)) rfl
    exact hv
  | .conditional hgs ho =>
    obtain ⟨⟨_, hgsLegible, hoLegible⟩, _⟩ := hlegible
    exact .one (.append (hgs.headersAgree_branches hgsLegible hv _) (ho.headersAgree hoLegible hv))
  | .whileLoop hbody =>
    refine .one (.behind (plainHeaders_at hv _) (hbody.headersAgree hlegible.1.2 ?_))
    exact hv
  | .forLoop hbody =>
    obtain ⟨⟨_, _, _, _, _, hlegible⟩, _⟩ := hlegible
    refine .one (.site (.behind (plainHeaders_at ?_ _) (hbody.headersAgree hlegible ?_)) rfl) <;> exact hv
  | .rangeLoop _ hbody =>
    obtain ⟨⟨_, _, _, _, _, hlegible⟩, _⟩ := hlegible
    refine .one (.behind (plainHeaders_at ?_ _) (hbody.headersAgree hlegible ?_)) <;> exact hv
  | .switch hgs ho =>
    obtain ⟨_, ⟨hgsLegible, hoLegible⟩, _⟩ := bodyLegible_split hlegible
    rw [Script.bodyOccurrences_append]
    refine .behind (plainHeaders_evaluation hv _ _) (.one (.behind (plainHeaders_at ?_ _)
      (.append (hgs.headersAgree_cases hgsLegible ?_) (ho.headersAgree_default hoLegible ?_)))) <;> exact hv
  | .returnValue => exact .one (.of_plain (plainHeaders_return hv _))
  | .block hbody =>
    refine .one (hbody.headersAgree hlegible.1 ?_)
    exact hv

theorem BodyLowers.headersAgree {v : View} (h : BodyLowers ν body ss) (hlegible : Script.BodyLegible ss)
    (hv : v.inHeader = false) : HeadersAgree (bodyOccurrences v ss) (bodySites body) := by
  match h with
  | .nil => exact .of_plain nofun
  | .cons hs hbody =>
    obtain ⟨hsLegible, hbodyLegible⟩ := bodyLegible_split hlegible
    rw [Script.bodyOccurrences_append]
    refine .append (hs.headersAgree hsLegible hv) (hbody.headersAgree hbodyLegible ?_)
    exact hv

theorem BranchesLower.headersAgree_branches {branches : List (Script.Guarded Script.Stmt)} {v : View}
    (h : BranchesLower ν gs branches) (hlegible : Script.BranchesLegible branches) (hv : v.inHeader = false)
    (opening : List String) :
    HeadersAgree (Script.branchOccurrences v opening branches) (branchSites gs) := by
  match h with
  | .nil => exact .of_plain nofun
  | .cons hbody hgs =>
    obtain ⟨_, hbodyLegible, hgsLegible⟩ := hlegible
    refine .behind (plainHeaders_at hv _) (.append (hbody.headersAgree hbodyLegible ?_)
      (hgs.headersAgree_branches hgsLegible hv _))
    exact hv

theorem OtherwiseLowers.headersAgree {v : View} (h : OtherwiseLowers ν o otherwise)
    (hlegible : Script.OtherwiseLegible otherwise) (hv : v.inHeader = false) :
    HeadersAgree (Script.otherwiseOccurrences v otherwise) (otherwiseSites o) := by
  match h with
  | .none => exact .of_plain nofun
  | .some hbody =>
    refine .behind (plainHeaders_at hv _) (hbody.headersAgree hlegible ?_)
    exact hv

theorem BranchesLower.headersAgree_cases {v : View} (h : BranchesLower ν gs cases)
    (hlegible : Script.BranchesLegible cases) (hv : v.inHeader = false) :
    HeadersAgree (Script.caseOccurrences v cases) (branchSites gs) := by
  match h with
  | .nil => exact .of_plain nofun
  | .cons hbody hgs =>
    obtain ⟨_, hbodyLegible, hgsLegible⟩ := hlegible
    refine .behind (plainHeaders_at hv _) (.append (hbody.headersAgree hbodyLegible hv)
      (.behind (plainHeaders_at ?_ _) (hgs.headersAgree_cases hgsLegible ?_))) <;> exact hv

theorem OtherwiseLowers.headersAgree_default {v : View} (h : OtherwiseLowers ν o otherwise)
    (hlegible : Script.OtherwiseLegible otherwise) (hv : v.inHeader = false) :
    HeadersAgree (Script.defaultOccurrences v otherwise) (otherwiseSites o) := by
  match h with
  | .none => exact .of_plain nofun
  | .some hbody => exact .behind (plainHeaders_at hv _) (hbody.headersAgree hlegible hv)

end

/-! ## programs -/

theorem inHeader_of_head? (h : v.around.head? = some (.body true)) : v.inHeader = false := by
  unfold Script.View.inHeader
  cases haround : v.around with
  | nil => rfl
  | cons r rs =>
    rw [haround] at h
    cases h
    rfl

theorem inHeader_of_take (h : v.around.take 2 = [.params a, .body true]) : v.inHeader = true := by
  unfold Script.View.inHeader
  cases haround : v.around with
  | nil => rw [haround] at h; exact nomatch h
  | cons r rs =>
    rw [haround] at h
    cases (List.cons.inj h).1
    rfl

/-- What waits in a compiled program.  Read word by word, the output waits only in the body of an
asynchronous function, and in lists of parameters right inside of one.  The lists do not wait, so that
every word that waits stands in such a body with no part of another function between them, if and only
if no parameter of the program has a default that waits. -/
theorem compile_awaits_in_async_bodies_iff {source file : String} {options : Options} {q : Program}
    {text : String} (h : analyseSource Scope.root source file = .ok q)
    (hcompile : compile options q = .ok text) :
    ∃ os, Script.occurrences text = some os ∧ (∀ o ∈ os, o.word = "await" → MayAwait o.around) ∧
      ((∀ o ∈ os, o.word = "await" → o.around.head? = some (.body true)) ↔
        ∀ p, .parameter p ∈ bodySites q → ∀ e ∈ p.default, e.awaits = false) := by
  obtain ⟨p, hp, hanalyse⟩ := analyseSource_eq_ok h
  obtain ⟨ν, hlowers, hlegible⟩ := exists_naming hp hanalyse
  have hsound := sound_of_analyse hp hanalyse
  have hagree : HeadersAgree (scriptOccurrences q) (bodySites q) := hlowers.headersAgree hlegible rfl
  refine ⟨_, occurrences_of_compile hp hanalyse hcompile, fun o ho => (hsound o ho).waits, ?_, ?_⟩
  · intro hbodies p hp e he
    have hplain := hagree.mp fun o ho hawait => inHeader_of_head? (hbodies o ho hawait)
    have hdefault : p.default.any Expr.awaits = false := hplain (.parameter p) hp
    rw [show p.default = some e from he] at hdefault
    exact hdefault
  · intro hdefaults o ho hawait
    have hplain : o.inHeader = false := by
      refine hagree.mpr (fun d hd => ?_) o ho hawait
      cases d with
      | parameter p =>
        show p.default.any Expr.awaits = false
        cases he : p.default with
        | none => rfl
        | some e => exact hdefaults p hd e he
      | «variable» | function | classDef => rfl
    rcases (hsound o ho).waits hawait with hbody | ⟨a, hheader⟩
    · exact hbody
    · exact absurd (inHeader_of_take hheader) (by rw [hplain]; exact Bool.false_ne_true)

/-- a default that does not wait, and calls that do -/
theorem compile_awaits_in_async_bodies_iff_plain :
    let source := "async fn f(x: int = 1) -> int \x7b return x; \x7d " ++
      "async fn g() \x7b print str(await f()); \x7d"
    let text := "async function f_1(x_2 = 1) \x7b\n    return x_2;\n\x7d\nasync function g_3() \x7b\n" ++
      "    console.log(String((await f_1())));\n\x7d\n"
    ∃ q os, analyseSource Scope.root source "" = .ok q ∧ compile Options.standard q = .ok text ∧
      Script.occurrences text = some os ∧
      (os.filter (·.word = "await")).map (·.around) = [[.body true]] ∧
      ∀ p, .parameter p ∈ bodySites q → ∀ e ∈ p.default, e.awaits = false := by
  intro source text
  have hcompiled : compileSource Scope.root source "" Options.standard = .ok text :=
    eq_ok_of_toOption (by decide +kernel)
  obtain ⟨q, h, hcompile⟩ := compileSource_eq_ok hcompiled
  obtain ⟨os, hos, _, hiff⟩ := compile_awaits_in_async_bodies_iff h hcompile
  have hwaits : (Script.occurrences text).map (fun os => (os.filter (·.word = "await")).map (·.around))
      = some [[.body true]] := by decide +kernel
  rw [hos] at hwaits
  have haround : (os.filter (·.word = "await")).map (·.around) = [[.body true]] := Option.some.inj hwaits
  refine ⟨q, os, h, hcompile, hos, haround, hiff.mp fun o ho hawait => ?_⟩
  have hmem : o.around ∈ (os.filter (·.word = "await")).map (·.around) :=
    mem_map_of_mem (mem_filter.mpr ⟨ho, decide_eq_true hawait⟩)
  rw [haround, mem_singleton] at hmem
  rw [hmem]
  rfl

/-- the default of the parameter of `h` waits, in a list of parameters of a function that does not -/
theorem compile_default_awaits_in_header :
    let source := "async fn f() -> int \x7b return 1; \x7d " ++
      "async fn g() \x7b fn h(x: int = await f()) \x7b \x7d \x7d"
    let text := "async function f_1() \x7b\n    return 1;\n\x7d\nasync function g_2() \x7b\n" ++
      "    function h_3(x_4 = (await f_1())) \x7b\n    \x7d\n\x7d\n"
    compileSource Scope.root source "" Options.standard = .ok text ∧
      ∃ os, Script.occurrences text = some os ∧
        (os.filter (·.word = "await")).map (·.around) = [[.params false, .body true]] := by
  intro source text
  have hcompiled : compileSource Scope.root source "" Options.standard = .ok text :=
    eq_ok_of_toOption (by decide +kernel)
  have hwaits : (Script.occurrences text).map (fun os => (os.filter (·.word = "await")).map (·.around))
      = some [[.params false, .body true]] := by decide +kernel
  obtain ⟨os, hos, haround⟩ := Option.map_eq_some_iff.mp hwaits
  exact ⟨hcompiled, os, hos, haround⟩

end TypedScript
