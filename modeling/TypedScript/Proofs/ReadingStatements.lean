import TypedScript.Proofs.ReadingExpressions

/-!
# Reading statements and programs

Every statement is read as itself, and with it every program.  As for expressions, a rule reads the
statements inside it by the reader one level below, so `reads_statementAt` goes by induction on the
level.  A conditional goes on with a token `else`, so that token must not follow a statement; no
statement starts with it.

* `reads_statementAt`: a statement is read as itself;
* `reads_program`: a list of statements is read as itself up to the end marker.
-/

namespace TypedScript

open TypedScript.Parser List

/-! ## parts of declarations -/

theorem reads_typeAfter (m : Mark) (h : ∀ t ∈ written, t.WellFormed) :
    Reads (typeAfter .standard m) (typeLexemes m written) written fun k => k ≠ .mark m ∧ endsType k := by
  cases written with
  | none => exact reads_refuse _ (reads_pure none _) fun k hk => hk.1
  | some t =>
    have ht := (reads_typeTerm (h t rfl)).mono (Q := fun k => k ≠ .mark m ∧ endsType k)
      fun k hk => hk.2
    exact reads_accept m.lexeme (ht.last some)

def endsDeclarator (k : TokenKind) : Prop := k ≠ .mark .colon ∧ endsType k

instance : DecidablePred endsDeclarator := fun _ => inferInstanceAs (Decidable (_ ∧ _))

theorem reads_declarator {d : Declarator} (hd : d.WellFormed) :
    Reads (declarator .standard) d.lexemes d endsDeclarator := by
  obtain ⟨x, written, id, type⟩ := d
  obtain rfl : id = none := hd.id
  obtain rfl : type = none := hd.type
  refine reads_expectOr (nameLexeme x) _ fun t ht => ?_
  obtain rfl : t.value = x := congrArg Prod.snd ht
  exact (reads_typeAfter .colon hd.written).last fun w => (⟨t.value, w, none, none⟩ : Declarator)

def endsParameter (k : TokenKind) : Prop := k ≠ .mark .assignment ∧ endsType k ∧ endsAt .base k

instance : DecidablePred endsParameter := fun _ => inferInstanceAs (Decidable (_ ∧ _))

theorem reads_parameter {p : Parameter} (hp : p.WellFormed) :
    Reads (parameter .standard) p.lexemes p endsParameter := by
  obtain ⟨x, written, default, id, type⟩ := p
  obtain rfl : id = none := hp.id
  obtain rfl : type = none := hp.type
  have hassign : endsType (.mark .assignment) := by decide
  refine reads_expectOr (nameLexeme x) _ fun t ht => reads_expectOr Mark.colon.lexeme _ fun _ _ => ?_
  obtain rfl : t.value = x := congrArg Prod.snd ht
  cases default with
  | none =>
    refine (reads_typeTerm hp.written).bind ?_ fun k hk => hk.2.1
    exact reads_refuse _ (reads_pure _ endsParameter) fun k hk => hk.1
  | some e =>
    refine (reads_typeTerm hp.written).bind (reads_accept Mark.assignment.lexeme ?_) fun _ _ => hassign
    have he := (reads_expression (hp.default e rfl)).mono (Q := endsParameter) fun k hk => hk.2.2
    exact (he.map some).last fun d => (⟨t.value, written, d, none, none⟩ : Parameter)

theorem reads_parameters (h : ∀ p ∈ ps, p.WellFormed) (P : TokenKind → Prop) :
    Reads (parameters .standard) (parameterLexemes ps) ps P := by
  have hname : TokenKind.identifier ≠ .mark .closeParen := by decide
  have hps := reads_commaTerminated (.mark .closeParen)
    "expected `,` or `)` after parameter" ps (fun p hp => reads_parameter (h p hp)) (by decide)
    (by decide) (by decide) (fun p _ => ⟨nameLexeme p.name, _, rfl, hname⟩)
  refine reads_expect Mark.openParen.lexeme fun _ _ => ?_
  exact hps.bind (reads_expect Mark.closeParen.lexeme fun _ _ => reads_pure ps P) fun _ _ => rfl

/-! ## first tokens -/

variable {k : TokenKind} {s : Stmt}

/-- a token of this kind starts a statement -/
def opens (k : TokenKind) : Prop := (Grammar.standard.statement k).isSome = true ∨ leads k

instance : DecidablePred opens := fun _ => inferInstanceAs (Decidable (_ ∨ _))

theorem opens_ne (hk : opens k) (hk' : ¬ opens k') : k ≠ k' :=
  fun h => hk' (h ▸ hk)

theorem inCase_of_opens (hk : opens k) : inCase k = true := by
  have hcase : ¬ opens (.keyword .kwCase) := by decide
  have hdefault : ¬ opens (.keyword .kwDefault) := by decide
  have hclose : ¬ opens (.mark .closeCurly) := by decide
  have heof : ¬ opens .eof := by decide
  unfold inCase
  split
  · exact absurd hk hcase
  · exact absurd hk hdefault
  · exact absurd hk hclose
  · exact absurd hk heof
  · rfl

theorem statement_of_leads (hk : leads k) (hne : k ≠ .mark .openCurly) :
    Grammar.standard.statement k = none := by
  cases k with
  | keyword w => cases w <;> first | rfl | exact absurd hk (by decide)
  | mark m => cases m <;> first | rfl | exact absurd rfl hne
  | _ => rfl

/-- a token of this kind starts an expression and announces no statement -/
def leadsPlain (k : TokenKind) : Prop := leads k ∧ Grammar.standard.statement k = none

theorem Expr.starts_firstLexemes {e : Expr} (he : e.WellFormed) : Starts leadsPlain e.firstLexemes := by
  obtain ⟨l, w, hw, hl⟩ := e.starts he
  unfold Expr.firstLexemes
  rw [hw]
  split
  · exact ⟨Mark.openParen.lexeme, _, rfl, by decide, rfl⟩
  · next h => exact ⟨l, w, rfl, hl, statement_of_leads hl fun hk => h (congrArg some hk)⟩

theorem starts_targetLexemes (hne : targets ≠ []) (h : ∀ e ∈ targets, e.WellFormed) :
    Starts leadsPlain (targetLexemes targets) := by
  cases targets with
  | nil => exact absurd rfl hne
  | cons t ts =>
    rw [targetLexemes, commas_cons]
    exact (t.starts_firstLexemes (h t mem_cons_self)).append _

theorem starts_branchLexemes (l : Lexeme) {branches : List (Guarded Stmt)} (hne : branches ≠ []) :
    Starts (· = l.1) (branchLexemes [l] branches) := by
  cases branches with
  | nil => exact absurd rfl hne
  | cons b bs => exact ⟨l, _, rfl, rfl⟩

theorem Stmt.starts (hs : s.WellFormed) : Starts opens s.lexemes := by
  cases hs with
  | expression he => exact ((Expr.starts_firstLexemes he).mono fun k hk => .inr hk.1).append _
  | @declare constant ds values _ _ _ => cases constant <;> exact ⟨_, _, rfl, by decide⟩
  | assign hne _ ht _ => exact ((starts_targetLexemes hne ht).mono fun k hk => .inr hk.1).append _
  | @function h body _ _ =>
    obtain ⟨x, id, ps, returns, async⟩ := h
    cases async <;> exact ⟨_, _, rfl, by decide⟩
  | @conditional branches otherwise hne _ _ _ =>
    have hif : opens (.keyword .kwIf) := by decide
    exact ((starts_branchLexemes Keyword.kwIf.lexeme hne).mono fun k hk => hk ▸ hif).append _
  | @returnValue value _ => cases value <;> exact ⟨_, _, rfl, by decide⟩
  | _ => exact ⟨_, _, rfl, by decide⟩

/-! ## bodies -/

section
variable {inner : Parser Stmt}

def notElse (k : TokenKind) : Prop := k ≠ .keyword .kwElse

/-- what is asked of the statements inside a statement -/
def ReadsStatement (inner : Parser Stmt) (s : Stmt) : Prop :=
  Reads inner s.lexemes s notElse ∧ Starts opens s.lexemes

theorem reads_body (body : List Stmt) (h : ∀ s ∈ body, ReadsStatement item s)
    (hallows : ∀ k, opens k → allows k = true) :
    Reads (many allows item) (bodyLexemes body) body fun k => allows k = false ∧ notElse k := by
  have helse : ¬ opens (.keyword .kwElse) := by decide
  rw [bodyLexemes_eq_flatMap]
  refine reads_many body (fun s hs => (h s hs).1) fun s hs => ?_
  exact (h s hs).2.mono fun k hk => ⟨hallows k hk, opens_ne hk helse⟩

theorem reads_block (h : ∀ s ∈ body, ReadsStatement inner s) (P : TokenKind → Prop) :
    Reads (block inner) (inCurly (bodyLexemes body)) body P := by
  have hclose : ¬ opens (.mark .closeCurly) := by decide
  have heof : ¬ opens .eof := by decide
  refine reads_expectOr Mark.openCurly.lexeme _ fun _ _ => ?_
  refine (reads_body body ?_ fun k hk => bne_iff_ne.mpr (opens_ne hk hclose)).bind
    (reads_expect Mark.closeCurly.lexeme fun _ _ => reads_pure body P)
    fun _ _ => ⟨rfl, (by decide : TokenKind.mark .closeCurly ≠ .keyword .kwElse)⟩
  intro s hs
  refine ⟨reads_peek fun k hk => ?_, (h s hs).2⟩
  have hne : kindBefore s.lexemes k ≠ .eof := opens_ne ((h s hs).2.kindBefore k) heof
  rw [if_neg hne]
  exact (h s hs).1.mono fun k' hk' => hk' ▸ hk

theorem reads_caseBody (h : ∀ s ∈ body, ReadsStatement inner s) :
    Reads (caseBody inner) (bodyLexemes body) body fun k => inCase k = false := by
  refine (reads_body body h fun k hk => inCase_of_opens hk).mono fun k hk => ⟨hk, ?_⟩
  rintro rfl
  exact Bool.noConfusion hk

/-! ## statements -/

variable {values : List Expr} {otherwise : Option (List Stmt)} {branches : List (Guarded Stmt)}

theorem reads_declaration (constant : Bool) (hne : ds ≠ []) (hds : ∀ d ∈ ds, d.WellFormed)
    (hvs : ∀ e ∈ values, e.WellFormed) (P : TokenKind → Prop) :
    Reads (declaration .standard) (Stmt.declare constant ds values).lexemes
      (.declare constant ds values) P := by
  have hcomma : endsDeclarator (.mark .comma) := by decide
  have hassign : TokenKind.mark .assignment ≠ .mark .comma ∧ endsDeclarator (.mark .assignment) := by
    decide
  have hsemi : TokenKind.mark .semicolon ≠ .mark .comma ∧ endsDeclarator (.mark .semicolon) := by
    decide
  have hd := reads_commaSeparated hne (fun d hd => reads_declarator (hds d hd)) hcomma
  have hconst : ∀ t : Token, t.lexeme = (if constant then Keyword.kwConst.lexeme else Keyword.kwLet.lexeme) →
      (t.kind == .keyword .kwConst) = constant := by
    intro t ht
    cases constant <;> exact congrArg (fun l : Lexeme => l.1 == .keyword .kwConst) ht
  refine reads_token _ fun t ht => ?_
  rw [hconst t ht]
  cases values with
  | nil =>
    refine hd.bind (reads_refuse _ ?_ ?_) fun _ _ => hsemi
    · exact (reads_pure [] anyKind).skip
        (reads_expect Mark.semicolon.lexeme fun _ _ => reads_pure _ P) fun _ _ => trivial
    · exact fun _ _ => (by decide : TokenKind.mark .semicolon ≠ .mark .assignment)
  | cons v vs =>
    refine hd.bind (reads_accept Mark.assignment.lexeme ?_) fun _ _ => hassign
    have hv := reads_commaSeparated (cons_ne_nil v vs) (fun e he => reads_expression (hvs e he)) rfl
    exact hv.bind (reads_expect Mark.semicolon.lexeme fun _ _ => reads_pure _ P)
      fun _ _ => ⟨hsemi.1, rfl⟩

theorem reads_functionDeclaration {h : FunctionHead} (hh : h.WellFormed)
    (hb : ∀ s ∈ body, ReadsStatement inner s) (P : TokenKind → Prop) :
    Reads (functionDeclaration .standard inner) (Stmt.function h body).lexemes (.function h body) P := by
  obtain ⟨x, id, ps, returns, async⟩ := h
  obtain rfl : id = none := hh.id
  have hopen : TokenKind.mark .openCurly ≠ .mark .arrow ∧ endsType (.mark .openCurly) := by decide
  have hrest : Reads (do
      let _ ← expect (.keyword .kwFn)
      let name ← expectOr .identifier "expected function name"
      let ps ← parameters .standard
      let returns ← typeAfter .standard .arrow
      let body ← block inner
      return .function ⟨name.value, none, ps, returns, async⟩ body : Parser Stmt)
      (Keyword.kwFn.lexeme :: nameLexeme x ::
        (parameterLexemes ps ++ (typeLexemes .arrow returns ++ inCurly (bodyLexemes body))))
      (.function ⟨x, none, ps, returns, async⟩ body) P := by
    refine reads_expect Keyword.kwFn.lexeme fun _ _ => reads_expectOr (nameLexeme x) _ fun t ht => ?_
    obtain rfl : t.value = x := congrArg Prod.snd ht
    refine (reads_parameters hh.parameters anyKind).bind ?_ fun _ _ => trivial
    refine (reads_typeAfter .arrow hh.returns).bind ?_ fun _ _ => hopen
    exact (reads_block hb P).last fun b => Stmt.function ⟨t.value, none, ps, returns, async⟩ b
  rw [Stmt.lexemes, FunctionHead.lexemes, append_assoc, cons_append, cons_append,
    append_assoc]
  cases async with
  | true => exact reads_accept Keyword.kwAsync.lexeme hrest
  | false =>
    exact reads_refuse _ hrest fun _ _ => (by decide : TokenKind.keyword .kwFn ≠ .keyword .kwAsync)

theorem reads_classDeclaration {h : ClassHead} (hh : h.WellFormed) (hb : ∀ s ∈ body, ReadsStatement inner s)
    (P : TokenKind → Prop) :
    Reads (classDeclaration .standard inner) (Stmt.classDef h body).lexemes (.classDef h body) P := by
  obtain ⟨x, id, ps⟩ := h
  obtain rfl : id = none := hh.id
  have hblock : ∀ Q, Reads (do
      let body ← block inner
      return .classDef ⟨x, none, ps⟩ body : Parser Stmt) (inCurly (bodyLexemes body))
      (.classDef ⟨x, none, ps⟩ body) Q := fun Q =>
    (reads_block hb Q).last fun b => Stmt.classDef ⟨x, none, ps⟩ b
  refine reads_expect Keyword.kwClass.lexeme fun _ _ => reads_expectOr (nameLexeme x) _ fun t ht => ?_
  obtain rfl : t.value = x := congrArg Prod.snd ht
  refine reads_peek fun k hk => ?_
  cases ps with
  | nil => exact (reads_pure [] anyKind).skip (hblock _) fun _ _ => trivial
  | cons p ps =>
    have hps := reads_parameters hh.parameters anyKind
    exact hps.bind (hblock _) fun _ _ => trivial

theorem reads_branch {guard : Expr} (hg : guard.WellFormed) (hb : ∀ s ∈ body, ReadsStatement inner s)
    (P : TokenKind → Prop) :
    Reads (branch .standard inner) (guard.lexemes ++ inCurly (bodyLexemes body)) ⟨guard, body⟩ P := by
  refine (reads_expression hg).bind ?_ fun _ _ => rfl
  exact (reads_block hb P).last fun b => (⟨guard, b⟩ : Guarded Stmt)

theorem reads_branchesAt (hg : ∀ b ∈ branches, b.guard.WellFormed)
    (hb : ∀ b ∈ branches, ∀ s ∈ b.body, ReadsStatement inner s)
    (ho : ∀ body ∈ otherwise, ∀ s ∈ body, ReadsStatement inner s) (n : Nat) (hn : branches.length < n) :
    Reads (branchesAt .standard inner n)
      (branchLexemes [Keyword.kwElse.lexeme, Keyword.kwIf.lexeme] branches ++ elseLexemes otherwise)
      (branches, otherwise) notElse := by
  induction branches generalizing n with
  | nil =>
    obtain ⟨m, rfl⟩ : ∃ m, n = m + 1 := ⟨n - 1, by omega⟩
    cases otherwise with
    | none => exact reads_refuse _ (reads_pure _ notElse) fun k hk => hk
    | some body =>
      refine reads_accept Keyword.kwElse.lexeme (reads_refuse _ ?_ ?_)
      · exact (reads_block (ho body rfl) notElse).last fun b => (([], some b) : _ × _)
      · exact fun _ _ => (by decide : TokenKind.mark .openCurly ≠ .keyword .kwIf)
  | cons b bs ih =>
    obtain ⟨guard, body⟩ := b
    rw [length_cons] at hn
    obtain ⟨m, rfl⟩ : ∃ m, n = m + 1 := ⟨n - 1, by omega⟩
    have hfirst := reads_branch (hg _ mem_cons_self) (hb _ mem_cons_self) anyKind
    have hothers := ih (fun b' hb' => hg b' (mem_cons_of_mem _ hb'))
      (fun b' hb' => hb b' (mem_cons_of_mem _ hb')) m (by omega)
    rw [branchLexemes, ← append_assoc guard.lexemes, append_assoc, append_assoc]
    refine reads_accept Keyword.kwElse.lexeme (reads_accept Keyword.kwIf.lexeme ?_)
    refine hfirst.bind ?_ fun _ _ => trivial
    exact hothers.last fun r => ((⟨guard, body⟩ : Guarded Stmt) :: r.1, r.2)

theorem length_le_branchLexemes (opening : List Lexeme) (branches : List (Guarded Stmt)) :
    branches.length ≤ (branchLexemes opening branches).length := by
  induction branches generalizing opening with
  | nil => exact Nat.zero_le _
  | cons b bs ih =>
    obtain ⟨guard, body⟩ := b
    have := ih [Keyword.kwElse.lexeme, Keyword.kwIf.lexeme]
    rw [branchLexemes, inCurly]
    simp only [length_append, length_cons]
    omega

theorem reads_conditional (hne : branches ≠ []) (hg : ∀ b ∈ branches, b.guard.WellFormed)
    (hb : ∀ b ∈ branches, ∀ s ∈ b.body, ReadsStatement inner s)
    (ho : ∀ body ∈ otherwise, ∀ s ∈ body, ReadsStatement inner s) :
    Reads (conditional .standard inner) (Stmt.conditional branches otherwise).lexemes
      (.conditional branches otherwise) notElse := by
  cases branches with
  | nil => exact absurd rfl hne
  | cons b bs =>
    obtain ⟨guard, body⟩ := b
    have hfirst := reads_branch (hg _ mem_cons_self) (hb _ mem_cons_self) anyKind
    have hothers : Reads (fun c => branchesAt .standard inner c.bound c)
        (branchLexemes [Keyword.kwElse.lexeme, Keyword.kwIf.lexeme] bs ++ elseLexemes otherwise)
        (bs, otherwise) notElse := by
      intro ts rest last hts hk
      refine reads_branchesAt (fun b' hb' => hg b' (mem_cons_of_mem _ hb'))
        (fun b' hb' => hb b' (mem_cons_of_mem _ hb')) ho _ ?_ ts rest last hts hk
      have hlen := congrArg List.length hts
      have hbs := length_le_branchLexemes [Keyword.kwElse.lexeme, Keyword.kwIf.lexeme] bs
      show bs.length < (ts ++ rest).length + 1
      rw [length_map, length_append] at hlen
      rw [length_append]
      omega
    rw [Stmt.lexemes, branchLexemes, ← append_assoc guard.lexemes, append_assoc,
      append_assoc]
    refine reads_expect Keyword.kwIf.lexeme fun _ _ => hfirst.bind ?_ fun _ _ => trivial
    exact hothers.last fun r => Stmt.conditional (⟨guard, body⟩ :: r.1) r.2

theorem reads_whileStatement {condition : Expr} (hc : condition.WellFormed)
    (hb : ∀ s ∈ body, ReadsStatement inner s) (P : TokenKind → Prop) :
    Reads (whileStatement .standard inner) (Stmt.whileLoop condition body).lexemes
      (.whileLoop condition body) P := by
  refine reads_expect Keyword.kwWhile.lexeme fun _ _ => (reads_expression hc).bind ?_ fun _ _ => rfl
  exact (reads_block hb P).last fun b => Stmt.whileLoop condition b

/-! ## loops -/

variable {u : Update Expr}

theorem reads_loopChange (hu : u.WellFormed) : Reads (loopChange .standard) u.lexemes u (endsAt .base) := by
  have hminus : TokenKind.mark .minusMinus ≠ .mark .plusPlus := by decide
  have hplus : TokenKind.mark .plusEquals ≠ .mark .plusPlus
      ∧ TokenKind.mark .plusEquals ≠ .mark .minusMinus := by decide
  have hless : TokenKind.mark .minusEquals ≠ .mark .plusPlus
      ∧ TokenKind.mark .minusEquals ≠ .mark .minusMinus
      ∧ TokenKind.mark .minusEquals ≠ .mark .plusEquals := by decide
  cases u with
  | increment => exact reads_accept Mark.plusPlus.lexeme (reads_pure _ _)
  | decrement =>
    refine reads_refuse _ ?_ fun _ _ => hminus
    exact reads_accept Mark.minusMinus.lexeme (reads_pure _ _)
  | increase e =>
    refine reads_refuse _ (reads_refuse _ ?_ fun _ _ => hplus.2) fun _ _ => hplus.1
    exact reads_accept Mark.plusEquals.lexeme ((reads_expression hu).last Update.increase)
  | decrease e =>
    refine reads_refuse _ (reads_refuse _ (reads_refuse _ ?_ fun _ _ => hless.2.2)
      fun _ _ => hless.2.1) fun _ _ => hless.1
    exact reads_accept Mark.minusEquals.lexeme ((reads_expression hu).last Update.decrease)

theorem reads_loopUpdate (x : String) (hu : u.WellFormed) :
    Reads (loopUpdate .standard) (nameLexeme x :: u.lexemes) (.ofName x, u) (endsAt .base) := by
  refine reads_expectOr (nameLexeme x) _ fun t ht => ?_
  obtain rfl : t.value = x := congrArg Prod.snd ht
  exact (reads_loopChange hu).last fun u => (Symbol.ofName t.value, u)

theorem reads_forStatement_let {h : ForHead} (hh : h.WellFormed) (hb : ∀ s ∈ body, ReadsStatement inner s)
    (P : TokenKind → Prop) :
    Reads (forStatement .standard inner) (Stmt.forLoop h body).lexemes (.forLoop h body) P := by
  obtain ⟨index, init, test, ⟨x, resolution⟩, update⟩ := h
  obtain rfl : resolution = none := hh.target
  have hassign : endsDeclarator (.mark .assignment) := by decide
  rw [Stmt.lexemes, ForHead.lexemes, inParens]
  simp only [cons_append, append_assoc]
  refine reads_expect Keyword.kwFor.lexeme fun _ _ => reads_expect Mark.openParen.lexeme fun _ _ => ?_
  refine reads_accept Keyword.kwLet.lexeme ?_
  refine (reads_declarator hh.index).bind ?_ fun _ _ => hassign
  refine reads_expectOr Mark.assignment.lexeme _ fun _ _ => ?_
  refine (reads_expression hh.init).bind (reads_expect Mark.semicolon.lexeme fun _ _ => ?_) fun _ _ => rfl
  refine (reads_expression hh.test).bind (reads_expect Mark.semicolon.lexeme fun _ _ => ?_) fun _ _ => rfl
  refine (reads_loopUpdate x hh.update).bind (reads_expect Mark.closeParen.lexeme fun _ _ => ?_)
    fun _ _ => rfl
  exact (reads_block hb P).last fun b => Stmt.forLoop ⟨index, init, test, .ofName x, update⟩ b

theorem reads_forStatement_range {start stop : Expr} (hstart : start.WellFormed) (hstop : stop.WellFormed)
    (hb : ∀ s ∈ body, ReadsStatement inner s) (P : TokenKind → Prop) :
    Reads (forStatement .standard inner) (Stmt.rangeLoop start stop body).lexemes
      (.rangeLoop start stop body) P := by
  rw [Stmt.lexemes, inParens]
  simp only [cons_append, append_assoc]
  refine reads_expect Keyword.kwFor.lexeme fun _ _ => reads_expect Mark.openParen.lexeme fun _ _ => ?_
  refine reads_refuse _ ?_ fun k _ =>
    leads_ne (((start.starts hstart).append _).kindBefore k) (by decide)
  refine (reads_expression hstart).bind (reads_expectOr Mark.ellipsis.lexeme _ fun _ _ => ?_)
    fun _ _ => rfl
  refine (reads_expression hstop).bind (reads_expect Mark.closeParen.lexeme fun _ _ => ?_) fun _ _ => rfl
  exact (reads_block hb P).last fun b => Stmt.rangeLoop start stop b

/-! ## cases -/

variable {b : Guarded Stmt} {cases : List (Guarded Stmt)}

def oneCaseLexemes (b : Guarded Stmt) : List Lexeme :=
  Keyword.kwCase.lexeme :: (b.guard.lexemes ++ Mark.colon.lexeme :: bodyLexemes b.body)

theorem caseLexemes_eq_flatMap (cases : List (Guarded Stmt)) :
    caseLexemes cases = cases.flatMap oneCaseLexemes := by
  induction cases with
  | nil => rfl
  | cons b bs ih =>
    obtain ⟨guard, body⟩ := b
    rw [caseLexemes, ih, flatMap_cons, oneCaseLexemes, cons_append, append_assoc,
      cons_append]

theorem reads_switchCase (hg : b.guard.WellFormed) (hb : ∀ s ∈ b.body, ReadsStatement inner s) :
    Reads (switchCase .standard inner) (oneCaseLexemes b) b fun k => inCase k = false := by
  refine reads_token Keyword.kwCase.lexeme fun _ _ => ?_
  refine (reads_expression hg).bind (reads_expect Mark.colon.lexeme fun _ _ => ?_) fun _ _ => rfl
  exact (reads_caseBody hb).last fun body => (⟨b.guard, body⟩ : Guarded Stmt)

theorem reads_switchDefault? (ho : ∀ body ∈ otherwise, ∀ s ∈ body, ReadsStatement inner s) :
    Reads (switchDefault? inner) (defaultLexemes otherwise) otherwise (· = .mark .closeCurly) := by
  cases otherwise with
  | none => exact reads_refuse _ (reads_pure none _) fun k hk => hk ▸ (by decide)
  | some body =>
    refine reads_accept Keyword.kwDefault.lexeme (reads_expect Mark.colon.lexeme fun _ _ => ?_)
    refine ((reads_caseBody (ho body rfl)).last some).mono ?_
    rintro k rfl
    rfl

theorem reads_switchStatement {scrutinee : Expr} (hs : scrutinee.WellFormed)
    (hg : ∀ b ∈ cases, b.guard.WellFormed) (hb : ∀ b ∈ cases, ∀ s ∈ b.body, ReadsStatement inner s)
    (ho : ∀ body ∈ otherwise, ∀ s ∈ body, ReadsStatement inner s) (P : TokenKind → Prop) :
    Reads (switchStatement .standard inner) (Stmt.switch scrutinee cases otherwise).lexemes
      (.switch scrutinee cases otherwise) P := by
  have hcases : Reads (many (· == .keyword .kwCase) (switchCase .standard inner)) (caseLexemes cases)
      cases fun k => (k == .keyword .kwCase) = false ∧ inCase k = false := by
    rw [caseLexemes_eq_flatMap]
    exact reads_many cases (fun b hb' => reads_switchCase (hg b hb') (hb b hb'))
      fun b _ => ⟨Keyword.kwCase.lexeme, _, rfl, rfl, rfl⟩
  rw [Stmt.lexemes, inParens, inCurly]
  simp only [cons_append, append_assoc, nil_append]
  refine reads_expect Keyword.kwSwitch.lexeme fun _ _ => reads_expect Mark.openParen.lexeme fun _ _ => ?_
  refine (reads_expression hs).bind (reads_expect Mark.closeParen.lexeme fun _ _ => ?_) fun _ _ => rfl
  refine reads_expect Mark.openCurly.lexeme fun _ _ => hcases.bind ?_ ?_
  · exact (reads_switchDefault? ho).bind
      (reads_expectOr Mark.closeCurly.lexeme _ fun _ _ => reads_pure _ P) fun _ _ => rfl
  · cases otherwise <;> exact fun _ _ => ⟨rfl, rfl⟩

/-! ## simple statements -/

variable {e : Expr} {targets : List Expr}

theorem reads_bareStatement (k : Keyword) (s : Stmt) (P : TokenKind → Prop) :
    Reads (bareStatement k s) [k.lexeme, Mark.semicolon.lexeme] s P :=
  reads_expect k.lexeme fun _ _ => reads_expect Mark.semicolon.lexeme fun _ _ => reads_pure s P

theorem reads_returnStatement (h : ∀ e ∈ value, e.WellFormed) (P : TokenKind → Prop) :
    Reads (returnStatement .standard) (Stmt.returnValue value).lexemes (.returnValue value) P := by
  have hend : ∀ Q, Reads (do
      let _ ← expect (.mark .semicolon)
      return .returnValue value : Parser Stmt) [Mark.semicolon.lexeme] (.returnValue value) Q :=
    fun Q => reads_expect Mark.semicolon.lexeme fun _ _ => reads_pure _ Q
  cases value with
  | none =>
    refine reads_expect Keyword.kwReturn.lexeme fun _ _ => reads_peek fun k _ => ?_
    exact (reads_pure none anyKind).skip (hend _) fun _ _ => trivial
  | some e =>
    have he := h e rfl
    refine reads_expect Keyword.kwReturn.lexeme fun _ _ => reads_peek fun k _ => ?_
    have hne : kindBefore (e.lexemes ++ [Mark.semicolon.lexeme]) k ≠ .mark .semicolon :=
      leads_ne (((e.starts he).append _).kindBefore k) (by decide)
    rw [if_neg hne]
    exact ((reads_expression he).map some).bind (hend _) fun _ _ => rfl

theorem reads_printStatement (he : e.WellFormed) (P : TokenKind → Prop) :
    Reads (printStatement .standard) (Stmt.print e).lexemes (.print e) P := by
  refine reads_expect Keyword.kwPrint.lexeme fun _ _ => (reads_expression he).bind ?_ fun _ _ => rfl
  exact reads_expect Mark.semicolon.lexeme fun _ _ => reads_pure _ P

theorem reads_targets (hne : targets ≠ []) (h : ∀ e ∈ targets, e.WellFormed) :
    Reads (commaSeparated (expression .standard .base)) (targetLexemes targets) targets
      fun k => k ≠ .mark .comma ∧ endsAt .base k := by
  cases targets with
  | nil => exact absurd rfl hne
  | cons t ts =>
    exact reads_commaSeparated_cons (reads_expression_first (h t mem_cons_self))
      (fun e he => reads_expression (h e (mem_cons_of_mem t he))) rfl

theorem reads_plainStatement_expression (he : e.WellFormed) (P : TokenKind → Prop) :
    Reads (plainStatement .standard) (Stmt.expression e).lexemes (.expression e) P := by
  have hsemi : TokenKind.mark .semicolon ≠ .mark .comma
      ∧ TokenKind.mark .semicolon ≠ .mark .assignment := by decide
  have hone : ∀ e' ∈ [e], e'.WellFormed := fun e' he' => mem_singleton.mp he' ▸ he
  refine (reads_targets (cons_ne_nil e []) hone).bind (reads_refuse _ ?_ fun _ _ => hsemi.2)
    fun _ _ => ⟨hsemi.1, rfl⟩
  exact reads_expect Mark.semicolon.lexeme fun _ _ => reads_pure _ P

theorem reads_plainStatement_assign (hts : targets ≠ []) (hvs : values ≠ [])
    (ht : ∀ e ∈ targets, e.WellFormed) (hv : ∀ e ∈ values, e.WellFormed) (P : TokenKind → Prop) :
    Reads (plainStatement .standard) (Stmt.assign targets values).lexemes (.assign targets values) P := by
  have hsemi : TokenKind.mark .semicolon ≠ .mark .comma := by decide
  have hassign : TokenKind.mark .assignment ≠ .mark .comma := by decide
  have hvalues := reads_commaSeparated hvs (fun b hb => reads_expression (hv b hb)) rfl
  refine (reads_targets hts ht).bind (reads_accept Mark.assignment.lexeme ?_) fun _ _ => ⟨hassign, rfl⟩
  refine hvalues.bind (reads_expect Mark.semicolon.lexeme fun _ _ => ?_) fun _ _ => ⟨hsemi, rfl⟩
  exact reads_pure _ P

/-! ## the rule of a statement -/

variable {P : TokenKind → Prop} {s : Stmt} {w : List Lexeme}

theorem reads_statementStep (rule : StatementRule)
    (hw : Starts (fun k => Grammar.standard.statement k = some rule) w)
    (h : Reads (rule.read .standard inner) w s P) : Reads (statementStep .standard inner) w s P := by
  refine reads_peek fun k hk => ?_
  rw [hw.kindBefore k]
  exact h.mono fun k' hk' => hk' ▸ hk

theorem reads_statementStep_plain (hw : Starts leadsPlain w) (h : Reads (plainStatement .standard) w s P) :
    Reads (statementStep .standard inner) w s P := by
  refine reads_peek fun k hk => ?_
  rw [(hw.kindBefore k).2]
  exact h.mono fun k' hk' => hk' ▸ hk

/-! ## sizes -/

theorem length_le_bodyLexemes (h : s ∈ body) : s.lexemes.length ≤ (bodyLexemes body).length := by
  induction body with
  | nil => exact absurd h not_mem_nil
  | cons s' body ih =>
    rw [bodyLexemes, length_append]
    rcases mem_cons.mp h with rfl | h
    · omega
    · have := ih h
      omega

theorem length_inCurly (w : List Lexeme) : (inCurly w).length = w.length + 2 := by
  rw [inCurly, length_cons, length_append, length_singleton]

theorem length_body_lt_branchLexemes (h : b ∈ branches) (opening : List Lexeme) :
    (bodyLexemes b.body).length < (branchLexemes opening branches).length := by
  induction branches generalizing opening with
  | nil => exact absurd h not_mem_nil
  | cons b' bs ih =>
    rw [branchLexemes]
    simp only [length_append, length_inCurly]
    rcases mem_cons.mp h with rfl | h
    · omega
    · have := ih h [Keyword.kwElse.lexeme, Keyword.kwIf.lexeme]
      omega

theorem length_body_lt_caseLexemes (h : b ∈ cases) :
    (bodyLexemes b.body).length < (caseLexemes cases).length := by
  induction cases with
  | nil => exact absurd h not_mem_nil
  | cons b' bs ih =>
    rw [caseLexemes]
    simp only [length_append, length_cons]
    rcases mem_cons.mp h with rfl | h
    · omega
    · have := ih h
      omega

/-! ## all statements -/

variable {n : Nat}

/-- the reader inside reads every statement of up to `n` lexemes -/
def ReadsStatements (inner : Parser Stmt) (n : Nat) : Prop :=
  ∀ s : Stmt, s.WellFormed → s.lexemes.length ≤ n → Reads inner s.lexemes s notElse

theorem ReadsStatements.body (h : ReadsStatements inner n) {body : List Stmt}
    (hwf : ∀ s ∈ body, s.WellFormed) (hn : (bodyLexemes body).length ≤ n) :
    ∀ s ∈ body, ReadsStatement inner s :=
  fun s hs => ⟨h s (hwf s hs) (Nat.le_trans (length_le_bodyLexemes hs) hn), s.starts (hwf s hs)⟩

/-- the rules read every statement, given a reader for the shorter ones inside -/
theorem reads_statementStep_lexemes (hinner : ReadsStatements inner n) (hs : s.WellFormed)
    (hn : s.lexemes.length ≤ n + 1) : Reads (statementStep .standard inner) s.lexemes s notElse := by
  cases hs with
  | @expression e he =>
    exact reads_statementStep_plain ((e.starts_firstLexemes he).append _)
      (reads_plainStatement_expression he _)
  | @declare constant ds values hne hds hvs =>
    refine reads_statementStep .declaration ?_ (reads_declaration constant hne hds hvs _)
    cases constant <;> exact ⟨_, _, rfl, rfl⟩
  | @assign targets values hts hvs ht hv =>
    exact reads_statementStep_plain ((starts_targetLexemes hts ht).append _)
      (reads_plainStatement_assign hts hvs ht hv _)
  | @function h body hh hb =>
    rw [Stmt.lexemes, length_append, length_inCurly] at hn
    have hbody := hinner.body hb (by omega)
    refine reads_statementStep .function ?_ (reads_functionDeclaration hh hbody _)
    obtain ⟨x, id, ps, returns, async⟩ := h
    cases async <;> exact ⟨_, _, rfl, rfl⟩
  | @classDef h body hh hb =>
    rw [Stmt.lexemes, length_append, length_inCurly] at hn
    have hbody := hinner.body hb (by omega)
    exact reads_statementStep .classDef ⟨Keyword.kwClass.lexeme, _, rfl, rfl⟩
      (reads_classDeclaration hh hbody _)
  | @conditional branches otherwise hne hg hb ho =>
    rw [Stmt.lexemes, length_append] at hn
    have hbranch : ∀ b ∈ branches, ∀ s ∈ b.body, ReadsStatement inner s := by
      intro b hb'
      have := length_body_lt_branchLexemes hb' [Keyword.kwIf.lexeme]
      exact hinner.body (hb b hb') (by omega)
    have helse : ∀ body ∈ otherwise, ∀ s ∈ body, ReadsStatement inner s := by
      intro body hbody
      obtain rfl : otherwise = some body := hbody
      rw [elseLexemes, length_cons, length_inCurly] at hn
      exact hinner.body (ho body rfl) (by omega)
    refine reads_statementStep .conditional ?_ (reads_conditional hne hg hbranch helse)
    exact ((starts_branchLexemes Keyword.kwIf.lexeme hne).mono fun k hk => hk ▸ rfl).append _
  | @whileLoop condition body hc hb =>
    rw [Stmt.lexemes, length_cons, length_append, length_inCurly] at hn
    have hbody := hinner.body hb (by omega)
    exact reads_statementStep .whileLoop ⟨Keyword.kwWhile.lexeme, _, rfl, rfl⟩
      (reads_whileStatement hc hbody _)
  | @forLoop h body hh hb =>
    rw [Stmt.lexemes, length_cons, length_append, length_inCurly] at hn
    have hbody := hinner.body hb (by omega)
    exact reads_statementStep .forLoop ⟨Keyword.kwFor.lexeme, _, rfl, rfl⟩
      (reads_forStatement_let hh hbody _)
  | @rangeLoop start stop body hstart hstop hb =>
    rw [Stmt.lexemes, length_cons, length_append, length_inCurly] at hn
    have hbody := hinner.body hb (by omega)
    exact reads_statementStep .forLoop ⟨Keyword.kwFor.lexeme, _, rfl, rfl⟩
      (reads_forStatement_range hstart hstop hbody _)
  | @switch scrutinee cases otherwise hs hg hb ho =>
    rw [Stmt.lexemes, length_cons, length_append, length_inCurly, length_append] at hn
    have hcase : ∀ b ∈ cases, ∀ s ∈ b.body, ReadsStatement inner s := by
      intro b hb'
      have := length_body_lt_caseLexemes hb'
      exact hinner.body (hb b hb') (by omega)
    have hdefault : ∀ body ∈ otherwise, ∀ s ∈ body, ReadsStatement inner s := by
      intro body hbody
      obtain rfl : otherwise = some body := hbody
      rw [defaultLexemes, length_cons, length_cons] at hn
      exact hinner.body (ho body rfl) (by omega)
    exact reads_statementStep .switch ⟨Keyword.kwSwitch.lexeme, _, rfl, rfl⟩
      (reads_switchStatement hs hg hcase hdefault _)
  | breakLoop =>
    exact reads_statementStep .breakLoop ⟨Keyword.kwBreak.lexeme, _, rfl, rfl⟩
      (reads_bareStatement _ _ _)
  | continueLoop =>
    exact reads_statementStep .continueLoop ⟨Keyword.kwContinue.lexeme, _, rfl, rfl⟩
      (reads_bareStatement _ _ _)
  | @returnValue value hv =>
    refine reads_statementStep .returnValue ?_ (reads_returnStatement hv _)
    cases value <;> exact ⟨Keyword.kwReturn.lexeme, _, rfl, rfl⟩
  | @print e he =>
    exact reads_statementStep .print ⟨Keyword.kwPrint.lexeme, _, rfl, rfl⟩ (reads_printStatement he _)
  | @block body hb =>
    rw [Stmt.lexemes, length_inCurly] at hn
    have hbody := reads_block (hinner.body hb (by omega)) notElse
    exact reads_statementStep .block ⟨Mark.openCurly.lexeme, _, rfl, rfl⟩ (hbody.map Stmt.block)

end

theorem reads_statementAt (n : Nat) : ReadsStatements (statementAt .standard n) n := by
  induction n with
  | zero =>
    intro s hs hn
    exact absurd (s.starts hs).length_pos (by omega)
  | succ n ih =>
    intro s hs hn
    exact reads_statementStep_lexemes ih hs hn

theorem reads_statement (hs : s.WellFormed) : Reads (statement .standard) s.lexemes s notElse := by
  intro ts rest last hts hk
  refine reads_statementAt _ s hs ?_ ts rest last hts hk
  show s.lexemes.length ≤ (ts ++ rest).length + 1
  rw [← hts, length_map, length_append]
  omega

/-! ## programs -/

variable {p : Program} {last : Token}

theorem reads_program (hp : p.WellFormed) : Reads (program .standard) p.lexemes p (· = .eof) := by
  have heof : ¬ opens .eof := by decide
  refine (reads_body p (fun s hs => ⟨reads_statement (hp s hs), s.starts (hp s hs)⟩)
    fun k hk => bne_iff_ne.mpr (opens_ne hk heof)).mono ?_
  rintro k rfl
  exact ⟨rfl, (by decide : TokenKind.eof ≠ .keyword .kwElse)⟩

theorem Cursor.ofTokens_concat (ts : List Token) (hlast : last.kind = .eof)
    (file : String) : Cursor.ofTokens (ts ++ [last]) file = ⟨ts, last⟩ := by
  unfold Cursor.ofTokens
  rw [List.getLast?_concat, dropLast_concat]
  exact if_pos hlast

/-- the program that was written is the one that is read -/
theorem parse_of_lexemes (hp : p.WellFormed) {ts : List Token} (hts : ts.map Token.lexeme = p.lexemes)
    (hlast : last.kind = .eof) (file : String) : parse (ts ++ [last]) file = .ok p := by
  have hread := reads_program hp ts [] last hts hlast
  rw [append_nil] at hread
  unfold parse
  rw [Cursor.ofTokens_concat ts hlast, hread]
  rfl

end TypedScript
