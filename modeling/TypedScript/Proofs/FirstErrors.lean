import TypedScript.Proofs.Promptness

/-!
# Syntax errors at the first impossible token

Every rule of the grammar is prompt, apart from `await`, whose operand is judged after it was read.  So
the parser reports a syntax error at the first token that no program goes on with.

An expression stops at every kind that extends no expression, a written type at every kind that extends
no type, a statement at everything but `else`; what is missing is completed by a name.
-/

namespace TypedScript

open TypedScript.Parser List

/-- a missing phrase is completed by a name -/
def byName (k : TokenKind) : Prop := k = .identifier

/-! ## written types -/

variable {n : Nat} {k : TokenKind} {p : Power} {t : Token}

theorem typeSuffix_kind (h : Grammar.standard.typeSuffix k = some (p, rule)) :
    p = .call ∧ match rule with
      | .array => k = .mark .openBracket
      | .nullable => k = .mark .question := by
  cases k with
  | mark m => cases m <;> cases h <;> exact ⟨rfl, rfl⟩
  | _ => exact nomatch h

theorem endsType_extends (h : endsType k) (power : Power) :
    Grammar.standard.typeExtends? k power = false := by
  have hk := h.2
  unfold Grammar.typeExtends? at hk ⊢
  split at hk
  · next p rule hsuffix =>
    rw [(typeSuffix_kind hsuffix).1] at hk
    exact absurd hk (by decide)
  · rfl

theorem promptOn_suffixStep (n : Nat) (power : Power) (left : TypeTerm) :
    PromptOn (fun k => Grammar.standard.typeExtends? k power = true) (n + 1) anyKind noKind
      (suffixStep .standard left) := by
  refine promptOn_of_after (fun k hk => ?_) fun t ht _ => ?_
  · rintro rfl
    exact nomatch hk
  unfold Grammar.typeExtends? at ht
  split at ht
  · next p rule hsuffix =>
    have hafter : after t (suffixStep .standard left) = after t (rule.read left) := by
      unfold suffixStep
      rw [after_peek, hsuffix]
    have hkind := (typeSuffix_kind hsuffix).2
    cases rule with
    | array => exact (prompt_close _).after (hafter.trans (after_expect hkind _))
    | nullable => exact (prompt_pure n anyKind _).after (hafter.trans (after_expect hkind _))
  · exact nomatch ht

theorem prompt_namedType (h : Prompt n endsType byName (typeTerm .standard .base)) :
    Prompt (n + 1) (· ≠ .mark .less) byName (namedType (typeTerm .standard)) := by
  have hlist : Prompt n (fun k => k ≠ .mark .comma ∧ endsType k) byName
      (commaSeparated (typeTerm .standard .base)) :=
        prompt_commaSeparated h (passes_typeTerm .base) fun _ => id
  exact prompt_expect fun t =>
    prompt_accept (hlist.beforeOr (by decide) fun _ _ => prompt_pure n _ _) (prompt_pure n _ _) fun _ => id

theorem prompt_typeTermStep (h : Prompt n endsType byName (typeTerm .standard .base)) (power : Power) :
    Prompt (n + 1) endsType byName (typeTermStep .standard (typeTerm .standard) power) := by
  have hfold : ∀ left, Prompt (n + 1) endsType endsType
      (fold (Grammar.standard.typeExtends? · power) (suffixStep .standard) left) :=
    prompt_fold (fun k hk => ⟨endsType_extends hk power, trivial⟩) (promptOn_suffixStep n power)
      (passes_suffixStep power)
  refine ((prompt_namedType h).bind hfold fun k hk => hk.1).of_kinds (fun _ => id)
    (fun d _ hk => typeTermStep_of_identifier hk power) fun t hk => ?_
  refine rejects_unexpectedFor "expected a type" fun d hd => ?_
  have hname : Grammar.standard.typeName d.kind ≠ true := by
    have hd' : d.kind ≠ .identifier := fun h => hk ((congrArg Token.kind hd).symm.trans h)
    intro htrue
    cases hkind : d.kind with
    | identifier => exact hd' hkind
    | _ => rw [hkind] at htrue; exact nomatch htrue
  show (if Grammar.standard.typeName d.kind = true then _ else _ : Parser TypeTerm) d = _
  rw [if_neg hname]

theorem prompt_typeTerm (n : Nat) : Prompt n endsType byName (typeTerm .standard .base) := by
  induction n with
  | zero =>
    have hname : TypeTerm.WellFormed (.named "x") := .named (by decide)
    exact ⟨(reads_typeTerm hname).completes, fun c _ _ hlen => absurd hlen (Nat.not_lt_zero _)⟩
  | succ n ih => exact (prompt_typeTermStep ih .base).congr fun d hd => typeTerm_eq .base hd

/-! ## operands -/

theorem leading_kind (h : Grammar.standard.leading k = some rule) :
    k ≠ .eof ∧ match rule with
      | .primary => True
      | .unary => ∃ op, UnaryOp.ofKind? k = some op
      | .await => k = .keyword .kwAwait
      | .grouping => k = .mark .openParen
      | .array => k = .mark .openBracket
      | .curly => k = .mark .openCurly := by
  constructor
  · rintro rfl
    cases h
  cases k with
  | mark m => cases m <;> cases h <;> first | rfl | exact ⟨_, rfl⟩
  | keyword w => cases w <;> cases h <;> first | rfl | trivial
  | _ => cases h <;> trivial

theorem trailing_kind (h : Grammar.standard.trailing k = some (p, rule)) :
    match rule with
    | .binary => ∃ op, BinaryOp.ofKind? k = some op
    | .power => k = .mark .caret
    | .call => k = .mark .openParen
    | .subscript => k = .mark .openBracket
    | .member => k = .mark .dot := by
  cases k with
  | mark m => cases m <;> cases h <;> first | rfl | exact ⟨_, rfl⟩
  | _ => cases h

theorem primary_first (ht : t.kind ≠ .eof) (n : Nat) : FirstAt n anyKind primary t := by
  have hafter : (∃ e, after t primary = pure e) ∨
      ∃ cause, after t primary = failAt cause t.span.position := by
    unfold primary
    rw [after_here, after_token]
    split
    · split
      · exact .inl ⟨_, rfl⟩
      · exact .inr ⟨_, rfl⟩
    all_goals first | exact .inl ⟨_, rfl⟩ | exact .inr ⟨_, rfl⟩
  rcases hafter with ⟨e, he⟩ | ⟨cause, hcause⟩
  · exact .inr ⟨ht, (prompt_pure n anyKind e).after he⟩
  · exact .inl (rejects_of_after ht hcause)

theorem completes_exprStep (power : Power) : Completes (endsAt .base) byName
    (exprStep .standard (expression .standard) power) [] := by
  have hname : Reads (exprStep .standard (expression .standard) power) [nameLexeme "x"] _ _ :=
    (growsTo_leading .primary ⟨_, [], rfl, rfl⟩ (reads_primary_name "x" anyKind)).reads
  exact hname.completes.mono (fun k hk => ⟨trivial, endsAt_mono (Nat.zero_le _) hk⟩) fun _ => id

def endsList (k : TokenKind) : Prop := k ≠ .mark .comma ∧ endsAt .base k

instance : DecidablePred endsList := fun _ => inferInstanceAs (Decidable (_ ∧ _))

section
variable (h : ∀ p, Prompt n (endsAt .base) byName (expression .standard p))
include h

theorem prompt_closedList (closing : TokenKind) [Inner closing] (f : List Expr → Expr)
    (hclosing : endsList closing) : Prompt n anyKind (· = closing) (do
      let es ← expressionList (expression .standard) closing
      let _ ← expect closing
      return f es : Parser Expr) :=
  (prompt_commaTerminated (h .base) (passes_expression .base) hclosing).close f rfl

theorem grouping_first (ht : t.kind = .mark .openParen) :
    PromptAfter n anyKind (grouping (expression .standard)) t := by
  refine ⟨byName, ?_⟩
  unfold grouping
  rw [after_expect ht]
  apply Prompt.on
  exact prompt_accept (prompt_pure n anyKind _) ((h .base).bind (fun first =>
    prompt_accept (prompt_closedList h _ _ (by decide)) (prompt_close first) (by rintro _ rfl; decide))
    (by rintro _ rfl; decide)) (by rintro _ rfl; decide)

theorem prompt_furtherEntries : Prompt n (· = .mark .closeCurly) (· = .mark .closeCurly)
    (many (· == .mark .comma) (furtherEntry (expression .standard))) := by
  have hentry : Prompt n (endsAt .base) byName (do
      let key ← expression .standard .base
      let _ ← expect (.mark .colon)
      let value ← expression .standard .base
      return some (key, value) : Parser (Option (Expr × Expr))) :=
    (h .base).before (by decide) fun key _ => (h .base).last _
  have hitem : PromptOn (fun k => (k == .mark .comma) = true) (n + 1) (· = .mark .closeCurly) noKind
      (furtherEntry (expression .standard)) :=
    promptOn_of_after comma_ne_eof fun t _ _ => (prompt_peek (.mark .closeCurly) (prompt_pure n _ none)
      (hentry.narrow (by rintro _ rfl; decide)) (fun k hk => if_neg hk) (by rintro _ rfl; decide)
      fun _ => id).after (after_token t _)
  refine (prompt_many (fun k hk => ⟨?_, hk⟩) hitem passes_furtherEntry).shorten
  rw [hk]
  rfl

theorem curly_first (ht : t.kind = .mark .openCurly) :
    PromptAfter n anyKind (curlyLiteral (expression .standard)) t := by
  have hset : ∀ first : Expr, Prompt n anyKind (· = .mark .closeCurly) (do
      let others ← if ← accept (.mark .comma) then
        expressionList (expression .standard) (.mark .closeCurly) else pure []
      let _ ← expect (.mark .closeCurly)
      return .collection .set (first :: others) none : Parser Expr) := fun first =>
    prompt_accept (prompt_closedList h _ _ (by decide)) (prompt_close _) (by rintro _ rfl; decide)
  have hdict : ∀ first : Expr, Prompt n anyKind byName (do
      let value ← expression .standard .base
      let others ← many (· == .mark .comma) (furtherEntry (expression .standard))
      let _ ← expect (.mark .closeCurly)
      return .dict ((first, value) :: others.filterMap id) none : Parser Expr) := fun first =>
    (h .base).bind (fun value => (prompt_furtherEntries h).close _ rfl) (by rintro _ rfl; decide)
  refine ⟨byName, ?_⟩
  unfold curlyLiteral
  rw [after_expect ht]
  apply Prompt.on
  exact prompt_accept (prompt_pure n anyKind _)
    ((h .base).bind (fun first => prompt_accept (hdict first) (hset first) (by rintro _ rfl; decide))
      (by rintro _ rfl; decide)) (by rintro _ rfl; decide)

theorem LeadingRule.read_first (ht : Grammar.standard.leading t.kind = some rule)
    (hawait : t.kind ≠ .keyword .kwAwait) :
    FirstAt n (endsAt .base) (rule.read (expression .standard)) t := by
  obtain ⟨heof, hkind⟩ := leading_kind ht
  cases rule with
  | primary =>
    exact (primary_first heof n).imp_right fun hafter => ⟨heof, hafter.2.narrow fun _ _ => trivial⟩
  | unary =>
    obtain ⟨op, hop⟩ := hkind
    have hafter : after t (unaryOperation (expression .standard))
        = expression .standard .unary >>= fun e => pure (.unary op e none) := by
      unfold unaryOperation
      rw [after_here, after_token, hop]
    exact .inr ⟨heof, ((h .unary).last _).after hafter⟩
  | await => exact absurd hkind hawait
  | grouping => exact .inr ⟨heof, (grouping_first h hkind).narrow fun _ _ => trivial⟩
  | array =>
    have hlist := prompt_closedList h (.mark .closeBracket) (.collection .array · none) (by decide)
    exact .inr ⟨heof, (hlist.after (after_expect hkind _)).narrow fun _ _ => trivial⟩
  | curly => exact .inr ⟨heof, (curly_first h hkind).narrow fun _ _ => trivial⟩

/-! ## operations -/

theorem TrailingRule.read_first (ht : Grammar.standard.trailing t.kind = some (p, rule)) (left : Expr) :
    PromptAfter n (endsAt .base) (rule.read (expression .standard) left p) t := by
  have hkind := trailing_kind ht
  cases rule with
  | binary =>
    obtain ⟨op, hop⟩ := hkind
    have hafter : after t (binaryOperation (expression .standard) left p)
        = expression .standard p >>= fun e => pure (.binary op left e none) := by
      unfold binaryOperation
      rw [after_here, after_token, hop]
    exact ((h p).last _).after hafter
  | power => exact ((h .multiplicative).last _).after (after_expect hkind _)
  | call =>
    have hlist := prompt_closedList h (.mark .closeParen) (.call left · false false none) (by decide)
    exact (hlist.after (after_expect hkind _)).narrow fun _ _ => trivial
  | subscript => exact ((h .base).close _ (by decide)).after (after_expect hkind _)
  | member =>
    exact (prompt_expectOr fun name => prompt_pure n _ _).shorten.after (after_expect hkind _)

theorem promptOn_trailingStep (power : Power) (left : Expr) :
    PromptOn (fun k => Grammar.standard.extends? k power = true) (n + 1) (endsAt .base) noKind
      (trailingStep .standard (expression .standard) left) := by
  refine promptOn_of_after (fun k hk => ?_) fun t ht _ => ?_
  · rintro rfl
    exact nomatch hk
  unfold Grammar.extends? at ht
  split at ht
  · next p rule htrailing =>
    obtain ⟨starts, hon⟩ := rule.read_first h htrailing left
    refine ⟨starts, ?_⟩
    unfold trailingStep
    rw [after_peek, htrailing]
    exact hon
  · exact nomatch ht

/-! ## expressions -/

theorem prompt_exprStep (power : Power) :
    Prompt (n + 1) (endsAt .base) byName (exprStep .standard (expression .standard) power) := by
  have hfold : ∀ left, Prompt n (endsAt .base) (endsAt .base) (fold (Grammar.standard.extends? · power)
      (trailingStep .standard (expression .standard)) left) := fun left =>
    (prompt_fold (fun k hk => ⟨endsAt_mono (Nat.zero_le _) hk, hk⟩) (promptOn_trailingStep h power)
      (passes_trailingStep power) left).shorten
  refine prompt_of_first (completes_exprStep power) fun t hawait => ?_
  cases hrule : Grammar.standard.leading t.kind with
  | none =>
    refine .inl (rejects_here (fun t => .unexpectedToken t.value) fun d hd => ?_)
    subst hd
    unfold exprStep
    have hpeek : peek d = .done d.kind d := rfl
    rw [bind_done hpeek, show Grammar.standard.leading d.kind = none from hrule]
    rfl
  | some rule =>
    have hstep : ∀ d : Cursor, d.kind = t.kind → exprStep .standard (expression .standard) power d
        = (rule.read (expression .standard) >>= fold (Grammar.standard.extends? · power)
            (trailingStep .standard (expression .standard))) d :=
      fun d hd => exprStep_of_leading (hd ▸ hrule) power
    rcases rule.read_first h hrule hawait with hreject | ⟨heof, starts, hon⟩
    · exact .inl ((hreject.bind _).congr fun d hd => hstep d (congrArg Token.kind hd))
    · refine .inr ⟨heof, starts, ?_⟩
      have hafter : after t (exprStep .standard (expression .standard) power)
          = after t (rule.read (expression .standard)) >>= fold (Grammar.standard.extends? · power)
              (trailingStep .standard (expression .standard)) :=
        funext fun d => hstep (d.behind [t]) rfl
      rw [hafter]
      exact hon.bind hfold fun _ => id

end

theorem prompt_expression (n : Nat) (power : Power) :
    Prompt n (endsAt .base) byName (expression .standard power) := by
  induction n generalizing power with
  | zero =>
    have heq : ∀ d : Cursor, d.Ended → anyKind d.kind → expression .standard power d = _ :=
      fun d hd _ => expression_eq power hd
    exact ⟨(completes_exprStep power).congr heq fun _ _ => trivial,
      fun c _ _ hlen => absurd hlen (Nat.not_lt_zero _)⟩
  | succ n ih => exact (prompt_exprStep ih power).congr fun d hd => expression_eq power hd

/-! ## parts of declarations -/

theorem prompt_typeAfter (m : Mark) (n : Nat) :
    Prompt n (fun k => k ≠ .mark m ∧ endsType k) (fun k => k ≠ .mark m ∧ endsType k)
      (typeAfter .standard m) :=
  prompt_accept (((prompt_typeTerm n).last some).narrow fun _ hk => hk.2) (prompt_pure n _ none)
    fun _ hk => hk.1

theorem prompt_declarator (n : Nat) : Prompt n endsDeclarator byName (declarator .standard) :=
  (prompt_expectOr fun _ => (prompt_typeAfter .colon n).last _).shorten

theorem prompt_parameter (n : Nat) : Prompt n endsParameter byName (parameter .standard) := by
  have hdefault : ∀ (x : String) (w : TypeTerm), Prompt n endsParameter endsParameter (do
      let default ← if ← accept (.mark .assignment) then some <$> expression .standard .base
        else pure none
      return ⟨x, w, default, none, none⟩ : Parser Parameter) := fun x w =>
    prompt_accept ((((prompt_expression n .base).last some).last _).narrow fun _ hk => hk.2.2)
      (prompt_pure n _ _) fun _ hk => hk.1
  exact (prompt_expectOr fun t => (prompt_expectOr fun _ =>
    (prompt_typeTerm n).bind (hdefault t.value) fun _ hk => hk.2.1).shorten).shorten

theorem prompt_parameters (n : Nat) : Prompt (n + 1) anyKind (· = .mark .openParen) (parameters .standard) :=
  prompt_expect fun _ => (prompt_commaTerminated (prompt_parameter n) passes_parameter
    (by decide)).close _ rfl

/-! ## bodies -/

theorem prompt_expressions (n : Nat) :
    Prompt n endsList byName (commaSeparated (expression .standard .base)) :=
  prompt_commaSeparated (prompt_expression n .base) (passes_expression .base) fun _ => id

theorem prompt_loopChange (n : Nat) :
    Prompt (n + 1) (endsAt .base) (· = .mark .plusPlus) (loopChange .standard) := by
  have hvalue : ∀ f : Expr → Update Expr, Prompt n (endsAt .base) byName
      (expression .standard .base >>= fun e => pure (f e)) :=
    fun f => (prompt_expression n .base).last f
  have hbare : ∀ u : Update Expr, Prompt n (endsAt .base) (endsAt .base) (pure u) := prompt_pure n _
  have hcomplete : Completes (endsAt .base) (· = .mark .plusPlus) (loopChange .standard) [] :=
    completes_of_after (t := someToken (.mark .plusPlus)) (hbare .increment).completes
  exact prompt_of_first hcomplete fun t _ => accept_first (hbare .increment) (accept_first (hbare .decrement)
    (accept_first (hvalue .increase) (accept_first (hvalue .decrease)
      (.inl (rejects_unexpectedFor _ fun _ _ => rfl)))))

theorem prompt_loopUpdate (n : Nat) : Prompt n (endsAt .base) byName (loopUpdate .standard) :=
  (prompt_expectOr fun _ => (prompt_loopChange n).shorten.last _).shorten

section
variable (h : Prompt n notElse byName (statement .standard))
include h

theorem prompt_block : Prompt (n + 1) anyKind (· = .mark .openCurly) (block (statement .standard)) := by
  have hitem : Prompt n notElse byName (do
      if (← peek) = .eof then unexpectedFor "expected `\x7d` to close the block"
      statement .standard : Parser Stmt) := by
    refine h.of_kinds (T := (· ≠ .eof)) (by rintro _ rfl; decide) (fun d _ hk => ?_) fun t hk => ?_
    · show (if d.kind = .eof then _ else _ : Parser Stmt) d = _
      rw [if_neg hk]
    · refine rejects_unexpectedFor "expected `\x7d` to close the block" fun d hd => ?_
      have hd' : d.kind = .eof := by subst hd; exact Decidable.not_not.mp hk
      show (if d.kind = .eof then _ else _ : Parser Stmt) d = _
      rw [if_pos hd']
      rfl
  have hmany : Prompt n (· = .mark .closeCurly) (· = .mark .closeCurly)
      (many (· != .mark .closeCurly) (do
        if (← peek) = .eof then unexpectedFor "expected `\x7d` to close the block"
        statement .standard : Parser Stmt)) :=
    prompt_many (by rintro _ rfl; exact ⟨rfl, nofun⟩) hitem.onKinds (passes_blockItem _).on
  exact prompt_expectOr fun _ => hmany.close _ rfl

theorem prompt_body (f : List Stmt → Stmt) : Prompt n anyKind (· = .mark .openCurly)
    (block (statement .standard) >>= fun body => pure (f body)) :=
  ((prompt_block h).last f).shorten

theorem prompt_caseBody : Prompt n (fun k => inCase k = false) (fun k => inCase k = false)
    (caseBody (statement .standard)) :=
  prompt_many (fun k hk => ⟨hk, by rintro rfl; exact nomatch hk⟩) h.onKinds passes_statement.on

/-! ## statements -/

theorem prompt_functionDeclaration : Prompt (n + 1) anyKind (· = .keyword .kwFn)
    (functionDeclaration .standard (statement .standard)) := by
  have hfn : ∀ async, Prompt (n + 1) anyKind (· = .keyword .kwFn) (do
      let _ ← expect (.keyword .kwFn)
      let name ← expectOr .identifier "expected function name"
      let ps ← parameters .standard
      let returns ← typeAfter .standard .arrow
      let body ← block (statement .standard)
      return .function ⟨name.value, none, ps, returns, async⟩ body : Parser Stmt) := fun async =>
    prompt_expect fun _ => (prompt_expectOr fun name => (prompt_parameters n).shorten.bind
      (fun ps => (prompt_typeAfter .arrow n).bind (fun returns => prompt_body h _) (by rintro _ rfl; decide))
      fun _ _ => trivial).shorten
  exact prompt_accept (hfn true) (hfn false) (by rintro _ rfl; decide)

theorem prompt_classDeclaration : Prompt (n + 1) anyKind (· = .keyword .kwClass)
    (classDeclaration .standard (statement .standard)) :=
  prompt_expect fun _ => (prompt_expectOr fun name => prompt_peek (.mark .openParen)
    ((prompt_parameters n).shorten.bind (fun ps => prompt_body h _) fun _ _ => trivial)
    (prompt_body h _) (fun k hk => if_neg hk) (by rintro _ rfl; decide) fun _ => id).shorten

theorem prompt_branch : Prompt n anyKind byName (branch .standard (statement .standard)) :=
  (prompt_expression n .base).bind (fun guard => (prompt_block h).shorten.last _) (by rintro _ rfl; decide)

theorem prompt_branches : Prompt n notElse notElse (branches (statement .standard)) := by
  have heq : ∀ d : Cursor, d.Ended → branches (statement .standard) d = _ :=
    fun d hd => branches_eq hd
  suffices hall : ∀ m, m ≤ n → Prompt m notElse notElse (branches (statement .standard)) from
    hall n (Nat.le_refl n)
  intro m
  induction m with
  | zero =>
    intro _
    refine ⟨⟨[], ([], none), fun d hd hk => ⟨?_, fun _ => hk⟩⟩,
      fun c _ _ hlen => absurd hlen (Nat.not_lt_zero _)⟩
    rw [nil_append, Cursor.behind_nil, heq d hd]
    exact refuse hk _
  | succ m ih =>
    intro hm
    have hfirst := (prompt_branch h).mono (Nat.le_of_succ_le hm) (fun _ => id) fun _ => id
    have hblock := (prompt_block h).mono (by omega : m ≤ n + 1) (fun _ => id) fun _ => id
    refine Prompt.congr ?_ heq
    exact prompt_accept_of_le (Nat.le_refl (m + 1)) (prompt_accept
        (hfirst.bind (fun first => (ih (by omega)).last _) fun _ _ => trivial)
        ((hblock.last _).narrow fun _ _ => trivial) (by rintro _ rfl; decide))
      (prompt_pure (m + 1) _ _) fun _ => id

theorem prompt_conditional : Prompt (n + 1) notElse (· = .keyword .kwIf)
    (conditional .standard (statement .standard)) :=
  prompt_expect fun _ => (prompt_branch h).bind (fun _ => (prompt_branches h).last _) fun _ _ => trivial

theorem prompt_whileStatement : Prompt (n + 1) anyKind (· = .keyword .kwWhile)
    (whileStatement .standard (statement .standard)) :=
  prompt_expect fun _ => (prompt_expression n .base).bind (fun condition => prompt_body h _)
    (by rintro _ rfl; decide)

theorem prompt_forStatement : Prompt (n + 1) anyKind (· = .keyword .kwFor)
    (forStatement .standard (statement .standard)) := by
  have hexpr := prompt_expression n .base
  exact prompt_expect fun _ => (prompt_expect fun _ => prompt_accept
    ((prompt_declarator n).beforeOr (by decide) fun index _ => hexpr.before (by decide) fun init _ =>
      hexpr.before (by decide) fun test _ => (prompt_loopUpdate n).before (by decide) fun r _ =>
        prompt_body h _)
    (hexpr.beforeOr (by decide) fun start _ => hexpr.before (by decide) fun stop _ => prompt_body h _)
    (by rintro _ rfl; decide)).shorten

theorem prompt_cases : Prompt n (fun k => inCase k = false ∧ k ≠ .keyword .kwCase)
    (fun k => inCase k = false ∧ k ≠ .keyword .kwCase)
    (many (· == .keyword .kwCase) (switchCase .standard (statement .standard))) := by
  have hitem : PromptOn (fun k => (k == .keyword .kwCase) = true) (n + 1) (fun k => inCase k = false)
      noKind (switchCase .standard (statement .standard)) := by
    refine promptOn_of_after (fun k hk => ?_) fun t _ _ =>
      ((prompt_expression n .base).before (by decide) fun guard _ => (prompt_caseBody h).last _).after
        (after_token t _)
    rw [beq_iff_eq.mp hk]
    exact nofun
  exact (prompt_many (fun k hk => ⟨beq_false_of_ne hk.2, hk.1⟩) hitem passes_switchCase).shorten

theorem prompt_switchStatement : Prompt (n + 1) anyKind (· = .keyword .kwSwitch)
    (switchStatement .standard (statement .standard)) := by
  have hdefault : Prompt n (· = .mark .closeCurly) (· = .mark .closeCurly)
      (switchDefault? (statement .standard)) :=
    prompt_accept (prompt_expect fun _ =>
      ((prompt_caseBody h).narrow (by rintro _ rfl; rfl)).last some).shorten
      (prompt_pure n _ none) (by rintro _ rfl; decide)
  have hcases : ∀ e : Expr, Prompt n anyKind _ (do
      let cases ← many (· == .keyword .kwCase) (switchCase .standard (statement .standard))
      let otherwise ← switchDefault? (statement .standard)
      let _ ← expectOr (.mark .closeCurly) "expected `case`, `default` or `\x7d` in switch"
      return .switch e cases otherwise : Parser Stmt) := fun e =>
    (prompt_cases h).bind (fun cases => hdefault.beforeOr rfl fun otherwise _ => prompt_pure n _ _)
      (by rintro _ rfl; decide)
  exact prompt_expect fun _ => (prompt_expect fun _ =>
    (prompt_expression n .base).before (by decide) fun e _ =>
    (prompt_expect fun _ => hcases e).shorten).shorten

end

theorem prompt_declaration (n : Nat) :
    PromptOn (fun k => Grammar.standard.statement k = some .declaration) (n + 1) anyKind noKind
      (declaration .standard) := by
  have hlist : Prompt n (fun k => k ≠ .mark .comma ∧ endsDeclarator k) byName
      (commaSeparated (declarator .standard)) :=
    prompt_commaSeparated (prompt_declarator n) passes_declarator fun _ => id
  have hvalues : ∀ f : List Expr → Stmt, Prompt n anyKind (· = .mark .semicolon) (do
      let values ← if ← accept (.mark .assignment) then commaSeparated (expression .standard .base)
        else pure []
      let _ ← expect (.mark .semicolon)
      return f values : Parser Stmt) := fun f =>
    prompt_accept ((prompt_expressions n).close _ (by decide)) (prompt_close _) (by rintro _ rfl; decide)
  refine promptOn_of_after ?_ fun t _ _ => (hlist.bind (fun ds => hvalues _) (by rintro _ rfl; decide)).after
    (after_token t _)
  rintro k hk rfl
  exact nomatch hk

theorem prompt_returnStatement (n : Nat) :
    Prompt (n + 1) anyKind (· = .keyword .kwReturn) (returnStatement .standard) :=
  prompt_expect fun _ => prompt_peek (.mark .semicolon) (prompt_close _)
    (((prompt_expression n .base).last some).close _ (by decide)) (fun k hk => if_neg hk)
    (by rintro _ rfl; decide) fun _ => id

theorem prompt_printStatement (n : Nat) :
    Prompt (n + 1) anyKind (· = .keyword .kwPrint) (printStatement .standard) :=
  prompt_expect fun _ => (prompt_expression n .base).close _ (by decide)

theorem prompt_bareStatement (k : Keyword) (s : Stmt) (n : Nat) :
    Prompt (n + 1) anyKind (· = .keyword k) (bareStatement k s) :=
  prompt_expect fun _ => prompt_close s

theorem prompt_plainStatement (n : Nat) :
    Prompt n anyKind byName (plainStatement .standard) := by
  have hassign : ∀ targets, Prompt n anyKind byName (do
      let values ← commaSeparated (expression .standard .base)
      let _ ← expect (.mark .semicolon)
      return .assign targets values : Parser Stmt) :=
    fun targets => (prompt_expressions n).close _ (by decide)
  unfold plainStatement
  refine (prompt_expressions n).bind (?_ : ∀ targets, Prompt n anyKind
    (fun k => k = .mark .assignment ∨ k = .mark .semicolon) _) (by rintro _ (rfl | rfl) <;> decide)
  intro targets
  by_cases hone : ∃ value, targets = [value]
  · obtain ⟨value, rfl⟩ := hone
    refine Prompt.mono ?_ (Nat.le_refl n) (fun _ => id) fun _ => .inr
    exact prompt_accept (hassign [value]) (prompt_close _) (by rintro _ rfl; decide)
  · refine Prompt.mono ?_ (Nat.le_refl n) (fun _ => id) fun _ => .inl
    refine (prompt_of_kind (fun t hk => after_accept hk _) (fun t hk => ?_) fun _ => hassign targets).shorten
    refine rejects_unexpectedFor "expected `=` after assignment targets" fun d hd => ?_
    rw [refuse (by subst hd; exact hk)]
    split
    · next htrue => cases htrue
    split
    · next value => exact absurd ⟨value, rfl⟩ hone
    · rfl

/-! ## programs -/

theorem StatementRule.promptOn_read (h : Prompt n notElse byName (statement .standard))
    (rule : StatementRule) :
    PromptOn (fun k => Grammar.standard.statement k = some rule) (n + 1) notElse
      (fun k => Grammar.standard.statement k = some rule) (rule.read .standard (statement .standard)) := by
  have hany : ∀ {k : TokenKind} {p : Parser Stmt}, Grammar.standard.statement k = some rule →
      Prompt (n + 1) anyKind (· = k) p → PromptOn (fun k => Grammar.standard.statement k = some rule)
        (n + 1) notElse (fun k => Grammar.standard.statement k = some rule) p := by
    intro k p hk hp
    refine hp.on.mono (fun _ _ => trivial) (Nat.le_refl _) (fun _ _ => trivial) ?_
    rintro _ rfl
    exact hk
  cases rule with
  | declaration =>
    exact (prompt_declaration n).mono (fun _ => id) (Nat.le_refl _) (fun _ _ => trivial)
      fun _ hk => hk.elim
  | function => exact hany rfl (prompt_functionDeclaration h)
  | classDef => exact hany rfl (prompt_classDeclaration h)
  | conditional =>
    refine (prompt_conditional h).on.mono (fun _ _ => trivial) (Nat.le_refl _) (fun _ => id) ?_
    rintro _ rfl
    rfl
  | whileLoop => exact hany rfl (prompt_whileStatement h)
  | forLoop => exact hany rfl (prompt_forStatement h)
  | switch => exact hany rfl (prompt_switchStatement h)
  | breakLoop | continueLoop => exact hany rfl (prompt_bareStatement _ _ n)
  | returnValue => exact hany rfl (prompt_returnStatement n)
  | print => exact hany rfl (prompt_printStatement n)
  | block => exact hany rfl ((prompt_block h).last Stmt.block)

theorem statementStep_of_none {c : Cursor} (h : Grammar.standard.statement c.kind = none)
    (inner : Parser Stmt) : statementStep .standard inner c = plainStatement .standard c := by
  have hpeek : peek c = .done c.kind c := rfl
  unfold statementStep
  simp only [bind_done hpeek, h]

theorem statementStep_of_some {c : Cursor} (h : Grammar.standard.statement c.kind = some rule)
    (inner : Parser Stmt) : statementStep .standard inner c = rule.read .standard inner c := by
  have hpeek : peek c = .done c.kind c := rfl
  unfold statementStep
  simp only [bind_done hpeek, h]

theorem completes_statementStep (inner : Parser Stmt) :
    Completes notElse byName (statementStep .standard inner) [] := by
  have hplain := (prompt_plainStatement 0).completes.mono (fun k (_ : notElse k) => trivial) fun _ => id
  refine hplain.congr (T := fun k => Grammar.standard.statement k = none)
    (fun d _ hk => statementStep_of_none hk inner) ?_
  rintro _ rfl
  rfl

theorem prompt_statementStep (h : Prompt n notElse byName (statement .standard)) :
    Prompt (n + 1) notElse byName (statementStep .standard (statement .standard)) := by
  refine ⟨completes_statementStep _, fun c hc hfree hlen _ => ?_⟩
  cases hrule : Grammar.standard.statement c.kind with
  | none =>
    have hplain := (prompt_plainStatement (n + 1)).on c hc hfree hlen trivial
    refine (hplain.congr (T := fun k => Grammar.standard.statement k = none)
      (fun d _ hk => statementStep_of_none hk _) hc hrule ?_).mono (fun _ _ => trivial) fun _ => id
    rintro _ rfl
    rfl
  | some rule =>
    have hread := (rule.promptOn_read h c hc hfree hlen hrule).congr
      (fun d _ hk => statementStep_of_some hk (statement .standard)) hc hrule fun _ => id
    have hshort : ∀ s c', statementStep .standard (statement .standard) c = .done s c' →
        c'.ahead.length < c.ahead.length := by
      intro s c' hdone
      have := (passes_statement c c' s hc trivial ((statement_eq hc).trans hdone)).length_le
      omega
    rcases hread.advance hc hshort with hreject | hprompt
    · exact promptAt_of_rejects hreject (completes_statementStep _)
    · exact hprompt.mono (fun _ => id) fun _ hk => hk.elim

theorem prompt_statement (n : Nat) : Prompt n notElse byName (statement .standard) := by
  induction n with
  | zero =>
    have heq : ∀ d : Cursor, d.Ended → anyKind d.kind → statement .standard d = _ :=
      fun d hd _ => statement_eq hd
    exact ⟨(completes_statementStep _).congr heq fun _ _ => trivial,
      fun c _ _ hlen => absurd hlen (Nat.not_lt_zero _)⟩
  | succ n ih => exact (prompt_statementStep ih).congr fun d hd => statement_eq hd

theorem prompt_program (n : Nat) : Prompt n (· = .eof) (· = .eof) (program .standard) := by
  refine prompt_many ?_ (prompt_statement n).onKinds passes_statement.on
  rintro _ rfl
  exact ⟨rfl, nofun⟩

/-! ## token lists -/

theorem Cursor.exists_rest (c : Cursor) : ∃ rest, c.ahead ++ [c.last] = c.current :: rest := by
  obtain ⟨ahead, last⟩ := c
  cases ahead with
  | nil => exact ⟨[], rfl⟩
  | cons t ts => exact ⟨ts ++ [last], rfl⟩

theorem Cursor.exists_ofTokens (h : EndsWithEof (pre ++ t :: rest)) (file : String) :
    ∃ d : Cursor, d.Ended ∧ d.current = t ∧ Cursor.ofTokens (pre ++ t :: rest) file = d.behind pre := by
  obtain ⟨front, last, hlist, hlast⟩ := h
  rcases eq_nil_or_concat rest with rfl | ⟨mid, u, rfl⟩
  · obtain ⟨rfl, hone⟩ := append_inj' hlist rfl
    obtain rfl : t = last := singleton_inj.mp hone
    refine ⟨⟨[], t⟩, hlast, rfl, ?_⟩
    rw [Cursor.ofTokens_concat pre hlast, Cursor.behind, append_nil]
  · rw [concat_eq_append, ← cons_append, ← append_assoc] at hlist ⊢
    obtain ⟨rfl, hone⟩ := append_inj' hlist rfl
    obtain rfl : u = last := singleton_inj.mp hone
    exact ⟨⟨t :: mid, u⟩, hlast, rfl, Cursor.ofTokens_concat _ hlast file⟩

/-- A syntax error is reported at the start of a token; the tokens before it are the beginning of a
program, and with that token they are the beginning of none: every list that goes on differently
behind it fails in the same way. -/
theorem parse_fails_at_first_impossible_token {source file : String} {ts : List Token}
    {d : Diagnostic} (hscan : scan source file = .ok ts)
    (hawait : ∀ t ∈ ts, t.kind ≠ .keyword .kwAwait) (hfail : parse ts file = .error d) :
    ∃ pre t rest, ts = pre ++ t :: rest ∧ d.position = some t.span.position ∧
      (∃ more program, EndsWithEof (pre ++ more) ∧ parse (pre ++ more) file = .ok program) ∧
      ∀ rest', EndsWithEof (pre ++ t :: rest') → parse (pre ++ t :: rest') file = .error d := by
  have hend : EndsWithEof ts := (Reader.tiles [] [] (.inl .nil) hscan).endsWithEof
  obtain ⟨front, last, rfl, hlast⟩ := hend
  have hfree : Cursor.AwaitFree ⟨front, last⟩ := fun t ht => hawait t (mem_append_left _ ht)
  unfold parse at hfail
  rw [Cursor.ofTokens_concat front hlast] at hfail
  rcases (prompt_program (front.length + 1)).on ⟨front, last⟩ hlast hfree (Nat.lt_succ_self _) trivial
    with ⟨pre, c, program, hc, -, hdone⟩ |
      ⟨pre, c, hc, ⟨fault, hplace, hreject⟩, more, program, hmore⟩
  · have hended : c.Ended := by
      cases hc
      exact hlast
    have hread := hdone c hended (.inl rfl)
    rw [← hc] at hread
    rw [hread] at hfail
    exact nomatch hfail
  · obtain ⟨ahead, last⟩ := c
    cases hc
    obtain ⟨reached, hfailed⟩ := hreject ⟨ahead, last⟩ hlast rfl
    obtain rfl : fault = d := by
      rw [show Cursor.mk (pre ++ ahead) last = Cursor.behind pre ⟨ahead, last⟩ from rfl, hfailed] at hfail
      exact Except.error.inj hfail
    obtain ⟨rest, hrest⟩ := Cursor.exists_rest ⟨ahead, last⟩
    refine ⟨pre, _, rest, ?_, hplace, ⟨more ++ [last], program, ?_, ?_⟩, fun rest' hrest' => ?_⟩
    · rw [append_assoc]
      exact congrArg (pre ++ ·) hrest
    · exact ⟨pre ++ more, last, (append_assoc _ _ _).symm, hlast⟩
    · unfold parse
      have hread := (hmore ⟨[], last⟩ hlast hlast).1
      rw [Cursor.behind, append_nil] at hread
      rw [← append_assoc, Cursor.ofTokens_concat _ hlast, hread]
      rfl
    · obtain ⟨e, he, hcurrent, hcursor⟩ := Cursor.exists_ofTokens hrest' file
      obtain ⟨reached', hfailed'⟩ := hreject e he hcurrent
      unfold parse
      rw [hcursor, hfailed']
      rfl

def callTokens : List Token :=
  [⟨.identifier, "f", ⟨0, 1, "a.sc"⟩⟩, ⟨.mark .openParen, "(", ⟨1, 2, "a.sc"⟩⟩,
   ⟨.number, "1", ⟨2, 3, "a.sc"⟩⟩, ⟨.number, "2", ⟨4, 5, "a.sc"⟩⟩,
   ⟨.mark .closeParen, ")", ⟨5, 6, "a.sc"⟩⟩, .endOf ⟨6, 6, "a.sc"⟩]

/-- a comma is missing: `f(1` can go on, but not with `2` -/
theorem parse_fails_at_first_impossible_token_call :
    scan "f(1 2)" "a.sc" = .ok callTokens ∧ (∀ t ∈ callTokens, t.kind ≠ .keyword .kwAwait) ∧
      ∃ d, parse callTokens "a.sc" = .error d ∧ d.position = some ⟨4, "a.sc"⟩ ∧
        ∃ pre t rest, callTokens = pre ++ t :: rest ∧ d.position = some t.span.position ∧
          (∃ more program, EndsWithEof (pre ++ more) ∧ parse (pre ++ more) "a.sc" = .ok program) ∧
          ∀ rest', EndsWithEof (pre ++ t :: rest') → parse (pre ++ t :: rest') "a.sc" = .error d := by
  have hscan : scan "f(1 2)" "a.sc" = .ok callTokens := by
    have htokens : (scan "f(1 2)" "a.sc").toOption = some callTokens := by decide +kernel
    cases h : scan "f(1 2)" "a.sc" with
    | error d => rw [h] at htokens; exact nomatch htokens
    | ok ts => rw [h] at htokens; exact congrArg Except.ok (Option.some.inj htokens)
  have hawait : ∀ t ∈ callTokens, t.kind ≠ .keyword .kwAwait := by decide
  have hfail : parse callTokens "a.sc" = .error
      (.atPosition (.unexpectedTokenDetailed "2" "expected `,` or closing `CloseParen`") ⟨4, "a.sc"⟩) := rfl
  exact ⟨hscan, hawait, _, hfail, rfl, parse_fails_at_first_impossible_token hscan hawait hfail⟩

end TypedScript
