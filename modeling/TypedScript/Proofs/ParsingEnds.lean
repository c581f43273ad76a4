import TypedScript.Proofs.TokenUse

/-!
# Parsing ends

The readers are bounded: by depth, and by how often a phrase is repeated.  Without the bounds they would
read the same, since no reader ever reaches one: none replies that it is `exhausted`.  A statement, an
expression or a written type that is read passes a token, so the tokens that are left become fewer before a
phrase is read again, inside another one or behind it; and at an end marker each of them fails.
-/

namespace TypedScript

open TypedScript.Parser

section
variable {α : Type}

/-- a reply with a value or a failure; no bound was reached -/
def Reply.Answers (r : Reply α) : Prop := (∃ a c, r = .done a c) ∨ ∃ d c, r = .failed d c

/-- there is always a value or a failure, a value lies at least one token further ahead, and neither lies
behind an end marker -/
def GoesForward (p : Parser α) : Prop :=
  ∀ c : Cursor, c.Ended → (p c).Answers ∧ c.Reaches 0 (p c).rest ∧ ∀ a c', p c = .done a c' → c.Reaches 1 c'

/-- `item` is repeated as long as the current token allows it -/
def GoesOn (allows : TokenKind → Bool) (item : Parser α) : Prop :=
  ∀ c : Cursor, c.Ended → many allows item c
    = if allows c.kind then
        (do let a ← item; let as ← many allows item; return a :: as : Parser (List α)) c
      else .done [] c

/-- `step` is repeated as long as the current token allows it -/
def GrowsOn (allows : TokenKind → Bool) (step : α → Parser α) : Prop :=
  ∀ (a : α) (c : Cursor), c.Ended → fold allows step a c
    = if allows c.kind then (step a >>= fold allows step) c else .done a c

theorem GoesOn.separated {item : Parser α} (h : Passes anyKind item) :
    GoesOn (· == .mark .comma) (do let _ ← token; item) :=
  fun _ hc => many_eq (passes_commaItem h) hc

theorem GoesOn.terminated {item : Parser α} (h : Passes anyKind item) (closing : TokenKind)
    (message : String) : GoesOn (· != closing) (do
      let a ← item
      if ← accept (.mark .comma) then return a
      if (← peek) = closing then return a
      unexpectedFor message) :=
  fun _ hc => many_eq (passes_closedItem h closing message).on hc

end

/-- The language is read without bounds.  A phrase is read by its rule, with the same readers for the phrases
inside it, and each loop of the rules goes on until the current token ends it or an item fails. -/
structure Unbounded : Prop where
  type : ∀ (power : Power) (c : Cursor), c.Ended →
    typeTerm .standard power c = typeTermStep .standard (typeTerm .standard) power c
  expression : ∀ (power : Power) (c : Cursor), c.Ended →
    expression .standard power c = exprStep .standard (expression .standard) power c
  statement : ∀ c : Cursor, c.Ended → statement .standard c = statementStep .standard (statement .standard) c
  suffixes : ∀ power, GrowsOn (Grammar.standard.typeExtends? · power) (suffixStep .standard)
  operations : ∀ power, GrowsOn (Grammar.standard.extends? · power)
    (trailingStep .standard (TypedScript.expression .standard))
  typeArguments : GoesOn (· == .mark .comma) (do let _ ← token; typeTerm .standard .base)
  expressions : GoesOn (· == .mark .comma) (do let _ ← token; TypedScript.expression .standard .base)
  declarators : GoesOn (· == .mark .comma) (do let _ ← token; declarator .standard)
  elements : ∀ closing message, GoesOn (· != closing) (do
    let e ← TypedScript.expression .standard .base
    if ← accept (.mark .comma) then return e
    if (← peek) = closing then return e
    unexpectedFor message)
  entries : GoesOn (· == .mark .comma) (furtherEntry (TypedScript.expression .standard))
  parameters : ∀ closing message, GoesOn (· != closing) (do
    let p ← parameter .standard
    if ← accept (.mark .comma) then return p
    if (← peek) = closing then return p
    unexpectedFor message)
  block : ∀ message, GoesOn (· != .mark .closeCurly) (do
    if (← peek) = .eof then unexpectedFor message
    TypedScript.statement .standard : Parser Stmt)
  branches : ∀ c : Cursor, c.Ended → branches (TypedScript.statement .standard) c
    = branchesStep (TypedScript.statement .standard) (branches (TypedScript.statement .standard)) c
  cases : GoesOn (· == .keyword .kwCase) (switchCase .standard (TypedScript.statement .standard))
  caseBody : GoesOn inCase (TypedScript.statement .standard)
  program : GoesOn (· != .eof) (TypedScript.statement .standard)

theorem unbounded_standard : Unbounded where
  type power _ hc := typeTerm_eq power hc
  expression power _ hc := expression_eq power hc
  statement _ hc := statement_eq hc
  suffixes power a _ hc := fold_eq (passes_suffixStep power) a hc
  operations power a _ hc := fold_eq (passes_trailingStep power) a hc
  typeArguments := .separated (passes_typeTerm .base)
  expressions := .separated (passes_expression .base)
  declarators := .separated passes_declarator
  elements := .terminated (passes_expression .base)
  entries _ hc := many_eq passes_furtherEntry hc
  parameters := .terminated passes_parameter
  block message _ hc := many_eq (passes_blockItem message).on hc
  branches _ hc := branches_eq hc
  cases _ hc := many_eq passes_switchCase hc
  caseBody _ hc := many_eq passes_statement.on hc
  program _ hc := many_eq passes_statement.on hc

theorem Reply.Twin.answers {α : Type} {R : α → α → List Literal → Nat → Prop} {r s : Reply α}
    (h : Reply.Twin T c R r s) : r.Answers := by
  cases r with
  | done a c' => exact .inl ⟨a, c', rfl⟩
  | failed d c' => exact .inr ⟨d, c', rfl⟩
  | exhausted c' => exact h.elim

theorem goesForward_of_twins {α : Type} {p : Parser α} {R : Rereading → α → α → List Literal → Nat → Prop}
    (h : ∀ T n, Twins T n p p (R T)) (hpasses : Passes anyKind p) : GoesForward p := by
  intro c hc
  have htwin := h ⟨c.tokens, true⟩ c.bound c ⟨hc, fun _ ht => ht⟩ (Nat.lt_succ_self _)
  exact ⟨htwin.answers, htwin.reaches, fun a c' hdone => hpasses c c' a hc trivial hdone⟩

theorem Cursor.tokens_ofTokens (tokens : List Token) (file : String) :
    (Cursor.ofTokens tokens file).Ended ∧ ((Cursor.ofTokens tokens file).tokens = tokens ∨
      ∃ marker : Token, marker.kind = .eof ∧ (Cursor.ofTokens tokens file).tokens = tokens ++ [marker]) := by
  unfold Cursor.ofTokens
  split
  · next hnone =>
    rw [List.getLast?_eq_none_iff.mp hnone]
    exact ⟨rfl, .inr ⟨_, rfl, rfl⟩⟩
  · next t hlast =>
    obtain ⟨front, rfl⟩ := List.getLast?_eq_some_iff.mp hlast
    split
    · next hkind => exact ⟨hkind, .inl (by rw [List.dropLast_concat]; rfl)⟩
    · exact ⟨rfl, .inr ⟨_, rfl, rfl⟩⟩

/-- Every token list is read to its end or to a failure, by readers whose bounds never end anything.  Every
statement, expression and written type is read or fails; one that is read passes a token, and no reader passes
an end marker.  A program is read exactly up to the first one. -/
theorem parse_passes_each_token_once (tokens : List Token) (file : String) :
    Unbounded ∧ GoesForward (statement .standard) ∧ (∀ power, GoesForward (expression .standard power)) ∧
    (∀ power, GoesForward (typeTerm .standard power)) ∧
    let start := Cursor.ofTokens tokens file
    start.Ended ∧ (start.tokens = tokens ∨
      ∃ marker : Token, marker.kind = .eof ∧ start.tokens = tokens ++ [marker]) ∧
    match parse tokens file with
    | .ok p => ∃ stop, program .standard start = .done p stop ∧ start.Reaches 0 stop ∧ stop.kind = .eof
    | .error d => ∃ stop, program .standard start = .failed d stop ∧ start.Reaches 0 stop := by
  obtain ⟨hended, htokens⟩ := Cursor.tokens_ofTokens tokens file
  refine ⟨unbounded_standard, goesForward_of_twins (fun _ _ => twins_statement) passes_statement,
    fun power => goesForward_of_twins (fun _ _ => twins_expression power) (passes_expression power),
    fun power => goesForward_of_twins (fun _ _ => twins_typeTerm power) (passes_typeTerm power), hended,
    htokens, ?_⟩
  have htwin := twins_program (T := ⟨_, true⟩) _ ⟨hended, fun _ ht => ht⟩ (Nat.lt_succ_self _)
  have hreaches := htwin.reaches
  unfold parse
  obtain ⟨p, stop, hread⟩ | ⟨d, stop, hread⟩ := htwin.answers
  · rw [hread] at hreaches ⊢
    exact ⟨stop, rfl, hreaches, kind_of_program hended hread⟩
  · rw [hread] at hreaches ⊢
    exact ⟨stop, rfl, hreaches⟩

end TypedScript
