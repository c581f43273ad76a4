import TypedScript.Proofs.Reading

/-!
# Reading expressions

Every expression is read as itself at every power at which the grammar reads one, from its lexemes
in the parentheses that this power asks for (`Expr.placed`).

A rule reads the phrases inside it by the reader one level below, so `reads_exprAt` goes by induction
on the level; `growsTo_lexemes` is its step, and goes by induction on the expression, along the left
operands that the loop over operators builds up.
-/

namespace TypedScript

open TypedScript.Parser List

/-! ## powers -/

variable {p : Power}

/-- an expression that is read at `power` ends before a token of this kind -/
def endsAt (power : Power) (k : TokenKind) : Prop := Grammar.standard.extends? k power = false

instance (power : Power) : DecidablePred (endsAt power) := fun _ => inferInstanceAs (Decidable (_ = _))

theorem endsAt_mono {q : Power} (h : p.rank ≤ q.rank) (hk : endsAt p k) : endsAt q k := by
  unfold endsAt Grammar.extends? at hk ⊢
  split at hk
  · next r _ _ =>
    have hr : ¬ p.rank < r.rank := of_decide_eq_false hk
    exact decide_eq_false (by omega)
  · rfl

theorem endsAt_member (k : TokenKind) : endsAt .member k := by
  cases k with
  | mark m => cases m <;> rfl
  | _ => rfl

/-- the least rank of an expression that is read at a power without parentheses; a prefix is read at
every power -/
def Power.least (p : Power) : Nat := min (p.rank + 1) Power.unary.rank

/-- the lexemes of an expression in a place where it is read at a power -/
def Expr.placed (e : Expr) (p : Power) : List Lexeme := enclosed p.least e e.lexemes

theorem Expr.binding_pos (e : Expr) : 0 < e.binding.rank := by
  unfold Expr.binding
  split
  · next op _ _ _ => cases op <;> decide
  all_goals decide

theorem Expr.placed_base (e : Expr) : e.placed .base = e.lexemes :=
  if_neg (by have := e.binding_pos; show ¬ e.binding.rank < 1; omega)

/-- the power at which the right operand of an operator is read -/
def BinaryOp.rightPower (op : BinaryOp) : Power := if op = .power then .multiplicative else op.binding

theorem BinaryOp.rightPower_least (op : BinaryOp) : op.rightPower.least = op.rightLeast := by
  cases op <;> rfl

theorem BinaryOp.rightPower_rank (op : BinaryOp) : op.rightPower.rank < Power.unary.rank := by
  cases op <;> decide

/-- the power at which the last operand of an expression is read -/
def Expr.rightPower : Expr → Power
  | .binary op _ _ _ => op.rightPower
  | .unary _ _ _ => .unary
  | .call _ _ true _ _ => .unary
  | _ => .member

/-- where an expression stands without parentheses, it does not end later than its place -/
theorem Expr.rank_le_rightPower {e : Expr} (hp : p.rank ≤ Power.unary.rank)
    (h : p.least ≤ e.binding.rank) : p.rank ≤ e.rightPower.rank := by
  have hmember : p.rank ≤ Power.member.rank := Nat.le_trans hp (by decide)
  cases e with
  | binary op left right t =>
    have hop : ∀ q : Power, q.least ≤ op.binding.rank → q.rank ≤ op.rightPower.rank := by
      intro q
      cases op <;> cases q <;> decide
    exact hop p h
  | unary op operand t => exact hp
  | call callee arguments awaited constructs t =>
    cases awaited with
    | true => exact hp
    | false => exact hmember
  | _ => exact hmember

/-! ## first tokens -/

/-- a token of this kind starts an expression -/
def leads (k : TokenKind) : Prop := (Grammar.standard.leading k).isSome = true

instance : DecidablePred leads := fun _ => inferInstanceAs (Decidable (_ = _))

theorem leads_ne (hk : leads k) (hk' : ¬ leads k') : k ≠ k' :=
  fun h => hk' (h ▸ hk)

theorem starts_enclosed (hparen : S (.mark .openParen)) (least : Nat) (e : Expr) (h : Starts S w) :
    Starts S (enclosed least e w) := by
  unfold enclosed
  split
  · exact ⟨Mark.openParen.lexeme, _, rfl, hparen⟩
  · exact h

theorem Literal.leads (v : Literal) : TypedScript.leads v.lexeme.1 := by
  cases v with
  | boolean b => cases b <;> rfl
  | _ => rfl

theorem Expr.starts {e : Expr} (h : e.WellFormed) : Starts leads e.lexemes := by
  have hparen : leads (.mark .openParen) := by decide
  induction h with
  | @literal v _ => exact ⟨v.lexeme, [], rfl, v.leads⟩
  | @name x _ => exact ⟨nameLexeme x, [], rfl, rfl⟩
  | @binary op left right _ _ ihl _ => exact (starts_enclosed hparen _ left ihl).append _
  | @unary op operand _ _ => exact ⟨op.mark.lexeme, _, rfl, by cases op <;> rfl⟩
  | @call callee arguments awaited _ _ ih _ =>
    cases awaited with
    | true => exact ⟨Keyword.kwAwait.lexeme, _, rfl, rfl⟩
    | false => exact (starts_enclosed hparen _ callee ih).append _
  | @subscript base index _ _ ih _ => exact (starts_enclosed hparen _ base ih).append _
  | @member object x _ _ ih => exact (starts_enclosed hparen _ object ih).append _
  | @collection form elements _ _ _ =>
    cases form with
    | array => exact ⟨Mark.openBracket.lexeme, _, rfl, rfl⟩
    | set => exact ⟨Mark.openCurly.lexeme, _, rfl, rfl⟩
    | tuple =>
      cases elements with
      | nil => exact ⟨Mark.openParen.lexeme, _, rfl, rfl⟩
      | cons e es => cases es <;> exact ⟨Mark.openParen.lexeme, _, rfl, rfl⟩
  | @dict entries _ _ _ _ => exact ⟨Mark.openCurly.lexeme, _, rfl, rfl⟩

/-! ## numerals -/

variable {n : Nat}

theorem digitsValue_toDigits (n : Nat) : Text.digitsValue (Nat.toDigits 10 n) = n := by
  have h := Nat.ofDigitChars_ten_toDigits (n := n)
  rwa [Nat.ofDigitChars_eq_foldl] at h

theorem isDigit_of_mem_toDigits {c : Char} (h : c ∈ Nat.toDigits 10 n) : Text.isDigit c = true := by
  have hc := Nat.isDigit_of_mem_toDigits (by decide) (by decide) h
  simp only [Char.isDigit, ge_iff_le, Bool.and_eq_true, decide_eq_true_eq] at hc
  simp only [Text.isDigit, Bool.and_eq_true, decide_eq_true_eq]
  exact hc

theorem nonnegative64?_toDigits (h : n < Text.signBound) :
    Text.nonnegative64? (Nat.toDigits 10 n) = some (n : Int) := by
  have hnat : Text.natural? (Nat.toDigits 10 n) = some n := by
    unfold Text.natural?
    rw [if_pos ⟨Nat.toDigits_ne_nil, all_eq_true.mpr fun c => isDigit_of_mem_toDigits⟩,
      digitsValue_toDigits]
  unfold Text.nonnegative64?
  rw [hnat, Option.bind_some, if_pos h]

theorem signed64?_toString {n : Int} (h0 : 0 ≤ n) (h : n < Text.signBound) :
    Text.signed64? (toString n).toList = some n := by
  obtain ⟨m, rfl⟩ := Int.eq_ofNat_of_zero_le h0
  have hlist : (toString (m : Int)).toList = Nat.toDigits 10 m := Nat.toList_repr
  rw [hlist]
  have hdigit := fun c => @isDigit_of_mem_toDigits m c
  have hvalue := nonnegative64?_toDigits (n := m) (by omega)
  unfold Text.signed64?
  split
  · next cs hcs => exact absurd (hdigit '-' (by rw [hcs]; exact mem_cons_self)) (by decide)
  · next cs hcs => exact absurd (hdigit '+' (by rw [hcs]; exact mem_cons_self)) (by decide)
  · exact hvalue

/-! ## first operands -/

section
variable {inner : Power → Parser Expr}

variable {P : TokenKind → Prop} {e : Expr} {w : List Lexeme} {es : List Expr}

theorem reads_primary_literal {v : Literal} (hv : v.WellFormed) (P : TokenKind → Prop) :
    Reads primary [v.lexeme] (.literal v none) P := by
  refine reads_here fun place => reads_token v.lexeme fun t ht => ?_
  have hkind : t.kind = v.lexeme.1 := congrArg Prod.fst ht
  have hvalue : t.value = v.lexeme.2 := congrArg Prod.snd ht
  rw [hkind, hvalue]
  cases v with
  | integer n =>
    dsimp only [Literal.lexeme]
    rw [signed64?_toString hv.1 hv.2]
    exact reads_pure _ P
  | boolean b => cases b <;> exact reads_pure _ P
  | _ => exact reads_pure _ P

theorem reads_primary_name (x : String) (P : TokenKind → Prop) :
    Reads primary [nameLexeme x] (.name (.ofName x) none) P := by
  refine reads_here fun place => reads_token (nameLexeme x) fun t ht => ?_
  have hkind : t.kind = .identifier := congrArg Prod.fst ht
  have hvalue : t.value = x := congrArg Prod.snd ht
  rw [hkind, hvalue]
  exact reads_pure _ P

theorem reads_unaryOperation (op : UnaryOp) (h : Reads (inner .unary) w e P) :
    Reads (unaryOperation inner) (op.mark.lexeme :: w) (.unary op e none) P := by
  refine reads_here fun place => reads_token op.mark.lexeme fun t ht => ?_
  have hkind : t.kind = .mark op.mark := congrArg Prod.fst ht
  rw [hkind, UnaryOp.ofKind?_mark]
  exact h.last fun e => Expr.unary op e none

theorem reads_awaitedCall {as : List Expr} (h : Reads (inner .unary) w (.call f as b c t) P) :
    Reads (awaitedCall inner) (Keyword.kwAwait.lexeme :: w) (.call f as true c t) P := by
  refine reads_expect Keyword.kwAwait.lexeme fun _ _ => reads_here fun place => ?_
  rw [← append_nil w]
  exact h.bind (reads_pure _ P) fun k hk => hk

def ReadsInside (inner : Power → Parser Expr) (e : Expr) : Prop :=
  Reads (inner .base) e.lexemes e (endsAt .base) ∧ Starts leads e.lexemes

theorem reads_expressionList (closing : TokenKind) (h : ∀ e ∈ es, ReadsInside inner e)
    (hends : endsAt .base closing) (hlead : ¬ leads closing) (hcomma : closing ≠ .mark .comma) :
    Reads (expressionList inner closing) (listed es) es (· = closing) :=
  reads_commaTerminated closing _ es (fun e he => (h e he).1) rfl hends hcomma
    fun e he => (h e he).2.mono fun _ hk => leads_ne hk hlead

theorem reads_grouping (h : ReadsInside inner e) (P : TokenKind → Prop) :
    Reads (grouping inner) (inParens e.lexemes) e P := by
  refine reads_expect Mark.openParen.lexeme fun _ _ => reads_refuse _ ?_ ?_
  · refine h.1.bind (reads_refuse _ ?_ ?_) fun _ _ => rfl
    · exact reads_expect Mark.closeParen.lexeme fun _ _ => reads_pure e P
    · exact fun _ _ => (by decide : TokenKind.mark .closeParen ≠ .mark .comma)
  · exact fun k _ => leads_ne ((h.2.append _).kindBefore k) (by decide)

theorem reads_grouping_tuple (h : ∀ e ∈ es, ReadsInside inner e) (P : TokenKind → Prop) :
    Reads (grouping inner) (Collection.tuple.lexemes (es.map Expr.lexemes))
      (.collection .tuple es none) P := by
  cases es with
  | nil =>
    refine reads_expect Mark.openParen.lexeme fun _ _ => ?_
    exact reads_accept Mark.closeParen.lexeme (reads_pure _ P)
  | cons e es =>
    have hw : Collection.tuple.lexemes ((e :: es).map Expr.lexemes)
        = inParens (e.lexemes ++ Mark.comma.lexeme :: listed es) := by cases es <;> rfl
    have he := h e mem_cons_self
    have hes := reads_expressionList (.mark .closeParen)
      (fun e' he' => h e' (mem_cons_of_mem e he')) rfl (by decide) (by decide)
    rw [hw, inParens, append_assoc]
    refine reads_expect Mark.openParen.lexeme fun _ _ => reads_refuse _ ?_ ?_
    · refine he.1.bind (reads_accept Mark.comma.lexeme ?_) fun _ _ => rfl
      refine hes.bind (reads_expect Mark.closeParen.lexeme fun _ _ => reads_pure _ P) fun _ _ => rfl
    · exact fun k _ => leads_ne ((he.2.append _).kindBefore k) (by decide)

theorem reads_arrayLiteral (h : ∀ e ∈ es, ReadsInside inner e) (P : TokenKind → Prop) :
    Reads (arrayLiteral inner) (inBrackets (listed es)) (.collection .array es none) P := by
  have hes := reads_expressionList (.mark .closeBracket) h rfl (by decide) (by decide)
  refine reads_expect Mark.openBracket.lexeme fun _ _ => ?_
  exact hes.bind (reads_expect Mark.closeBracket.lexeme fun _ _ => reads_pure _ P) fun _ _ => rfl

theorem reads_curlyLiteral_set (hne : es ≠ []) (h : ∀ e ∈ es, ReadsInside inner e) (P : TokenKind → Prop) :
    Reads (curlyLiteral inner) (inCurly (listed es)) (.collection .set es none) P := by
  cases es with
  | nil => exact absurd rfl hne
  | cons e es =>
    have he := h e mem_cons_self
    have hes := reads_expressionList (.mark .closeCurly)
      (fun e' he' => h e' (mem_cons_of_mem e he')) rfl (by decide) (by decide)
    have hclose : ∀ others : List Expr, Reads (do
        let _ ← expect (.mark .closeCurly)
        return .collection .set (e :: others) none : Parser Expr) [Mark.closeCurly.lexeme]
        (.collection .set (e :: others) none) P := fun others =>
      reads_expect Mark.closeCurly.lexeme fun _ _ => reads_pure _ P
    refine reads_expect Mark.openCurly.lexeme fun _ _ => reads_refuse _ ?_ ?_
    · cases es with
      | nil =>
        refine he.1.bind (reads_refuse _ (reads_refuse _ ?_ ?_) ?_) fun _ _ => rfl
        · exact (reads_pure [] anyKind).skip (hclose []) fun _ _ => trivial
        · exact fun _ _ => (by decide : TokenKind.mark .closeCurly ≠ .mark .comma)
        · exact fun _ _ => (by decide : TokenKind.mark .closeCurly ≠ .mark .colon)
      | cons e' es =>
        show Reads _ ((e.lexemes ++ Mark.comma.lexeme :: listed (e' :: es)) ++ _) _ P
        rw [append_assoc]
        refine he.1.bind (reads_refuse _ (reads_accept Mark.comma.lexeme ?_) ?_) fun _ _ => rfl
        · exact hes.bind (hclose (e' :: es)) fun _ _ => rfl
        · exact fun _ _ => (by decide : TokenKind.mark .comma ≠ .mark .colon)
    · have hfirst : Starts leads (listed (e :: es) ++ [Mark.closeCurly.lexeme]) := by
        show Starts leads (commas (e.lexemes :: es.map Expr.lexemes) ++ _)
        rw [commas_cons]
        exact (he.2.append _).append _
      exact fun k _ => leads_ne (hfirst.kindBefore k) (by decide)

def entryLexemes (e : Expr × Expr) : List Lexeme :=
  e.1.lexemes ++ Mark.colon.lexeme :: e.2.lexemes

theorem reads_furtherEntry (hk : ReadsInside inner k) (hv : ReadsInside inner v) :
    Reads (furtherEntry inner) (Mark.comma.lexeme :: entryLexemes (k, v)) (some (k, v)) (endsAt .base) := by
  refine reads_token Mark.comma.lexeme fun _ _ => reads_peek fun c hc => ?_
  have hne : kindBefore (entryLexemes (k, v)) c ≠ .mark .closeCurly :=
    leads_ne ((hk.2.append _).kindBefore c) (by decide)
  rw [if_neg hne]
  refine hk.1.bind (reads_expect Mark.colon.lexeme fun _ _ => ?_) fun _ _ => rfl
  exact (hv.1.last _).mono fun k' hk' => hk' ▸ hc

theorem reads_curlyLiteral_dict (hk : ∀ e ∈ entries, ReadsInside inner e.1)
    (hv : ∀ e ∈ entries, ReadsInside inner e.2) (P : TokenKind → Prop) :
    Reads (curlyLiteral inner) (inCurly (commas (entries.map entryLexemes))) (.dict entries none) P := by
  cases entries with
  | nil =>
    refine reads_expect Mark.openCurly.lexeme fun _ _ => ?_
    exact reads_accept Mark.closeCurly.lexeme (reads_pure _ P)
  | cons e es =>
    have hke := hk e mem_cons_self
    have hve := hv e mem_cons_self
    have hmany : Reads (many (· == .mark .comma) (furtherEntry inner))
        ((es.map some).flatMap fun o => Mark.comma.lexeme :: (o.map entryLexemes).getD [])
        (es.map some) fun k => (k == .mark .comma) = false ∧ endsAt .base k := by
      apply reads_many
      · intro o ho
        obtain ⟨e', he', rfl⟩ := mem_map.mp ho
        exact reads_furtherEntry (hk e' (mem_cons_of_mem e he'))
          (hv e' (mem_cons_of_mem e he'))
      · exact fun o _ => ⟨Mark.comma.lexeme, _, rfl, rfl, rfl⟩
    have hall : (es.map some).filterMap id = es := by simp
    rw [inCurly, map_cons, commas_cons, append_assoc]
    show Reads _ (Mark.openCurly.lexeme :: ((e.1.lexemes ++ Mark.colon.lexeme :: e.2.lexemes) ++ _)) _ P
    rw [append_assoc, cons_append]
    refine reads_expect Mark.openCurly.lexeme fun _ _ => reads_refuse _ ?_ ?_
    · refine hke.1.bind (reads_accept Mark.colon.lexeme ?_) fun _ _ => rfl
      refine hve.1.bind ?_ ?_
      · rw [flatMap_map] at hmany ⊢
        refine hmany.bind (reads_expect Mark.closeCurly.lexeme fun _ _ => ?_) fun _ _ => ⟨rfl, rfl⟩
        rw [hall]
        exact reads_pure _ P
      · cases es <;> exact fun _ _ => rfl
    · exact fun k _ => leads_ne ((hke.2.append _).kindBefore k) (by decide)

/-! ## operators -/

variable {left right : Expr}

theorem reads_binaryOperation (op : BinaryOp) (h : Reads (inner power) w right P) :
    Reads (binaryOperation inner left power) (op.mark.lexeme :: w) (.binary op left right none) P := by
  refine reads_here fun place => reads_token op.mark.lexeme fun t ht => ?_
  have hkind : t.kind = .mark op.mark := congrArg Prod.fst ht
  rw [hkind, BinaryOp.ofKind?_mark]
  exact h.last fun e => Expr.binary op left e none

theorem reads_powerOperation (h : Reads (inner .multiplicative) w right P) :
    Reads (powerOperation inner left) (Mark.caret.lexeme :: w) (.binary .power left right none) P :=
  reads_expect Mark.caret.lexeme fun _ _ => h.last fun e => Expr.binary .power left e none

theorem reads_callOperation (h : ∀ e ∈ es, ReadsInside inner e) (P : TokenKind → Prop) :
    Reads (callOperation inner left) (inParens (listed es)) (.call left es false false none) P := by
  have hes := reads_expressionList (.mark .closeParen) h rfl (by decide) (by decide)
  refine reads_expect Mark.openParen.lexeme fun _ _ => ?_
  exact hes.bind (reads_expect Mark.closeParen.lexeme fun _ _ => reads_pure _ P) fun _ _ => rfl

theorem reads_subscriptOperation (h : ReadsInside inner index) (P : TokenKind → Prop) :
    Reads (subscriptOperation inner left) (inBrackets index.lexemes) (.subscript left index none) P := by
  refine reads_expect Mark.openBracket.lexeme fun _ _ => ?_
  exact h.1.bind (reads_expect Mark.closeBracket.lexeme fun _ _ => reads_pure _ P) fun _ _ => rfl

theorem reads_memberOperation (left : Expr) (x : String) (P : TokenKind → Prop) :
    Reads (memberOperation left) [Mark.dot.lexeme, nameLexeme x] (.member left (.ofName x) none) P := by
  refine reads_expect Mark.dot.lexeme fun _ _ => ?_
  refine reads_expectOr (nameLexeme x) _ fun t ht => ?_
  have hvalue : t.value = x := congrArg Prod.snd ht
  rw [hvalue]
  exact reads_pure _ P

/-- the extension of an expression by what the current token announces -/
def trailingStep (g : Grammar) (inner : Power → Parser Expr) (left : Expr) : Parser Expr := do
  match g.trailing (← peek) with
  | some (p, rule) => rule.read inner left p
  | none => return left

theorem reads_trailingStep (hw : Starts (fun k => Grammar.standard.trailing k = some (p, rule)) w)
    (h : Reads (rule.read inner left p) w b P) : Reads (trailingStep .standard inner left) w b P := by
  refine reads_peek fun k hk => ?_
  rw [hw.kindBefore k]
  exact h.mono fun k' hk' => hk' ▸ hk

theorem BinaryOp.trailing (op : BinaryOp) : Grammar.standard.trailing (.mark op.mark)
    = some (op.binding, if op = .power then .power else .binary) := by
  cases op <;> rfl

/-- an operator extends its left operand, its right operand being read at `op.rightPower` -/
theorem reads_operator (op : BinaryOp) (h : Reads (inner op.rightPower) w right P) :
    Reads (trailingStep .standard inner left) (op.mark.lexeme :: w) (.binary op left right none) P := by
  refine reads_trailingStep ⟨op.mark.lexeme, w, rfl, op.trailing⟩ ?_
  by_cases hop : op = .power
  · subst hop
    exact reads_powerOperation h
  · unfold BinaryOp.rightPower at h
    rw [if_neg hop] at h ⊢
    exact reads_binaryOperation op h

end

/-! ## the loop over operators -/

variable {op : BinaryOp} {left : Expr}

theorem endsAt_operator {q : Power} (h : op.binding.rank ≤ q.rank) : endsAt q (.mark op.mark) := by
  unfold endsAt Grammar.extends?
  rw [op.trailing]
  exact decide_eq_false (by omega)

theorem extends_operator (h : p.rank < op.binding.rank) :
    Grammar.standard.extends? (.mark op.mark) p = true := by
  unfold Grammar.extends?
  rw [op.trailing]
  exact decide_eq_true h

theorem Expr.binding_le_rightPower
    (h : op.leftLeast ≤ left.binding.rank) : op.binding.rank ≤ left.rightPower.rank := by
  have hunary : op.binding.rank ≤ Power.unary.rank := by cases op <;> decide
  have hmember : op.binding.rank ≤ Power.member.rank := Nat.le_trans hunary (by decide)
  cases left with
  | binary op' l r t =>
    have hop : ∀ op' : BinaryOp, op.leftLeast ≤ op'.binding.rank →
        op.binding.rank ≤ op'.rightPower.rank := by
      cases op <;> intro op' <;> cases op' <;> decide
    exact hop op' h
  | unary op' x t => exact hunary
  | call f as awaited constructs t =>
    cases awaited with
    | true => exact hunary
    | false => exact hmember
  | _ => exact hmember

theorem Expr.endsAt_of_tight (h : Power.call.rank ≤ left.binding.rank)
    (k : TokenKind) : endsAt left.rightPower k := by
  have hunary : ¬ Power.call.rank ≤ Power.unary.rank := by decide
  cases left with
  | binary op l r t =>
    have hop : ¬ Power.call.rank ≤ op.binding.rank := by cases op <;> decide
    exact absurd h hop
  | unary op x t => exact absurd h hunary
  | call f as awaited constructs t =>
    cases awaited with
    | true => exact absurd h hunary
    | false => exact endsAt_member k
  | _ => exact endsAt_member k

section
variable {inner : Power → Parser Expr}

variable {P : TokenKind → Prop} {e : Expr} {w : List Lexeme}

theorem exprStep_of_leading {c : Cursor} (h : Grammar.standard.leading c.kind = some rule) (p : Power) :
    exprStep .standard inner p c
      = (rule.read inner >>= fold (Grammar.standard.extends? · p) (trailingStep .standard inner)) c := by
  unfold exprStep
  rw [bind_done (show peek c = .done c.kind c from rfl), h]
  rfl

/-- the loop at power `p` has read `e` from the lexemes `w` -/
def GrowsTo (inner : Power → Parser Expr) (p : Power) (w : List Lexeme) (e : Expr)
    (after : TokenKind → Prop) : Prop :=
  Grows (exprStep .standard inner p) (Grammar.standard.extends? · p) (trailingStep .standard inner)
    w e after

theorem growsTo_leading (rule : LeadingRule)
    (hw : Starts (fun k => Grammar.standard.leading k = some rule) w)
    (h : Reads (rule.read inner) w e P) : GrowsTo inner p w e P :=
  h.grows (fun _ hc => exprStep_of_leading hc p) hw

/-- the readers inside read every expression of up to `n` lexemes -/
def ReadsUpTo (inner : Power → Parser Expr) (n : Nat) : Prop :=
  ∀ (e : Expr) (p : Power), e.WellFormed → p.rank ≤ Power.unary.rank → (e.placed p).length ≤ n →
    Reads (inner p) (e.placed p) e (endsAt p)

theorem ReadsUpTo.inside (h : ReadsUpTo inner n) (he : e.WellFormed)
    (hn : e.lexemes.length ≤ n) : ReadsInside inner e := by
  have hbase := h e .base he (by decide) (by rw [e.placed_base]; exact hn)
  rw [e.placed_base] at hbase
  exact ⟨hbase, e.starts he⟩

theorem ReadsUpTo.insideAll (h : ReadsUpTo inner n) (hes : ∀ e ∈ es, e.WellFormed)
    (hn : (listed es).length ≤ n) : ∀ e ∈ es, ReadsInside inner e := by
  intro e he
  have hlen := length_le_commas_of_mem (mem_map_of_mem (f := Expr.lexemes) he)
  exact h.inside (hes e he) (Nat.le_trans hlen hn)

theorem growsTo_enclosed {least : Nat} (hinner : ReadsUpTo inner n)
    (hwf : left.WellFormed) (hn : (enclosed least left left.lexemes).length ≤ n + 1)
    (hleast : p.least ≤ least)
    (ih : left.lexemes.length ≤ n + 1 → p.least ≤ left.binding.rank →
      GrowsTo inner p left.lexemes left (endsAt left.rightPower)) :
    GrowsTo inner p (enclosed least left left.lexemes) left
      fun k => least ≤ left.binding.rank → endsAt left.rightPower k := by
  unfold enclosed at hn ⊢
  split at hn
  · next hlt =>
    rw [if_pos hlt]
    rw [inParens, length_cons, length_append] at hn
    exact growsTo_leading .grouping ⟨Mark.openParen.lexeme, _, rfl, rfl⟩
      (reads_grouping (hinner.inside hwf (by omega)) _)
  · next hge =>
    rw [if_neg hge]
    exact (ih hn (by omega)).mono fun k hk => hk (by omega)

theorem growsTo_base (hinner : ReadsUpTo inner n)
    (hwf : left.WellFormed) (hn : (enclosed Power.call.rank left left.lexemes).length ≤ n + 1)
    (ih : left.lexemes.length ≤ n + 1 → p.least ≤ left.binding.rank →
      GrowsTo inner p left.lexemes left (endsAt left.rightPower)) :
    GrowsTo inner p (enclosed Power.call.rank left left.lexemes) left anyKind := by
  have hleast : p.least ≤ Power.call.rank := Nat.le_trans (Nat.min_le_right _ _) (by decide)
  exact (growsTo_enclosed hinner hwf hn hleast ih).mono fun k _ h => left.endsAt_of_tight h k

/-- postfix operators extend whatever is read at a power up to that of a prefix -/
theorem GrowsTo.extendBase {l : Lexeme} (hp : p.rank ≤ Power.unary.rank) (h : GrowsTo inner p w left anyKind)
    (hl : Grammar.standard.trailing l.1 = some (q, rule)) (hq : Power.unary.rank < q.rank)
    (hread : Reads (rule.read inner left q) (l :: w') e P) : GrowsTo inner p (w ++ l :: w') e P := by
  refine h.step (reads_trailingStep ⟨l, w', rfl, hl⟩ hread) ⟨l, w', rfl, ?_, trivial⟩
  unfold Grammar.extends?
  rw [hl]
  exact decide_eq_true (by omega)

theorem Collection.length_listed (form : Collection) (es : List Expr) :
    (listed es).length + 2 ≤ (form.lexemes (es.map Expr.lexemes)).length := by
  have hpair : ∀ (l l' : Lexeme) (w : List Lexeme), (l :: (w ++ [l'])).length = w.length + 2 :=
    fun l l' w => by simp
  cases form with
  | array | set => exact Nat.le_of_eq (hpair _ _ _).symm
  | tuple =>
    cases es with
    | nil => decide
    | cons e es =>
      cases es with
      | nil =>
        show e.lexemes.length + 2 ≤ (inParens (e.lexemes ++ [Mark.comma.lexeme])).length
        rw [inParens, hpair, length_append]
        omega
      | cons e' es => exact Nat.le_of_eq (hpair _ _ _).symm

/-- the lexemes of an expression are read by the loop, by induction on the expression -/
theorem growsTo_lexemes (hinner : ReadsUpTo inner n) (he : e.WellFormed) (hp : p.rank ≤ Power.unary.rank)
    (hn : e.lexemes.length ≤ n + 1) (hleast : p.least ≤ e.binding.rank) :
    GrowsTo inner p e.lexemes e (endsAt e.rightPower) := by
  induction he with
  | @literal v hv =>
    refine growsTo_leading .primary ⟨v.lexeme, [], rfl, ?_⟩ (reads_primary_literal hv _)
    cases v with
    | boolean b => cases b <;> rfl
    | _ => rfl
  | @name x _ =>
    exact growsTo_leading .primary ⟨nameLexeme x, [], rfl, rfl⟩ (reads_primary_name x _)
  | @binary op left right hl hr ihl _ =>
    rw [Expr.lexemes, length_append, length_cons] at hn
    have hpop : p.rank < op.binding.rank := by
      have hop : op.binding.rank < Power.unary.rank := by cases op <;> decide
      have hmin : min (p.rank + 1) Power.unary.rank ≤ op.binding.rank := hleast
      omega
    have hleft : op.binding.rank ≤ op.leftLeast := by
      unfold BinaryOp.leftLeast
      split <;> omega
    have hright := hinner right op.rightPower hr (Nat.le_of_lt op.rightPower_rank)
      (by rw [Expr.placed, op.rightPower_least]; omega)
    rw [Expr.placed, op.rightPower_least] at hright
    refine (growsTo_enclosed hinner hl (by omega) (Nat.le_trans hleast hleft) ihl).step
      (reads_operator op hright) ⟨op.mark.lexeme, _, rfl, extends_operator hpop, ?_⟩
    exact fun h => endsAt_operator (Expr.binding_le_rightPower h)
  | @unary op operand hx _ =>
    rw [Expr.lexemes, length_cons] at hn
    have hread := hinner operand .unary hx (Nat.le_refl _) (Nat.le_of_succ_le_succ hn)
    refine growsTo_leading .unary ⟨op.mark.lexeme, _, rfl, ?_⟩ (reads_unaryOperation op hread)
    cases op <;> rfl
  | @call callee arguments awaited hf has ih _ =>
    cases awaited with
    | true =>
      -- the operand of `await` is the same call, one level below
      have hplain := hinner (.call callee arguments false false none) .unary (.call hf has)
        (Nat.le_refl _) (Nat.le_of_succ_le_succ hn)
      exact growsTo_leading .await ⟨Keyword.kwAwait.lexeme, _, rfl, rfl⟩ (reads_awaitedCall hplain)
    | false =>
      rw [Expr.lexemes, Expr.phrases_eq_map] at hn ⊢
      rw [if_neg Bool.false_ne_true, nil_append] at hn ⊢
      rw [inParens, length_append, length_cons, length_append] at hn
      have hlist : (listed arguments).length ≤ n := by
        unfold listed
        omega
      exact (growsTo_base hinner hf (by omega) ih).extendBase hp rfl (by decide)
        (reads_callOperation (hinner.insideAll has hlist) _)
  | @subscript base index hb hi ih _ =>
    rw [Expr.lexemes, inBrackets, length_append, length_cons, length_append] at hn
    exact (growsTo_base hinner hb (by omega) ih).extendBase hp rfl (by decide)
      (reads_subscriptOperation (hinner.inside hi (by omega)) _)
  | @member object x ho _ ih =>
    rw [Expr.lexemes, length_append] at hn
    exact (growsTo_base hinner ho (by omega) ih).extendBase hp rfl (by decide)
      (reads_memberOperation object x _)
  | @collection form elements hset hes _ =>
    rw [Expr.lexemes, Expr.phrases_eq_map] at hn ⊢
    have hlist := form.length_listed elements
    have hin := hinner.insideAll hes (by omega)
    cases form with
    | array =>
      exact growsTo_leading .array ⟨Mark.openBracket.lexeme, _, rfl, rfl⟩ (reads_arrayLiteral hin _)
    | set =>
      exact growsTo_leading .curly ⟨Mark.openCurly.lexeme, _, rfl, rfl⟩
        (reads_curlyLiteral_set (hset rfl) hin _)
    | tuple =>
      refine growsTo_leading .grouping ?_ (reads_grouping_tuple hin _)
      cases elements with
      | nil => exact ⟨Mark.openParen.lexeme, _, rfl, rfl⟩
      | cons e es => cases es <;> exact ⟨Mark.openParen.lexeme, _, rfl, rfl⟩
  | @dict entries hk hv _ _ =>
    rw [Expr.lexemes, Expr.entryPhrases_eq_map] at hn ⊢
    change (inCurly (commas (entries.map entryLexemes))).length ≤ n + 1 at hn
    rw [inCurly, length_cons, length_append] at hn
    have hlen : ∀ e ∈ entries, e.1.lexemes.length ≤ n ∧ e.2.lexemes.length ≤ n := by
      intro e he
      have := length_le_commas_of_mem (mem_map_of_mem (f := entryLexemes) he)
      rw [entryLexemes, length_append, length_cons] at this
      exact ⟨by omega, by omega⟩
    exact growsTo_leading .curly ⟨Mark.openCurly.lexeme, _, rfl, rfl⟩
      (reads_curlyLiteral_dict (fun e he => hinner.inside (hk e he) (hlen e he).1)
        (fun e he => hinner.inside (hv e he) (hlen e he).2) _)

end

/-! ## expressions -/

variable {e : Expr}

theorem reads_exprAt (n : Nat) : ReadsUpTo (exprAt .standard n) n := by
  induction n with
  | zero =>
    intro e p he _ hn
    have := (starts_enclosed (by decide) p.least e (e.starts he)).length_pos
    exact absurd hn (by unfold Expr.placed; omega)
  | succ n ih =>
    intro e p he hp hn
    have hleast : p.least ≤ p.least := Nat.le_refl _
    refine (growsTo_enclosed ih he hn hleast fun hn' hl => growsTo_lexemes ih he hp hn' hl).reads.mono ?_
    exact fun k hk => ⟨fun h => endsAt_mono (Expr.rank_le_rightPower hp h) hk, hk⟩

theorem reads_exprAt_inParens (he : e.WellFormed) (hn : (inParens e.lexemes).length ≤ n) :
    Reads (exprAt .standard n .base) (inParens e.lexemes) e (endsAt .base) := by
  rw [inParens, length_cons, length_append] at hn
  obtain ⟨m, rfl⟩ : ∃ m, n = m + 1 := ⟨n - 1, by omega⟩
  have hgroup := reads_grouping ((reads_exprAt m).inside he (by omega)) anyKind
  have hgrows : GrowsTo (exprAt .standard m) .base _ e anyKind :=
    growsTo_leading .grouping ⟨Mark.openParen.lexeme, _, rfl, rfl⟩ hgroup
  exact hgrows.reads.mono fun k hk => ⟨trivial, hk⟩

theorem reads_expression_of_exprAt {w : List Lexeme}
    (h : ∀ n, w.length ≤ n → Reads (exprAt .standard n .base) w e (endsAt .base)) :
    Reads (expression .standard .base) w e (endsAt .base) := by
  intro ts rest last hts hk
  refine h _ ?_ ts rest last hts hk
  show w.length ≤ (ts ++ rest).length + 1
  rw [← hts, length_map, length_append]
  omega

theorem reads_expression (he : e.WellFormed) :
    Reads (expression .standard .base) e.lexemes e (endsAt .base) :=
  reads_expression_of_exprAt fun n hn => ((reads_exprAt n).inside he hn).1

theorem reads_expression_first (he : e.WellFormed) :
    Reads (expression .standard .base) e.firstLexemes e (endsAt .base) := by
  unfold Expr.firstLexemes
  split
  · exact reads_expression_of_exprAt fun n hn => reads_exprAt_inParens he hn
  · exact reads_expression he

end TypedScript
