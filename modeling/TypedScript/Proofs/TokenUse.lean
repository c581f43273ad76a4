import TypedScript.Proofs.Tiling
import TypedScript.Proofs.Twins

/-!
# What reading makes of its tokens

Every rule of the grammar reads tokens as it reads them without their digits, as far as numbers are in
range, and its reply does not depend on the depth of the readers inside.  What it reads holds the numbers of
the tokens that were passed, in their order; it takes a token, and has at most as many declarations and range
loops as there are tokens; and it is well formed if the tokens are those of a scan.
-/

namespace TypedScript

open TypedScript.Parser List

/-! ## readers by depth -/

namespace Parser

variable {T : Rereading} {n : Nat} {α : Type} {p q : Parser α} {R : α → α → List Literal → Nat → Prop}

theorem TwinAt.eq (h : TwinAt T c p q R) (hs : T.same = true) (hR : ∀ a b vs k, R a b vs k → a = b) :
    p c = q c := by
  unfold TwinAt at h
  rw [c.again_eq hs] at h
  cases hp : p c with
  | exhausted c' =>
    rw [hp] at h
    exact h.elim
  | failed d c' =>
    rw [hp] at h
    exact (h.2.2.1 hs).symm
  | done a c' =>
    rw [hp] at h
    obtain ⟨pre, b, _, _, hq, hab⟩ := h
    rw [hq, hR a b _ _ hab, c'.again_eq hs]

/-- a token that no scan gives -/
def stray : Token := ⟨.number, "x", default⟩

theorem passes_of_twinAt {S : TokenKind → Prop} {R : Rereading → α → α → List Literal → Nat → Prop}
    (h : ∀ (T : Rereading) (c : Cursor), (¬ ∀ t ∈ T.tokens, t.Scanned) → c.In T → S c.kind →
      TwinAt T c p p (R T))
    (hR : ∀ T a b vs k, R T a b vs k → 1 ≤ k) : Passes S p := by
  intro c c' a hc hk hdone
  have hstray : ¬ ∀ t ∈ stray :: c.tokens, t.Scanned := fun hts =>
    absurd ((hts stray mem_cons_self).number rfl) (by decide)
  have htwin := h ⟨stray :: c.tokens, true⟩ c hstray ⟨hc, fun t ht => mem_cons_of_mem _ ht⟩ hk
  unfold TwinAt at htwin
  rw [hdone] at htwin
  obtain ⟨pre, b, hpre, hall, _, hab⟩ := htwin
  exact ⟨pre, hpre, hR _ _ _ _ _ hab, fun t ht => (hall t ht).1⟩

section
variable {ι : Type} (read : Nat → ι → Parser α) (step : (ι → Parser α) → ι → Parser α)
  {R : Rereading → α → α → List Literal → Nat → Prop} (hread : ∀ n, read (n + 1) = step (read n))
  (hstep : ∀ T n f g, (∀ x, Twins T n (f x) (g x) (R T)) → ∀ x, Twins T (n + 1) (step f x) (step g x) (R T))
include hread hstep

/-- readers of different depth, by induction on the number of tokens -/
theorem twins_depth (hi : n ≤ i) (hj : n ≤ j) (x : ι) : Twins T n (read i x) (read j x) (R T) := by
  induction n generalizing i j x with
  | zero => exact fun c _ hlen => absurd hlen (Nat.not_lt_zero _)
  | succ n ih =>
    obtain ⟨i, rfl⟩ : ∃ i', i = i' + 1 := ⟨i - 1, by omega⟩
    obtain ⟨j, rfl⟩ : ∃ j', j = j' + 1 := ⟨j - 1, by omega⟩
    rw [hread, hread]
    exact hstep T n _ _ (ih (by omega) (by omega)) x

theorem twins_tied (x : ι) : Twins T n (fun c => read c.bound x c) (fun c => read c.bound x c) (R T) := by
  intro c hc _
  show Reply.Twin T c (R T) (read c.bound x c) (read (c.again T).bound x (c.again T))
  rw [Cursor.bound_again]
  exact twins_depth read step hread hstep (Nat.le_refl c.bound) (Nat.le_refl _) x c hc (Nat.lt_succ_self _)

/-- the depth that a reader starts with is never what ends it -/
theorem tied_eq (hR : ∀ T a b vs k, R T a b vs k → T.same = true → a = b) (x : ι) {c : Cursor}
    (hc : c.Ended) :
    read c.bound x c = step (fun y d => read d.bound y d) x c := by
  have hinner : ∀ y, Twins ⟨c.tokens, true⟩ c.ahead.length (read c.ahead.length y) (fun d => read d.bound y d)
      (R ⟨c.tokens, true⟩) := by
    intro y d hd hlen
    have hdepth := twins_depth read step hread hstep hlen (Nat.le_refl d.bound) y d hd (Nat.lt_succ_self _)
    rwa [← d.bound_again (T := ⟨c.tokens, true⟩)] at hdepth
  have hdepth : read c.bound = step (read c.ahead.length) := hread _
  rw [hdepth]
  exact (hstep _ _ _ _ hinner x c ⟨hc, fun t ht => ht⟩ (Nat.lt_succ_self _)).eq rfl
    fun a b vs k hab => hR _ a b vs k hab rfl

end

end Parser

variable {T : Rereading} {n : Nat}

/-! ## written types -/

variable {inner inner' : Power → Parser TypeTerm} {k : Nat} {vs : List Literal} {a b : TypeTerm}
  {c : Cursor}

/-- one token at least, no literals, and nothing that would count -/
abbrev TypeTerm.Read (T : Rereading) : TypeTerm → TypeTerm → List Literal → Nat → Prop :=
  Found T (fun _ => []) (fun _ => 1) TypeTerm.WellFormed

theorem flatMap_bare {α : Type} (as : List α) : as.flatMap (fun _ => ([] : List Literal)) = [] :=
  flatMap_eq_nil_iff.mpr fun _ _ => rfl

theorem twins_namedType (h : ∀ p, Twins T n (inner p) (inner' p) (TypeTerm.Read T)) :
    Twins T (n + 1) (namedType inner) (namedType inner') (TypeTerm.Read T) := by
  refine twins_opening rfl fun t ht hk => twins_accept rfl fun _ _ => .ite ?_ ?_
  · refine (twins_commaSeparated (fun _ => Nat.le_refl 1) (h .base)).bind fun as bs vs k has =>
      twins_expectOr rfl fun _ _ _ => ?_
    refine twins_pure ⟨?_, Nat.le_add_right 1 _, fun hts => ?_, fun hs => by rw [has.2.same hs]⟩
    · rw [append_nil, ← has.2.numerals, flatMap_bare]
    · exact .generic ((hts t ht).name hk) has.1 (has.2.wellFormed hts)
  · exact twins_pure ⟨rfl, Nat.le_add_right 1 _, fun hts => .named ((hts t ht).name hk), fun _ => rfl⟩

theorem SuffixRule.twins_read (rule : SuffixRule)
    (h : TypeTerm.Read T a b vs k) : Twins T n (rule.read a) (rule.read b)
      fun a' b' ws j => 1 ≤ j ∧ TypeTerm.Read T a' b' (vs ++ ws) (k + j) := by
  have hvs : numerals [] = vs ++ [] := h.numerals.trans (append_nil vs).symm
  have hweight : ∀ j, 1 ≤ k + j := fun j => Nat.le_add_right_of_le h.weight
  cases rule with
  | array =>
    refine twins_expect rfl fun _ _ _ => twins_expect rfl fun _ _ _ => twins_pure ⟨Nat.le_add_right 1 _, ?_⟩
    refine ⟨hvs, hweight _, fun hts => .generic (by decide) (cons_ne_nil _ _) ?_, fun hs => ?_⟩
    · exact forall_mem_singleton.mpr (h.wellFormed hts)
    · rw [h.same hs]
  | nullable =>
    refine twins_expect rfl fun _ _ _ => twins_pure ⟨Nat.le_add_right 1 _, hvs, hweight _, fun hts => ?_, ?_⟩
    · exact .nullable (h.wellFormed hts)
    · exact fun hs => by rw [h.same hs]

theorem twinAt_suffixStep (h : TypeTerm.Read T a b vs k) (hc : c.In T)
    (hk : Grammar.standard.typeExtends? c.kind power = true) :
    TwinAt T c (suffixStep .standard a) (suffixStep .standard b)
      fun a' b' ws j => 1 ≤ j ∧ TypeTerm.Read T a' b' (vs ++ ws) (k + j) := by
  unfold Grammar.typeExtends? at hk
  refine twinAt_peek ?_
  split
  · next rule _ => exact rule.twins_read h c hc (Nat.lt_succ_self _)
  · next hnone =>
    rw [hnone] at hk
    cases hk

theorem twins_typeTermStep (h : ∀ p, Twins T n (inner p) (inner' p) (TypeTerm.Read T)) (power : Power) :
    Twins T (n + 1) (typeTermStep .standard inner power) (typeTermStep .standard inner' power)
      (TypeTerm.Read T) := by
  refine twins_peek fun _ => .ite ?_ (twins_unexpectedFor _ _)
  refine (twins_namedType h).bind fun _ _ _ _ ha => twins_fold (fun _ _ _ _ ha c hc _ hk => ?_) ha
  exact twinAt_suffixStep ha hc hk

theorem twins_typeTerm (power : Power) :
    Twins T n (typeTerm .standard power) (typeTerm .standard power) (TypeTerm.Read T) :=
  twins_tied (typeTermAt .standard) (typeTermStep .standard) (R := TypeTerm.Read) (fun _ => rfl)
    (fun _ _ _ _ => twins_typeTermStep) power

theorem typeTerm_eq (power : Power) (hc : c.Ended) :
    typeTerm .standard power c = typeTermStep .standard (typeTerm .standard) power c :=
  tied_eq (typeTermAt .standard) (typeTermStep .standard) (R := TypeTerm.Read) (fun _ => rfl)
    (fun _ _ _ _ => twins_typeTermStep) (fun _ _ _ _ _ h => h.same) power hc

/-! ## literals and names -/

def Expr.isCall : Expr → Bool
  | .call _ _ _ _ _ => true
  | _ => false

/-- both expressions can be awaited or none -/
structure Expr.Twin (T : Rereading) (e e' : Expr) (vs : List Literal) (k : Nat) : Prop extends
    Found T Expr.literals (fun _ => 1) Expr.WellFormed e e' vs k where
  call : e.isCall = e'.isCall

theorem Literal.wellFormed_integer (hx : TypedScript.isNumeral x) {n : Int}
    (h : Text.signed64? x.toList = some n) : (Literal.integer n).WellFormed := by
  have hdigits : ∀ c ∈ x.toList, Text.isDigit c = true := by
    have := (Bool.and_eq_true _ _).mp hx
    exact all_eq_true.mp this.2
  have hvalue : Text.nonnegative64? x.toList = some n := by
    unfold Text.signed64? at h
    split at h
    · next cs hcs => exact absurd (hdigits '-' (by rw [hcs]; exact mem_cons_self)) (by decide)
    · next cs hcs => exact absurd (hdigits '+' (by rw [hcs]; exact mem_cons_self)) (by decide)
    · exact h
  obtain ⟨m, _, hm⟩ := Option.bind_eq_some_iff.mp hvalue
  split at hm
  · next hlt =>
    cases hm
    exact ⟨Int.natCast_nonneg m, Int.ofNat_lt.mpr hlt⟩
  · cases hm

theorem here_token {β : Type} (k : Position → Token → Parser β) (c : Cursor) :
    (here >>= fun place => token >>= k place) c = k c.position c.current c.next := rfl

theorem primary_of_some {n : Int} (hk : c.current.kind = .number)
    (hn : Text.signed64? c.current.value.toList = some n) :
    primary c = .done (.literal (.integer n) none) c.next := by
  unfold primary
  rw [here_token, hk, hn]
  rfl

theorem primary_of_none (hk : c.current.kind = .number) (hn : Text.signed64? c.current.value.toList = none) :
    primary c = .failed (.atPosition (.numberOutOfRange c.current.value) c.position) c.next := by
  unfold primary
  rw [here_token, hk, hn]
  rfl

theorem primary_of_long (hk : c.current.kind = .longNumber) :
    primary c = .done (.literal (.long c.current.value) none) c.next := by
  unfold primary
  rw [here_token, hk]
  rfl

theorem twinAt_number (hc : c.In T) (hk : c.current.kind = .number) :
    TwinAt T c primary primary (Expr.Twin T) := by
  have heof : c.kind ≠ .eof := by rw [Cursor.kind, hk]; nofun
  have hahead := Cursor.exists_ahead hc.ended heof
  unfold TwinAt
  cases hn : Text.signed64? c.current.value.toList with
  | some n =>
    have hnumeral : c.current.numeral? = some (.integer n) := by
      rw [Token.numeral?, hk, hn]
      rfl
    obtain ⟨m, hm, hsame⟩ : ∃ m, Text.signed64? (c.again T).current.value.toList = some m ∧
        (T.same = true → n = m) := by
      rw [Cursor.current_again]
      split
      · exact ⟨n, hn, fun _ => rfl⟩
      · next hs =>
        have hzero : Text.signed64? "0".toList = some 0 := by decide
        rw [Token.zeroed, hk]
        exact ⟨0, hzero, fun h => absurd h hs⟩
    rw [primary_of_some hk hn, primary_of_some (c.kind_again.trans hk) hm, Cursor.next_again]
    refine ⟨[c.current], _, hahead, forall_mem_singleton.mpr ⟨heof, fun _ => by rw [hn]; rfl⟩, rfl, ?_⟩
    rw [filterMap_cons_some hnumeral]
    refine ⟨⟨rfl, Nat.le_refl 1, fun hts => ?_, fun hs => by rw [hsame hs]⟩, rfl⟩
    exact .literal (Literal.wellFormed_integer ((hts _ hc.current_mem).number hk) hn)
  | none =>
    rw [primary_of_none hk hn]
    refine ⟨⟨rfl, c.current, hc.current_mem, rfl⟩, (Cursor.reaches_next hc.ended heof).mono (Nat.zero_le 1),
      fun hs => ?_, .inl ⟨[], c.current, hahead, nofun, fun hrange => ?_, rfl⟩⟩
    · rw [c.again_eq hs, primary_of_none hk hn]
    · have hsome := hrange hk
      rw [hn] at hsome
      cases hsome

theorem twinAt_long (hc : c.In T) (hk : c.current.kind = .longNumber) :
    TwinAt T c primary primary (Expr.Twin T) := by
  have heof : c.kind ≠ .eof := by rw [Cursor.kind, hk]; nofun
  have hnumeral : c.current.numeral? = some (.long c.current.value) := by rw [Token.numeral?, hk]
  have hrange : c.current.InRange := fun hnumber => nomatch hk.symm.trans hnumber
  unfold TwinAt
  rw [primary_of_long hk, primary_of_long (c.kind_again.trans hk), Cursor.next_again]
  refine ⟨[c.current], _, Cursor.exists_ahead hc.ended heof, forall_mem_singleton.mpr ⟨heof, hrange⟩,
    rfl, ?_⟩
  rw [filterMap_cons_some hnumeral]
  refine ⟨⟨rfl, Nat.le_refl 1, fun hts => ?_, fun hs => by rw [c.again_eq hs]⟩, rfl⟩
  exact .literal ((hts _ hc.current_mem).long hk)

theorem twinAt_primary (hc : c.In T) (hrule : Grammar.standard.leading c.kind = some .primary) :
    TwinAt T c primary primary (Expr.Twin T) := by
  have hliteral : ∀ v : Literal, numerals [v] = [] → v.WellFormed →
      Twins T (c.ahead.length + 1) (pure (.literal v none)) (pure (.literal v none))
        fun a b vs j => Expr.Twin T a b vs (1 + j) :=
    fun v hv hwf => twins_pure ⟨⟨hv, Nat.le_add_right 1 _, fun _ => .literal hwf, fun _ => rfl⟩, rfl⟩
  have hnext : c.ahead.length < c.ahead.length + 1 + 1 := by omega
  unfold Cursor.kind at hrule
  cases hk : c.current.kind with
  | number => exact twinAt_number hc hk
  | longNumber => exact twinAt_long hc hk
  | string =>
    refine twinAt_here hc fun _ _ => twinAt_token hc hnext (by rw [Cursor.kind, hk]; rfl) ?_
    rw [hk]
    exact hliteral _ rfl trivial
  | identifier =>
    refine twinAt_here hc fun _ _ => twinAt_token hc hnext (by rw [Cursor.kind, hk]; rfl) ?_
    rw [hk]
    refine twins_pure ⟨⟨rfl, Nat.le_add_right 1 _, fun hts => ?_, fun _ => rfl⟩, rfl⟩
    exact .name ((hts _ hc.current_mem).name hk)
  | keyword k =>
    refine twinAt_here hc fun _ _ => twinAt_token hc hnext (by rw [Cursor.kind, hk]; rfl) ?_
    rw [hk] at hrule ⊢
    cases k with
    | kwTrue | kwFalse | kwNull => exact hliteral _ rfl trivial
    | _ => cases hrule
  | mark m =>
    rw [hk] at hrule
    cases m <;> cases hrule
  | eof =>
    rw [hk] at hrule
    cases hrule

/-! ## operands -/

theorem Expr.allLiterals_eq (es : List Expr) : Expr.allLiterals es = es.flatMap Expr.literals := by
  induction es with
  | nil => rfl
  | cons e es ih => rw [Expr.allLiterals, ih, flatMap_cons]

abbrev Expr.AllRead (T : Rereading) : List Expr → List Expr → List Literal → Nat → Prop :=
  AllFound T Expr.literals (fun _ => 1) Expr.WellFormed

/-- a further entry, if there is one -/
abbrev Expr.EntryRead (T : Rereading) :
    Option (Expr × Expr) → Option (Expr × Expr) → List Literal → Nat → Prop :=
  Found T (fun o => Expr.entryLiterals o.toList) (fun _ => 1)
    fun o => ∀ e ∈ o, e.1.WellFormed ∧ e.2.WellFormed

theorem Expr.flatMap_entryLiterals (os : List (Option (Expr × Expr))) :
    os.flatMap (fun o => Expr.entryLiterals o.toList) = Expr.entryLiterals (os.filterMap id) := by
  induction os with
  | nil => rfl
  | cons o os ih => cases o <;> simp [Expr.entryLiterals, ih]

section
variable {inner inner' : Power → Parser Expr} (h : ∀ p, Twins T n (inner p) (inner' p) (Expr.Twin T))
include h

theorem twins_expressionList (closing : TokenKind) :
    Twins T n (expressionList inner closing) (expressionList inner' closing) (Expr.AllRead T) :=
  twins_commaTerminated (fun _ => Nat.le_refl 1) ((h .base).mono fun _ _ _ _ he => he.toFound) _ _

theorem twinAt_unaryOperation (hc : c.In T) (hlen : c.ahead.length < n + 1) (hk : c.kind.isPlain = true) :
    TwinAt T c (unaryOperation inner) (unaryOperation inner') (Expr.Twin T) := by
  refine twinAt_here hc fun _ hplace => twinAt_token hc hlen hk ?_
  split
  · refine (h .unary).last fun _ _ _ _ he =>
      ⟨⟨he.numerals, Nat.le_add_right 1 _, fun hts => ?_, fun hs => ?_⟩, rfl⟩
    · exact .unary (he.wellFormed hts)
    · rw [he.same hs]
  · exact twins_failAt rfl hplace _

theorem twins_awaitedCall : Twins T (n + 1) (awaitedCall inner) (awaitedCall inner') (Expr.Twin T) := by
  refine twins_opening rfl fun _ _ _ c hc hlen => twinAt_here hc fun _ hplace =>
    (h .unary c hc hlen).bind hc hlen fun e e' vs k he => ?_
  cases e with
  | call =>
    cases e' with
    | call =>
      refine twins_pure ⟨⟨he.numerals.trans (append_nil vs).symm, Nat.le_add_right 1 _, fun hts => ?_,
        fun hs => ?_⟩, rfl⟩
      · cases he.wellFormed hts with
        | call hf has => exact .call hf has
      · cases he.same hs
        rfl
    | _ => cases he.call
  | _ =>
    cases e' with
    | call => cases he.call
    | _ => exact twins_failAt rfl hplace _

theorem twins_grouping : Twins T (n + 1) (grouping inner) (grouping inner') (Expr.Twin T) := by
  refine twins_opening rfl fun _ _ _ => twins_accept rfl fun _ _ => .ite ?_ ?_
  · exact twins_pure ⟨⟨rfl, Nat.le_add_right 1 _, fun _ => .collection nofun nofun, fun _ => rfl⟩, rfl⟩
  refine (h .base).bind fun e e' vs k he => twins_accept rfl fun _ _ => .ite ?_ ?_
  · refine (twins_expressionList h _).bind fun es es' ws j hes => twins_expect rfl fun _ _ _ => twins_pure ?_
    refine ⟨⟨?_, Nat.le_add_right 1 _, fun hts => .collection nofun ?_, fun hs => ?_⟩, rfl⟩
    · simp [Expr.literals, Expr.allLiterals_eq, he.numerals, hes.numerals]
    · exact forall_mem_cons.mpr ⟨he.wellFormed hts, hes.wellFormed hts⟩
    · rw [he.same hs, hes.same hs]
  · refine twins_expect rfl fun _ _ _ => twins_pure ?_
    exact ⟨⟨he.numerals.trans (append_nil vs).symm, Nat.le_add_right 1 _, he.wellFormed, he.same⟩, he.call⟩

theorem twins_arrayLiteral : Twins T (n + 1) (arrayLiteral inner) (arrayLiteral inner') (Expr.Twin T) := by
  refine twins_opening rfl fun _ _ _ => (twins_expressionList h _).bind fun es es' vs k hes => ?_
  refine twins_expect rfl fun _ _ _ =>
    twins_pure ⟨⟨?_, Nat.le_add_right 1 _, fun hts => ?_, fun hs => ?_⟩, rfl⟩
  · simp [Expr.literals, Expr.allLiterals_eq, hes.numerals]
  · exact .collection nofun (hes.wellFormed hts)
  · rw [hes.same hs]

theorem twinAt_furtherEntry (hc : c.In T) (hlen : c.ahead.length < n + 1)
    (hk : (c.kind == .mark .comma) = true) :
    TwinAt T c (furtherEntry inner) (furtherEntry inner') (Expr.EntryRead T) := by
  refine twinAt_token hc hlen (by rw [eq_of_beq hk]; rfl) (twins_peek fun _ => .ite ?_ ?_)
  · exact twins_pure ⟨rfl, Nat.le_add_right 1 _, nofun, fun _ => rfl⟩
  refine (h .base).bind fun key key' vs k hkey => twins_expect rfl fun _ _ _ => ?_
  refine (h .base).last fun value value' ws j hvalue =>
    ⟨?_, Nat.le_add_right 1 _, fun hts e he => ?_, fun hs => ?_⟩
  · simp [Expr.entryLiterals, hkey.numerals, hvalue.numerals]
  · cases he
    exact ⟨hkey.wellFormed hts, hvalue.wellFormed hts⟩
  · rw [hkey.same hs, hvalue.same hs]

theorem twins_curlyLiteral : Twins T (n + 1) (curlyLiteral inner) (curlyLiteral inner') (Expr.Twin T) := by
  refine twins_opening rfl fun _ _ _ => twins_accept rfl fun _ _ => .ite ?_ ?_
  · exact twins_pure ⟨⟨rfl, Nat.le_add_right 1 _, fun _ => .dict nofun nofun, fun _ => rfl⟩, rfl⟩
  refine (h .base).bind fun e e' vs k he => twins_accept rfl fun _ _ => .ite ?_ ?_
  · refine (h .base).bind fun value value' ws j hvalue =>
      (twins_many (fun _ => Nat.le_refl 1) fun c hc hlen =>
      twinAt_furtherEntry h hc (Nat.lt_succ_of_lt hlen)).bind fun os os' us i hos => ?_
    refine twins_expect rfl fun _ _ _ =>
      twins_pure ⟨⟨?_, Nat.le_add_right 1 _, fun hts => ?_, fun hs => ?_⟩, rfl⟩
    · have hothers := hos.numerals
      rw [Expr.flatMap_entryLiterals] at hothers
      rw [append_nil, Expr.literals, Expr.entryLiterals, numerals_append, numerals_append, he.numerals,
        hvalue.numerals, hothers, append_assoc]
    · have hentry : ∀ entry ∈ (e, value) :: os.filterMap id, entry.1.WellFormed ∧ entry.2.WellFormed := by
        refine forall_mem_cons.mpr ⟨⟨he.wellFormed hts, hvalue.wellFormed hts⟩, fun entry hentry => ?_⟩
        obtain ⟨o, ho, rfl⟩ := mem_filterMap.mp hentry
        exact hos.wellFormed hts _ ho entry rfl
      exact .dict (fun entry he => (hentry entry he).1) fun entry he => (hentry entry he).2
    · rw [he.same hs, hvalue.same hs, hos.same hs]
  · refine twins_accept rfl fun _ _ =>
      (twins_expressionList h _).orElse allFound_nil fun es es' ws j hes => ?_
    refine twins_expect rfl fun _ _ _ =>
      twins_pure ⟨⟨?_, Nat.le_add_right 1 _, fun hts => ?_, fun hs => ?_⟩, rfl⟩
    · simp [Expr.literals, Expr.allLiterals_eq, he.numerals, hes.numerals]
    · exact .collection (fun _ => cons_ne_nil _ _)
        (forall_mem_cons.mpr ⟨he.wellFormed hts, hes.wellFormed hts⟩)
    · rw [he.same hs, hes.same hs]

theorem LeadingRule.twinAt_read (hc : c.In T) (hlen : c.ahead.length < n + 1)
    (hrule : Grammar.standard.leading c.kind = some rule) :
    TwinAt T c (rule.read inner) (rule.read inner') (Expr.Twin T) := by
  cases rule with
  | primary => exact twinAt_primary hc hrule
  | unary =>
    refine twinAt_unaryOperation h hc hlen ?_
    cases hk : c.kind with
    | mark | keyword => rfl
    | _ => rw [hk] at hrule; cases hrule
  | await => exact twins_awaitedCall h c hc hlen
  | grouping => exact twins_grouping h c hc hlen
  | array => exact twins_arrayLiteral h c hc hlen
  | curly => exact twins_curlyLiteral h c hc hlen

/-! ## operations -/

variable {left left' : Expr}

theorem TrailingRule.twinAt_read (hleft : left.Twin T left' vs k) (hc : c.In T)
    (hlen : c.ahead.length < n + 1) (hrule : Grammar.standard.trailing c.kind = some (p, rule)) :
    TwinAt T c (rule.read inner left p) (rule.read inner' left' p)
      fun e e' ws j => 1 ≤ j ∧ e.Twin T e' (vs ++ ws) (k + j) := by
  have hweight : ∀ j, 1 ≤ k + j := fun j => Nat.le_add_right_of_le hleft.weight
  have hbinary : ∀ (op : BinaryOp) (right right' : Expr) (ws : List Literal) (i j : Nat),
    right.Twin T right' ws i →
      1 ≤ 1 + j ∧ (Expr.binary op left right none).Twin T (.binary op left' right' none) (vs ++ ws)
        (k + (1 + j)) := by
    intro op right right' ws i j hright
    refine ⟨Nat.le_add_right 1 j, ⟨?_, hweight _, fun hts => ?_, fun hs => ?_⟩, rfl⟩
    · rw [Expr.literals, numerals_append, hleft.numerals, hright.numerals]
    · exact .binary (hleft.wellFormed hts) (hright.wellFormed hts)
    · rw [hleft.same hs, hright.same hs]
  cases rule with
  | binary =>
    have hk : c.kind.isPlain = true := by
      cases hk : c.kind with
      | mark | keyword => rfl
      | _ => rw [hk] at hrule; cases hrule
    refine twinAt_here hc fun _ hplace => twinAt_token hc hlen hk ?_
    split
    · exact (h p).last fun _ _ _ _ hright => hbinary _ _ _ _ _ _ hright
    · exact twins_failAt rfl hplace _
  | power =>
    exact twins_opening rfl (fun _ _ _ => (h _).last fun _ _ _ _ hright =>
      hbinary _ _ _ _ _ _ hright) c hc hlen
  | call =>
    refine twins_opening rfl (fun _ _ _ => (twins_expressionList h _).bind fun es es' ws j hes =>
      ?_) c hc hlen
    refine twins_expect rfl fun _ _ _ => twins_pure
      ⟨Nat.le_add_right 1 _, ⟨?_, hweight _, fun hts => ?_, fun hs => ?_⟩, rfl⟩
    · simp [Expr.literals, Expr.allLiterals_eq, hleft.numerals, hes.numerals]
    · exact .call (hleft.wellFormed hts) (hes.wellFormed hts)
    · rw [hleft.same hs, hes.same hs]
  | subscript =>
    refine twins_opening rfl (fun _ _ _ => (h .base).bind fun e e' ws j he => ?_) c hc hlen
    refine twins_expect rfl fun _ _ _ => twins_pure
      ⟨Nat.le_add_right 1 _, ⟨?_, hweight _, fun hts => ?_, fun hs => ?_⟩, rfl⟩
    · simp [Expr.literals, hleft.numerals, he.numerals]
    · exact .subscript (hleft.wellFormed hts) (he.wellFormed hts)
    · rw [hleft.same hs, he.same hs]
  | member =>
    refine twins_opening rfl (fun _ _ _ => twins_expectOr rfl fun t ht hk => twins_pure ?_) c hc hlen
    refine ⟨Nat.le_add_right 1 _, ⟨hleft.numerals.trans (append_nil vs).symm, hweight _, fun hts => ?_,
      fun hs => ?_⟩, rfl⟩
    · exact .member (hleft.wellFormed hts) ((hts t ht).name hk)
    · rw [hleft.same hs]

theorem twinAt_trailingStep (hleft : left.Twin T left' vs k) (hc : c.In T) (hlen : c.ahead.length < n + 1)
    (hk : Grammar.standard.extends? c.kind power = true) :
    TwinAt T c (trailingStep .standard inner left) (trailingStep .standard inner' left')
      fun e e' ws j => 1 ≤ j ∧ e.Twin T e' (vs ++ ws) (k + j) := by
  unfold Grammar.extends? at hk
  refine twinAt_peek ?_
  split
  · next p rule hrule => exact rule.twinAt_read h hleft hc hlen hrule
  · next hnone =>
    rw [hnone] at hk
    cases hk

/-! ## expressions -/

theorem twins_exprStep (power : Power) :
    Twins T (n + 1) (exprStep .standard inner power) (exprStep .standard inner' power) (Expr.Twin T) := by
  intro c hc hlen
  refine twinAt_peek ?_
  split
  · exact twins_unexpected _ c hc hlen
  · next rule hrule =>
    refine (rule.twinAt_read h hc hlen hrule).bind hc hlen fun e e' vs k he =>
      twins_fold (fun _ _ _ _ hleft c hc hlen hk => ?_) he
    exact twinAt_trailingStep h hleft hc hlen hk

end

theorem twins_expression (power : Power) :
    Twins T n (expression .standard power) (expression .standard power) (Expr.Twin T) :=
  twins_tied (exprAt .standard) (exprStep .standard) (R := Expr.Twin) (fun _ => rfl)
    (fun _ _ _ _ => twins_exprStep) power

theorem expression_eq (power : Power) (hc : c.Ended) :
    expression .standard power c = exprStep .standard (expression .standard) power c :=
  tied_eq (exprAt .standard) (exprStep .standard) (R := Expr.Twin) (fun _ => rfl)
    (fun _ _ _ _ => twins_exprStep) (fun _ _ _ _ _ h => h.same) power hc

theorem twins_expressions : Twins T n (commaSeparated (expression .standard .base))
    (commaSeparated (expression .standard .base)) fun es es' vs k => es ≠ [] ∧ Expr.AllRead T es es' vs k :=
  twins_commaSeparated (fun _ => Nat.le_refl 1) ((twins_expression .base).mono fun _ _ _ _ he => he.toFound)

/-! ## parts of declarations -/

variable {α : Type} {WellFormed : α → Prop}

theorem twins_some {p : Parser α} {literals : α → List Literal} {weight : α → Nat}
    (h : Twins T n p p (Found T literals weight WellFormed)) :
    Twins T n (some <$> p) (some <$> p)
      (Found T (fun o : Option α => o.toList.flatMap literals) (fun _ => 0) fun o => ∀ a ∈ o,
        WellFormed a) := by
  refine h.last fun a b vs k ha => ⟨?_, Nat.zero_le _, fun hts a' ha' => ?_, fun hs => by rw [ha.same hs]⟩
  · rw [Option.toList_some, flatMap_singleton, ha.numerals]
  · cases ha'
    exact ha.wellFormed hts

theorem found_none {literals : α → List Literal} :
    Found T (fun o : Option α => o.toList.flatMap literals) (fun _ => 0) (fun o => ∀ a ∈ o, WellFormed a)
      none none [] k :=
  ⟨rfl, Nat.zero_le k, nofun, fun _ => rfl⟩

theorem twins_typeAfter (m : Mark) : Twins T n (typeAfter .standard m) (typeAfter .standard m)
    (Found T (fun _ => []) (fun _ => 0) fun o : Option TypeTerm => ∀ t ∈ o, t.WellFormed) := by
  refine twins_accept rfl fun _ _ => .ite ?_ (twins_pure ⟨rfl, Nat.zero_le _, nofun, fun _ => rfl⟩)
  refine (twins_typeTerm .base).last fun t t' vs k ht =>
    ⟨ht.numerals, Nat.zero_le _, fun hts u hu => ?_, fun hs => ?_⟩
  · cases hu
    exact ht.wellFormed hts
  · rw [ht.same hs]

theorem twins_declarator : Twins T n (declarator .standard) (declarator .standard)
    (Found T (fun _ => []) (fun _ => 1) Declarator.WellFormed) := by
  refine twins_expectOr rfl fun t ht hk => (twins_typeAfter _).last fun w w' vs k hw => ?_
  refine ⟨hw.numerals, Nat.le_add_right 1 k, fun hts => ⟨(hts t ht).name hk, hw.wellFormed hts, rfl, rfl⟩, ?_⟩
  exact fun hs => by rw [hw.same hs]

theorem twins_parameter : Twins T n (parameter .standard) (parameter .standard)
    (Found T Parameter.literals (fun _ => 1) Parameter.WellFormed) := by
  refine twins_expectOr rfl fun t ht hk => twins_expectOr rfl fun _ _ _ => ?_
  refine (twins_typeTerm .base).bind fun w w' vs k hw => twins_accept rfl fun _ _ => ?_
  refine (twins_some ((twins_expression .base).mono fun _ _ _ _ he => he.toFound)).orElse found_none
    fun d d' ws j hd => twins_pure
      ⟨?_, Nat.le_add_right 1 _, fun hts => ?_, fun hs => by rw [hw.same hs, hd.same hs]⟩
  · rw [Parameter.literals, Expr.allLiterals_eq, hd.numerals, ← hw.numerals, append_nil]
    rfl
  · exact ⟨(hts t ht).name hk, hw.wellFormed hts, hd.wellFormed hts, rfl, rfl⟩

theorem twins_parameters : Twins T n (parameters .standard) (parameters .standard)
    (Found T (fun ps => ps.flatMap Parameter.literals) List.length fun ps => ∀ p ∈ ps, p.WellFormed) := by
  refine twins_expect rfl fun _ _ _ => (twins_commaTerminated (fun _ => Nat.le_refl 1)
    twins_parameter _ _).bind fun ps ps' vs k hps => ?_
  refine twins_expect rfl fun _ _ _ => twins_pure ⟨?_, ?_, hps.wellFormed, hps.same⟩
  · rw [append_nil, hps.numerals]
  · have hweight := hps.weight
    rw [map_const', sum_replicate_nat, Nat.mul_one] at hweight
    omega

/-! ## weights -/

/-- the declarations and range loops of a statement -/
def Stmt.weight (s : Stmt) : Nat := s.sites.length + s.loops

def bodyWeight (body : List Stmt) : Nat := (bodySites body).length + bodyLoops body

def branchWeight (gs : List (Guarded Stmt)) : Nat := (branchSites gs).length + branchLoops gs

def otherwiseWeight (o : Option (List Stmt)) : Nat := (otherwiseSites o).length + otherwiseLoops o

theorem bodyWeight_cons (s : Stmt) (ss : List Stmt) : bodyWeight (s :: ss) = s.weight + bodyWeight ss := by
  unfold bodyWeight Stmt.weight
  rw [bodySites, bodyLoops, length_append]
  omega

theorem branchWeight_cons (g : Guarded Stmt) (gs : List (Guarded Stmt)) :
    branchWeight (g :: gs) = bodyWeight g.body + branchWeight gs := by
  unfold branchWeight bodyWeight
  rw [branchSites, branchLoops, length_append]
  omega

theorem Stmt.weight_declare (constant : Bool) (ds : List Declarator) (values : List Expr) :
    (Stmt.declare constant ds values).weight = ds.length := by
  show (ds.map (Site.variable constant)).length + 0 = ds.length
  rw [length_map, Nat.add_zero]

theorem Stmt.weight_function (h : FunctionHead) (body : List Stmt) :
    (Stmt.function h body).weight = 1 + h.parameters.length + bodyWeight body := by
  unfold Stmt.weight bodyWeight
  rw [Stmt.sites, Stmt.loops, length_cons, length_append, length_map]
  omega

theorem Stmt.weight_classDef (h : ClassHead) (body : List Stmt) :
    (Stmt.classDef h body).weight = 1 + h.parameters.length + bodyWeight body := by
  unfold Stmt.weight bodyWeight
  rw [Stmt.sites, Stmt.loops, length_cons, length_append, length_map]
  omega

theorem Stmt.weight_conditional (branches : List (Guarded Stmt)) (otherwise : Option (List Stmt)) :
    (Stmt.conditional branches otherwise).weight = branchWeight branches + otherwiseWeight otherwise := by
  unfold Stmt.weight branchWeight otherwiseWeight
  rw [Stmt.sites, Stmt.loops, length_append]
  omega

theorem Stmt.weight_switch (scrutinee : Expr) (cases : List (Guarded Stmt)) (otherwise : Option (List Stmt)) :
    (Stmt.switch scrutinee cases otherwise).weight = branchWeight cases + otherwiseWeight otherwise := by
  unfold Stmt.weight branchWeight otherwiseWeight
  rw [Stmt.sites, Stmt.loops, length_append]
  omega

theorem Stmt.weight_forLoop (h : ForHead) (body : List Stmt) :
    (Stmt.forLoop h body).weight = 1 + bodyWeight body := by
  unfold Stmt.weight bodyWeight
  rw [Stmt.sites, Stmt.loops, length_cons]
  omega

theorem Stmt.weight_rangeLoop (start stop : Expr) (body : List Stmt) :
    (Stmt.rangeLoop start stop body).weight = 1 + bodyWeight body := by
  unfold Stmt.weight bodyWeight
  rw [Stmt.sites, Stmt.loops]
  omega

theorem sum_weights (body : List Stmt) :
    (body.map fun s => s.weight + 1).sum = bodyWeight body + body.length := by
  induction body with
  | nil => rfl
  | cons s ss ih =>
    rw [map_cons, sum_cons, ih, bodyWeight_cons, length_cons]
    omega

theorem sum_branchWeights (gs : List (Guarded Stmt)) :
    (gs.map fun g => bodyWeight g.body + 1).sum = branchWeight gs + gs.length := by
  induction gs with
  | nil => rfl
  | cons g gs ih =>
    rw [map_cons, sum_cons, ih, branchWeight_cons, length_cons]
    omega

/-! ## statements -/

theorem bodyLiterals_eq (ss : List Stmt) : bodyLiterals ss = ss.flatMap Stmt.literals := by
  induction ss with
  | nil => rfl
  | cons s ss ih => rw [bodyLiterals, ih, flatMap_cons]

def Guarded.literals (g : Guarded Stmt) : List Literal := g.guard.literals ++ bodyLiterals g.body

theorem branchLiterals_eq (gs : List (Guarded Stmt)) : branchLiterals gs = gs.flatMap Guarded.literals := by
  induction gs with
  | nil => rfl
  | cons g gs ih => rw [branchLiterals, ih, flatMap_cons]; rfl

def AllWellFormed (body : List Stmt) : Prop := ∀ s ∈ body, s.WellFormed

/-- a statement takes one token more than it weighs -/
abbrev Stmt.Read (T : Rereading) : Stmt → Stmt → List Literal → Nat → Prop :=
  Found T Stmt.literals (fun s => s.weight + 1) Stmt.WellFormed

abbrev BodyRead (T : Rereading) (extra : List Stmt → Nat) :
    List Stmt → List Stmt → List Literal → Nat → Prop :=
  Found T bodyLiterals (fun body => bodyWeight body + extra body) AllWellFormed

/-- a branch takes a token for its guard -/
abbrev BranchRead (T : Rereading) : Guarded Stmt → Guarded Stmt → List Literal → Nat → Prop :=
  Found T Guarded.literals (fun b => bodyWeight b.body + 1) fun b => b.guard.WellFormed ∧ AllWellFormed b.body

theorem twinAt_declaration (hc : c.In T) (hlen : c.ahead.length < n + 1) (hk : c.kind.isPlain = true) :
    TwinAt T c (declaration .standard) (declaration .standard) (Stmt.Read T) := by
  refine twinAt_token hc hlen hk ((twins_commaSeparated (fun _ => Nat.le_refl 1)
    twins_declarator).bind fun ds ds' us i hds => ?_)
  have hcount := hds.2.weight
  rw [map_const', sum_replicate_nat, Nat.mul_one] at hcount
  refine twins_accept rfl fun _ m => (twins_expressions.mono fun _ _ _ _ h => h.2).orElse allFound_nil
    fun values values' vs j hvalues => twins_expect rfl fun _ _ _ =>
      twins_pure ⟨?_, ?_, fun hts => ?_, fun hs => ?_⟩
  · rw [Stmt.literals, Expr.allLiterals_eq, hvalues.numerals, ← hds.2.numerals, flatMap_bare, append_nil]
    rfl
  · rw [Stmt.weight_declare]
    omega
  · exact .declare hds.1 (hds.2.wellFormed hts) (hvalues.wellFormed hts)
  · rw [hds.2.same hs, hvalues.same hs]

theorem twins_bareStatement (k : Keyword) {s : Stmt} (hs : s.literals = []) (hw : s.weight = 0)
    (hwf : s.WellFormed) : Twins T n (bareStatement k s) (bareStatement k s) (Stmt.Read T) := by
  refine twins_expect rfl fun _ _ _ => twins_expect rfl fun _ _ _ =>
    twins_pure ⟨?_, ?_, fun _ => hwf, fun _ => rfl⟩
  · rw [hs]
    rfl
  · rw [hw]
    omega

theorem twins_returnStatement :
    Twins T n (returnStatement .standard) (returnStatement .standard) (Stmt.Read T) := by
  have hsome := twins_some ((twins_expression (n := n) .base).mono
    fun _ _ _ _ (he : Expr.Twin T _ _ _ _) => he.toFound)
  refine twins_expect rfl fun _ _ _ => twins_peek fun _ => .ite ?_ ?_
  · exact twins_expect rfl fun _ _ _ =>
      twins_pure ⟨rfl, Nat.le_add_right 1 _, fun _ => .returnValue nofun, fun _ => rfl⟩
  · refine hsome.bind fun value value' vs k hvalue => twins_expect rfl fun _ _ _ => twins_pure ?_
    refine ⟨?_, Nat.le_add_right 1 _, fun hts => .returnValue (hvalue.wellFormed hts),
      fun hs => by rw [hvalue.same hs]⟩
    rw [Stmt.literals, Expr.allLiterals_eq, hvalue.numerals, append_nil]

theorem twins_printStatement :
    Twins T n (printStatement .standard) (printStatement .standard) (Stmt.Read T) := by
  refine twins_expect rfl fun _ _ _ => (twins_expression .base).bind fun e e' vs k he => ?_
  refine twins_expect rfl fun _ _ _ =>
    twins_pure ⟨?_, Nat.le_add_right 1 _, fun hts => ?_, fun hs => by rw [he.same hs]⟩
  · exact he.numerals.trans (append_nil vs).symm
  · exact .print (he.wellFormed hts)

theorem twins_plainStatement :
    Twins T n (plainStatement .standard) (plainStatement .standard) (Stmt.Read T) := by
  refine twins_expressions.bind fun targets targets' vs k htargets => twins_accept rfl fun _ m => .ite ?_ ?_
  · refine twins_expressions.bind fun values values' ws j hvalues => twins_expect rfl fun _ _ _ => ?_
    refine twins_pure ⟨?_, show 0 + 1 ≤ _ by omega, fun hts => ?_, fun hs => ?_⟩
    · simp [Stmt.literals, Expr.allLiterals_eq, htargets.2.numerals, hvalues.2.numerals]
    · exact .assign htargets.1 hvalues.1 (htargets.2.wellFormed hts) (hvalues.2.wellFormed hts)
    · rw [htargets.2.same hs, hvalues.2.same hs]
  · match targets, targets', htargets with
    | [e], [e'], htargets =>
      refine twins_expect rfl fun _ _ _ =>
        twins_pure ⟨?_, show 0 + 1 ≤ _ by omega, fun hts => ?_, fun hs => ?_⟩
      · rw [append_nil, ← htargets.2.numerals, flatMap_singleton]
        rfl
      · exact .expression (htargets.2.wellFormed hts e mem_cons_self)
      · rw [List.cons.inj (htargets.2.same hs) |>.1]
    | [], [], _ | _ :: _ :: _, _ :: _ :: _, _ => exact twins_unexpectedFor _ _
    | [], _ :: _, htargets | [_], [], htargets | [_], _ :: _ :: _, htargets | _ :: _ :: _, [], htargets =>
      cases htargets.2.length
    | _ :: _ :: _, [_], htargets => cases htargets.2.length

theorem twins_loopUpdate : Twins T n (loopUpdate .standard) (loopUpdate .standard)
    (Found T (fun r => Update.literals r.2) (fun _ => 0)
      fun r => isName r.1.name ∧ r.1.resolution = none ∧ r.2.WellFormed) := by
  have hchange : Twins T n (loopChange .standard) (loopChange .standard)
      (Found T Update.literals (fun _ => 0) Update.WellFormed) := by
    refine twins_accept rfl fun _ _ =>
      .ite (twins_pure ⟨rfl, Nat.zero_le _, fun _ => trivial, fun _ => rfl⟩) ?_
    refine twins_accept rfl fun _ _ =>
      .ite (twins_pure ⟨rfl, Nat.zero_le _, fun _ => trivial, fun _ => rfl⟩) ?_
    refine twins_accept rfl fun _ _ => .ite ?_ (twins_accept rfl fun _ _ => .ite ?_ (twins_unexpectedFor _ _))
    · exact (twins_expression .base).last fun _ _ _ _ he =>
        ⟨he.numerals, Nat.zero_le _, he.wellFormed, fun hs => by rw [he.same hs]⟩
    · exact (twins_expression .base).last fun _ _ _ _ he =>
        ⟨he.numerals, Nat.zero_le _, he.wellFormed, fun hs => by rw [he.same hs]⟩
  refine twins_expectOr rfl fun t ht hk => hchange.last fun u u' vs k hu =>
    ⟨hu.numerals, Nat.zero_le _, ?_, ?_⟩
  · exact fun hts => ⟨(hts t ht).name hk, rfl, hu.wellFormed hts⟩
  · exact fun hs => by rw [hu.same hs]

theorem isPlain_of_statement {k : TokenKind} (h : Grammar.standard.statement k = some rule) :
    k.isPlain = true := by
  cases k with
  | mark | keyword => rfl
  | _ => cases h

section
variable {inner inner' : Parser Stmt} (h : Twins T n inner inner' (Stmt.Read T))
include h

theorem twins_caseBody : Twins T n (many allows inner) (many allows inner') (BodyRead T List.length) := by
  refine (twins_many (fun s => Nat.le_add_left 1 s.weight) fun c hc hlen _ => h c hc hlen).mono
    fun body body' vs k hbody => ⟨?_, ?_, hbody.wellFormed, hbody.same⟩
  · rw [bodyLiterals_eq, hbody.numerals]
  · have hweight := hbody.weight
    rwa [sum_weights] at hweight

theorem twins_blockItem (message : String) :
    Twins T n (do
      if (← peek) = .eof then unexpectedFor message
      inner : Parser Stmt) (do
      if (← peek) = .eof then unexpectedFor message
      inner' : Parser Stmt) (Stmt.Read T) :=
  twins_peek fun _ => .ite ((twins_unexpectedFor _ fun _ _ _ _ => False).bind nofun) h

/-- the brackets of a block come on top of its statements -/
theorem twins_openedBlock : Twins T (n + 1) (block inner) (block inner') (BodyRead T fun _ => 1) := by
  refine twins_openingOr rfl fun _ _ _ =>
    (twins_caseBody (twins_blockItem h _)).bind fun body body' vs k hbody => ?_
  refine twins_expect rfl fun _ _ _ => twins_pure ⟨?_, ?_, hbody.wellFormed, hbody.same⟩
  · exact hbody.numerals.trans (append_nil vs).symm
  · have hweight := hbody.weight
    dsimp only at hweight ⊢
    omega

theorem twins_block : Twins T n (block inner) (block inner') (BodyRead T fun _ => 1) :=
  (twins_openedBlock h).shorten (Nat.le_succ n)

theorem twins_functionDeclaration : Twins T (n + 1) (functionDeclaration .standard inner)
    (functionDeclaration .standard inner') (Stmt.Read T) := by
  refine twins_accept rfl fun _ _ => twins_opening rfl fun _ _ _ => twins_expectOr rfl fun t ht hk => ?_
  refine twins_parameters.bind fun ps ps' us i hps => (twins_typeAfter _).bind fun w w' vs j hw => ?_
  refine (twins_block h).last fun body body' ws k hbody => ⟨?_, ?_, fun hts => ?_, fun hs => ?_⟩
  · rw [Stmt.literals, numerals_append, hps.numerals, hbody.numerals, ← hw.numerals]
    rfl
  · have hparameters := hps.weight
    have hweight := hbody.weight
    rw [Stmt.weight_function]
    dsimp only
    omega
  · exact .function ⟨(hts t ht).name hk, rfl, hps.wellFormed hts, hw.wellFormed hts⟩ (hbody.wellFormed hts)
  · rw [hps.same hs, hw.same hs, hbody.same hs]

theorem twins_classDeclaration : Twins T (n + 1) (classDeclaration .standard inner)
    (classDeclaration .standard inner') (Stmt.Read T) := by
  refine twins_opening rfl fun _ _ _ => twins_expectOr rfl fun t ht hk => twins_peek fun _ => ?_
  refine twins_parameters.orElse ⟨rfl, Nat.le_refl 0, nofun, fun _ => rfl⟩ fun ps ps' vs i hps => ?_
  refine (twins_block h).last fun body body' ws k hbody => ⟨?_, ?_, fun hts => ?_, fun hs => ?_⟩
  · rw [Stmt.literals, numerals_append, hps.numerals, hbody.numerals]
  · have hparameters := hps.weight
    have hweight := hbody.weight
    rw [Stmt.weight_classDef]
    dsimp only
    omega
  · exact .classDef ⟨(hts t ht).name hk, rfl, hps.wellFormed hts⟩ (hbody.wellFormed hts)
  · rw [hps.same hs, hbody.same hs]

theorem twins_branch : Twins T n (branch .standard inner) (branch .standard inner') (BranchRead T) := by
  refine (twins_expression .base).bind fun e e' vs k he => (twins_block h).last fun body body' ws j hbody =>
    ⟨?_, ?_, fun hts => ⟨he.wellFormed hts, hbody.wellFormed hts⟩,
      fun hs => by rw [he.same hs, hbody.same hs]⟩
  · rw [Guarded.literals, numerals_append, he.numerals, hbody.numerals]
  · have hweight := hbody.weight
    dsimp only at hweight ⊢
    omega

/-- the branches of a conditional and its last block -/
abbrev TailRead (T : Rereading) : List (Guarded Stmt) × Option (List Stmt) →
    List (Guarded Stmt) × Option (List Stmt) → List Literal → Nat → Prop :=
  Found T (fun r => branchLiterals r.1 ++ otherwiseLiterals r.2)
    (fun r => branchWeight r.1 + otherwiseWeight r.2) fun r =>
      (∀ b ∈ r.1, b.guard.WellFormed ∧ AllWellFormed b.body) ∧ ∀ body ∈ r.2, AllWellFormed body

theorem twins_branchesAt (hi : i ≤ n) :
    Twins T i (branchesAt .standard inner i) (branchesAt .standard inner' i) (TailRead T) := by
  have hnone : ∀ k, TailRead T ([], none) ([], none) [] k :=
    fun k => ⟨rfl, Nat.zero_le k, fun _ => ⟨nofun, nofun⟩, fun _ => rfl⟩
  induction i with
  | zero => exact fun _ _ hlen => absurd hlen (Nat.not_lt_zero _)
  | succ i ih =>
    refine twins_accept rfl fun _ _ => .ite ?_ (twins_pure (hnone _))
    refine twins_accept rfl fun _ _ => .ite ?_ ?_
    · intro c hc hlen
      refine ((twins_branch h).shorten hi c hc hlen).bind_of_lt (n := i) hc fun b b' vs k hb => ?_
      have hpassed : 1 ≤ k := Nat.le_trans (Nat.le_add_left 1 (bodyWeight b.body)) hb.weight
      refine ⟨by omega, (ih (by omega)).last fun r r' ws j hr =>
        ⟨?_, ?_, fun hts => ?_, fun hs => by rw [hb.same hs, hr.same hs]⟩⟩
      · rw [branchLiterals_eq, flatMap_cons, append_assoc, numerals_append, hb.numerals,
          ← branchLiterals_eq, hr.numerals]
      · have hfirst := hb.weight
        have hrest := hr.weight
        dsimp only at hfirst hrest ⊢
        rw [branchWeight_cons]
        omega
      · have hrest := hr.wellFormed hts
        exact ⟨forall_mem_cons.mpr ⟨hb.wellFormed hts, hrest.1⟩, hrest.2⟩
    · refine ((twins_block h).shorten hi).last fun body body' vs k hbody =>
        ⟨hbody.numerals, ?_, fun hts => ⟨nofun, ?_⟩, fun hs => by rw [hbody.same hs]⟩
      · have hweight := hbody.weight
        show 0 + bodyWeight body ≤ _
        omega
      · intro body' hmem
        cases hmem
        exact hbody.wellFormed hts

theorem twins_conditional : Twins T (n + 1) (conditional .standard inner) (conditional .standard inner')
    (Stmt.Read T) := by
  have hrest : Twins T n (fun c => branchesAt .standard inner c.bound c)
      (fun c => branchesAt .standard inner' c.bound c) (TailRead T) := by
    intro c hc hlen
    show Reply.Twin T c _ (branchesAt .standard inner c.bound c)
      (branchesAt .standard inner' (c.again T).bound _)
    rw [Cursor.bound_again]
    exact twins_branchesAt h hlen c hc (Nat.lt_succ_self _)
  refine twins_opening rfl fun _ _ _ => (twins_branch h).bind fun b b' vs k hb => ?_
  refine hrest.last fun r r' ws j hr => ⟨?_, ?_, fun hts => ?_, fun hs => by rw [hb.same hs, hr.same hs]⟩
  · rw [Stmt.literals, branchLiterals_eq, flatMap_cons, append_assoc, numerals_append, hb.numerals,
      ← branchLiterals_eq, hr.numerals]
  · have hfirst := hb.weight
    have hothers := hr.weight
    rw [Stmt.weight_conditional, branchWeight_cons]
    omega
  · have hall : ∀ a ∈ b :: r.1, a.guard.WellFormed ∧ AllWellFormed a.body :=
      forall_mem_cons.mpr ⟨hb.wellFormed hts, (hr.wellFormed hts).1⟩
    exact .conditional (cons_ne_nil _ _) (fun b hb => (hall b hb).1) (fun b hb => (hall b hb).2)
      (hr.wellFormed hts).2

theorem twins_whileStatement :
    Twins T (n + 1) (whileStatement .standard inner) (whileStatement .standard inner')
    (Stmt.Read T) := by
  refine twins_opening rfl fun _ _ _ => (twins_expression .base).bind fun e e' vs k he => ?_
  refine (twins_block h).last fun body body' ws j hbody =>
    ⟨?_, ?_, fun hts => .whileLoop (he.wellFormed hts) (hbody.wellFormed hts), fun hs => ?_⟩
  · rw [Stmt.literals, numerals_append, he.numerals, hbody.numerals]
  · have hweight := hbody.weight
    show bodyWeight body + 1 ≤ _
    omega
  · rw [he.same hs, hbody.same hs]

theorem twins_forStatement : Twins T (n + 1) (forStatement .standard inner) (forStatement .standard inner')
    (Stmt.Read T) := by
  refine twins_opening rfl fun _ _ _ => twins_expect rfl fun _ _ _ => twins_accept rfl fun _ _ => .ite ?_ ?_
  · refine twins_declarator.bind fun d d' xs i hd => twins_expectOr rfl fun _ _ _ => ?_
    refine (twins_expression .base).bind fun init init' us j hinit => twins_expect rfl fun _ _ _ => ?_
    refine (twins_expression .base).bind fun test test' vs k htest => twins_expect rfl fun _ _ _ => ?_
    refine twins_loopUpdate.bind fun r r' ws l hr => twins_expect rfl fun _ _ _ => ?_
    refine (twins_block h).last fun body body' ys m hbody => ⟨?_, ?_, fun hts => .forLoop ?_ ?_, fun hs => ?_⟩
    · simp [Stmt.literals, ForHead.literals, hinit.numerals, htest.numerals, hr.numerals, hbody.numerals,
        ← hd.numerals]
    · have hweight := hbody.weight
      rw [Stmt.weight_forLoop]
      omega
    · obtain ⟨hname, htarget, hupdate⟩ := hr.wellFormed hts
      exact ⟨hd.wellFormed hts, hinit.wellFormed hts, htest.wellFormed hts, hname, htarget, hupdate⟩
    · exact hbody.wellFormed hts
    · rw [hd.same hs, hinit.same hs, htest.same hs, hr.same hs, hbody.same hs]
  · refine (twins_expression .base).bind fun start start' us i hstart => twins_expectOr rfl fun _ _ _ => ?_
    refine (twins_expression .base).bind fun stop stop' vs j hstop => twins_expect rfl fun _ _ _ => ?_
    refine (twins_block h).last fun body body' ws k hbody => ⟨?_, ?_, fun hts => ?_, fun hs => ?_⟩
    · simp [Stmt.literals, hstart.numerals, hstop.numerals, hbody.numerals]
    · have hweight := hbody.weight
      rw [Stmt.weight_rangeLoop]
      omega
    · exact .rangeLoop (hstart.wellFormed hts) (hstop.wellFormed hts) (hbody.wellFormed hts)
    · rw [hstart.same hs, hstop.same hs, hbody.same hs]

theorem twinAt_switchCase (hc : c.In T) (hlen : c.ahead.length < n + 1)
    (hk : (c.kind == .keyword .kwCase) = true) :
    TwinAt T c (switchCase .standard inner) (switchCase .standard inner') (BranchRead T) := by
  refine twinAt_token hc hlen (by rw [eq_of_beq hk]; rfl) ?_
  refine (twins_expression .base).bind fun e e' vs k he => twins_expect rfl fun _ _ _ => ?_
  refine (twins_caseBody h).last fun body body' ws j hbody =>
    ⟨?_, ?_, fun hts => ⟨he.wellFormed hts, hbody.wellFormed hts⟩,
      fun hs => by rw [he.same hs, hbody.same hs]⟩
  · rw [Guarded.literals, numerals_append, he.numerals, hbody.numerals]
  · have hweight := hbody.weight
    dsimp only at hweight ⊢
    omega

theorem twins_switchDefault? : Twins T n (switchDefault? inner) (switchDefault? inner')
    (Found T otherwiseLiterals otherwiseWeight fun o => ∀ body ∈ o, AllWellFormed body) := by
  refine twins_accept rfl fun _ _ => .ite ?_ (twins_pure ⟨rfl, Nat.zero_le _, nofun, fun _ => rfl⟩)
  refine twins_expect rfl fun _ _ _ => (twins_caseBody h).last fun body body' vs k hbody => ?_
  refine ⟨hbody.numerals, ?_, fun hts body' hmem => ?_, fun hs => by rw [hbody.same hs]⟩
  · have hweight := hbody.weight
    show bodyWeight body ≤ _
    omega
  · cases hmem
    exact hbody.wellFormed hts

theorem twins_switchStatement :
    Twins T (n + 1) (switchStatement .standard inner) (switchStatement .standard inner')
    (Stmt.Read T) := by
  refine twins_opening rfl fun _ _ _ => twins_expect rfl fun _ _ _ => ?_
  refine (twins_expression .base).bind fun e e' us i he => twins_expect rfl fun _ _ _ => ?_
  refine twins_expect rfl fun _ _ _ =>
    (twins_many (fun b => Nat.le_add_left 1 (bodyWeight b.body)) fun c hc hlen =>
    twinAt_switchCase h hc (Nat.lt_succ_of_lt hlen)).bind fun cases cases' vs j hcases => ?_
  refine (twins_switchDefault? h).bind fun o o' ws k ho => twins_expectOr rfl fun _ _ _ => twins_pure ?_
  refine ⟨?_, ?_, fun hts => ?_, fun hs => by rw [he.same hs, hcases.same hs, ho.same hs]⟩
  · simp [Stmt.literals, branchLiterals_eq, he.numerals, hcases.numerals, ho.numerals]
  · have hbranches := hcases.weight
    have hotherwise := ho.weight
    rw [sum_branchWeights] at hbranches
    rw [Stmt.weight_switch]
    omega
  · have hall := hcases.wellFormed hts
    exact .switch (he.wellFormed hts) (fun b hb => (hall b hb).1) (fun b hb => (hall b hb).2)
      (ho.wellFormed hts)

theorem StatementRule.twinAt_read (hc : c.In T) (hlen : c.ahead.length < n + 1)
    (hk : c.kind.isPlain = true) (rule : StatementRule) :
    TwinAt T c (rule.read .standard inner) (rule.read .standard inner') (Stmt.Read T) := by
  cases rule with
  | declaration => exact twinAt_declaration hc hlen hk
  | function => exact twins_functionDeclaration h c hc hlen
  | classDef => exact twins_classDeclaration h c hc hlen
  | conditional => exact twins_conditional h c hc hlen
  | whileLoop => exact twins_whileStatement h c hc hlen
  | forLoop => exact twins_forStatement h c hc hlen
  | switch => exact twins_switchStatement h c hc hlen
  | breakLoop => exact twins_bareStatement _ rfl rfl .breakLoop c hc hlen
  | continueLoop => exact twins_bareStatement _ rfl rfl .continueLoop c hc hlen
  | returnValue => exact twins_returnStatement c hc hlen
  | print => exact twins_printStatement c hc hlen
  | block =>
    have hblock : Twins T (n + 1) (Stmt.block <$> TypedScript.block inner)
        (Stmt.block <$> TypedScript.block inner') (Stmt.Read T) :=
      (twins_openedBlock h).last fun _ _ _ _ hbody =>
        ⟨hbody.numerals, hbody.weight, fun hts => .block (hbody.wellFormed hts),
          fun hs => by rw [hbody.same hs]⟩
    exact hblock c hc hlen

/-! ## programs -/

theorem twins_statementStep : Twins T (n + 1) (statementStep .standard inner) (statementStep .standard inner')
    (Stmt.Read T) := by
  intro c hc hlen
  refine twinAt_peek ?_
  split
  · next rule hrule => exact rule.twinAt_read h hc hlen (isPlain_of_statement hrule)
  · exact twins_plainStatement c hc hlen

end

theorem twins_statement : Twins T n (statement .standard) (statement .standard) (Stmt.Read T) :=
  twins_tied (fun n (_ : Unit) => statementAt .standard n) (fun f _ => statementStep .standard (f ()))
    (R := Stmt.Read) (fun _ => rfl) (fun _ _ _ _ h _ => twins_statementStep (h ())) ()

theorem statement_eq (hc : c.Ended) :
    statement .standard c = statementStep .standard (statement .standard) c :=
  tied_eq (fun n (_ : Unit) => statementAt .standard n) (fun f _ => statementStep .standard (f ()))
    (R := Stmt.Read) (fun _ => rfl) (fun _ _ _ _ h _ => twins_statementStep (h ()))
    (fun _ _ _ _ _ h => h.same) () hc

theorem twins_program : Twins T n (program .standard) (program .standard) (BodyRead T List.length) :=
  twins_caseBody twins_statement

/-! ## what is repeated passes a token -/

theorem Reply.Twin.reaches {α : Type} {R : α → α → List Literal → Nat → Prop} {r s : Reply α}
    (h : Reply.Twin T c R r s) : c.Reaches 0 r.rest := by
  cases r with
  | exhausted c' => exact h.elim
  | failed d c' => exact h.2.1
  | done a c' =>
    obtain ⟨pre, b, hpre, hall, _⟩ := h
    exact ⟨pre, hpre, Nat.zero_le _, fun t ht => (hall t ht).1⟩

theorem passes_of_twins {α : Type} {p : Parser α} {S : TokenKind → Prop} {weight : α → Nat}
    {literals : α → List Literal} {WellFormed : α → Prop}
      (h : ∀ (T : Rereading) (c : Cursor), c.In T → S c.kind →
      TwinAt T c p p (Found T literals weight WellFormed)) (hweight : ∀ a, 1 ≤ weight a) : Passes S p :=
  passes_of_twinAt (fun T c _ hc hk => h T c hc hk) fun _ a _ _ _ ha => Nat.le_trans (hweight a) ha.weight

theorem passes_typeTerm (power : Power) : Passes anyKind (typeTerm .standard power) :=
  passes_of_twins (fun _ c hc _ => twins_typeTerm power c hc (Nat.lt_succ_self _)) fun _ => Nat.le_refl 1

theorem passes_expression (power : Power) : Passes anyKind (expression .standard power) :=
  passes_of_twins (fun _ c hc _ => (twins_expression power c hc (Nat.lt_succ_self _)).mono
    fun _ _ _ _ he => he.toFound) fun _ => Nat.le_refl 1

theorem passes_statement : Passes anyKind (statement .standard) :=
  passes_of_twins (fun _ c hc _ => twins_statement c hc (Nat.lt_succ_self _)) fun s =>
    Nat.le_add_left 1 s.weight

theorem passes_declarator : Passes anyKind (declarator .standard) :=
  passes_of_twins (fun _ c hc _ => twins_declarator c hc (Nat.lt_succ_self _)) fun _ => Nat.le_refl 1

theorem passes_parameter : Passes anyKind (parameter .standard) :=
  passes_of_twins (fun _ c hc _ => twins_parameter c hc (Nat.lt_succ_self _)) fun _ => Nat.le_refl 1

theorem passes_furtherEntry :
    Passes (fun κ => (κ == .mark .comma) = true) (furtherEntry (expression .standard)) :=
  passes_of_twins (fun _ _ hc => twinAt_furtherEntry twins_expression hc (Nat.lt_succ_self _))
    fun _ => Nat.le_refl 1

theorem passes_branch : Passes anyKind (branch .standard (statement .standard)) :=
  passes_of_twins (fun _ c hc _ => twins_branch twins_statement c hc (Nat.lt_succ_self _))
    fun b => Nat.le_add_left 1 (bodyWeight b.body)

theorem passes_switchCase :
    Passes (fun κ => (κ == .keyword .kwCase) = true) (switchCase .standard (statement .standard)) :=
  passes_of_twins (fun _ _ hc => twinAt_switchCase twins_statement hc (Nat.lt_succ_self _))
    fun b => Nat.le_add_left 1 (bodyWeight b.body)

theorem passes_blockItem (message : String) : Passes anyKind (do
    if (← peek) = .eof then unexpectedFor message
    statement .standard : Parser Stmt) :=
  passes_of_twins (fun _ c hc _ => twins_blockItem twins_statement message c hc (Nat.lt_succ_self _))
    fun s => Nat.le_add_left 1 s.weight

theorem passes_suffixStep (power : Power) (left : TypeTerm) :
    Passes (fun κ => Grammar.standard.typeExtends? κ power = true) (suffixStep .standard left) := by
  have htwin : ∀ (T : Rereading) (c : Cursor), (¬ ∀ t ∈ T.tokens, t.Scanned) → c.In T →
      Grammar.standard.typeExtends? c.kind power = true → TwinAt T c (suffixStep .standard left)
        (suffixStep .standard left) fun a b ws j => 1 ≤ j ∧ TypeTerm.Read T a b ([] ++ ws) (1 + j) :=
    fun T c hT hc hk => twinAt_suffixStep ⟨rfl, Nat.le_refl 1, fun hts => absurd hts hT, fun _ => rfl⟩ hc hk
  exact passes_of_twinAt htwin fun _ _ _ _ _ h => h.1

theorem passes_trailingStep (power : Power) (left : Expr) :
    Passes (fun κ => Grammar.standard.extends? κ power = true)
      (trailingStep .standard (expression .standard) left) := by
  have htwin : ∀ (T : Rereading) (c : Cursor), (¬ ∀ t ∈ T.tokens, t.Scanned) → c.In T →
      Grammar.standard.extends? c.kind power = true →
      TwinAt T c (trailingStep .standard (expression .standard) left)
        (trailingStep .standard (expression .standard) left)
        fun a b ws j => 1 ≤ j ∧ a.Twin T b (numerals left.literals ++ ws) (1 + j) :=
    fun T c hT hc hk => twinAt_trailingStep twins_expression
      ⟨⟨rfl, Nat.le_refl 1, fun hts => absurd hts hT, fun _ => rfl⟩, rfl⟩ hc (Nat.lt_succ_self _) hk
  exact passes_of_twinAt htwin fun _ _ _ _ _ h => h.1

theorem Parser.length_of_accept {b : Bool} (h : accept kind c = .done b c') :
    c'.last = c.last ∧ c'.ahead.length ≤ c.ahead.length := by
  unfold accept at h
  split at h
  · cases h
    exact ⟨rfl, length_tail ▸ Nat.sub_le _ _⟩
  · cases h
    exact ⟨rfl, Nat.le_refl _⟩

/-- further branches, given a reader for those behind the next one -/
def branchesStep (inner : Parser Stmt) (rest : Parser (List (Guarded Stmt) × Option (List Stmt))) :
    Parser (List (Guarded Stmt) × Option (List Stmt)) := do
  if ← accept (.keyword .kwElse) then
    if ← accept (.keyword .kwIf) then
      let first ← branch .standard inner
      let (others, otherwise) ← rest
      return (first :: others, otherwise)
    else return ([], some (← block inner))
  else return ([], none)

/-- the branches of a conditional behind the first one -/
def branches (inner : Parser Stmt) : Parser (List (Guarded Stmt) × Option (List Stmt)) :=
  fun c => branchesAt .standard inner c.bound c

theorem branchesStep_congr {inner : Parser Stmt} (h : Passes anyKind (branch .standard inner)) (hc : c.Ended)
    (hrest : ∀ d : Cursor, d.Ended → d.ahead.length < c.ahead.length → rest d = rest' d) :
    branchesStep inner rest c = branchesStep inner rest' c := by
  refine bind_right_congr fun b c₁ hb => ?_
  obtain ⟨hlast₁, hlen₁⟩ := length_of_accept hb
  split
  · refine bind_right_congr fun b' c₂ hb' => ?_
    obtain ⟨hlast₂, hlen₂⟩ := length_of_accept hb'
    have hc₂ : c₂.Ended := (congrArg Token.kind (hlast₂.trans hlast₁)).trans hc
    split
    · refine bind_right_congr fun first c₃ hfirst => bind_left_congr ?_ _
      have hreach := h c₂ c₃ first hc₂ trivial hfirst
      have hlen₃ := hreach.length_le
      exact hrest c₃ (hreach.ended hc₂) (by omega)
    · rfl
  · rfl

/-- the bound on the branches of a conditional is never what ends them -/
theorem branches_eq (hc : c.Ended) : branches (statement .standard) c
    = branchesStep (statement .standard) (branches (statement .standard)) c := by
  have hbound : ∀ (i j : Nat) (c : Cursor), c.Ended → c.ahead.length < i → c.ahead.length < j →
      branchesAt .standard (statement .standard) i c = branchesAt .standard (statement .standard) j c := by
    intro i
    induction i with
    | zero => exact fun _ _ _ hi => absurd hi (Nat.not_lt_zero _)
    | succ i ih =>
      intro j c hc hi hj
      obtain ⟨j, rfl⟩ : ∃ j', j = j' + 1 := ⟨j - 1, by omega⟩
      exact branchesStep_congr passes_branch hc fun d hd hlen => ih j d hd (by omega) (by omega)
  exact branchesStep_congr passes_branch hc fun d hd hlen => hbound _ _ d hd hlen (Nat.lt_succ_self _)

/-! ## token lists -/

variable {c' : Cursor} {p : Program} {last : Token} {front tokens : List Token}

theorem many_stops {α : Type} {item : Parser α} (h : Passes (fun k => allows k = true) item) {as : List α}
    (hc : c.Ended) (hmany : many allows item c = .done as c') : allows c'.kind = false := by
  induction hn : c.ahead.length using Nat.strongRecOn generalizing c as with
  | ind n ih =>
    rw [many_eq h hc] at hmany
    split at hmany
    · next hk =>
      obtain ⟨a, c'', hitem, hmany⟩ := bind_eq_done hmany
      obtain ⟨bs, c''', hrest, hdone⟩ := bind_eq_done hmany
      cases hdone
      have hreach := h c c'' a hc hk hitem
      have hless := hreach.length_le
      exact ih _ (by omega) (hreach.ended hc) hrest rfl
    · next hk =>
      cases hmany
      exact Bool.of_not_eq_true hk

theorem kind_of_program (hc : c.Ended) (h : program .standard c = .done p c') : c'.kind = .eof := by
  have hstop : (c'.kind != .eof) = false := many_stops passes_statement.on hc h
  simpa using hstop

theorem program_stops (hc : c.Ended) (hfree : ∀ t ∈ c.ahead, t.kind ≠ .eof)
    (h : program .standard c = .done p c') (hpre : ∃ pre, c = .behind pre c') : c'.ahead = [] := by
  obtain ⟨pre, rfl⟩ := hpre
  have hkind := kind_of_program hc h
  obtain ⟨ahead, last⟩ := c'
  cases ahead with
  | nil => rfl
  | cons t ts => exact absurd hkind (hfree t (mem_append_right pre mem_cons_self))

theorem ofTokens_zeroed (hlast : last.kind = .eof) (file : String) :
    Cursor.ofTokens ((front ++ [last]).map Token.zeroed) file = Cursor.zeroed ⟨front, last⟩ := by
  rw [map_append, map_singleton]
  exact Cursor.ofTokens_concat _ ((Token.kind_zeroed last).trans hlast) file

/-- A program is read from tokens if and only if a program is read from them without their digits and every
number is in range; it holds the numbers of the tokens.  If it is only a number that is out of range, the
first such number is reported. -/
theorem parse_zeroed (hlast : last.kind = .eof) (hfree : ∀ t ∈ front, t.kind ≠ .eof) (file : String) :
    match parse (front ++ [last]) file with
    | .ok p => (∃ q, parse ((front ++ [last]).map Token.zeroed) file = .ok q) ∧
        (∀ t ∈ front, t.InRange) ∧ numerals (bodyLiterals p) = front.filterMap Token.numeral?
    | .error d => (∃ e, parse ((front ++ [last]).map Token.zeroed) file = .error e) ∨
        ∃ pre t post, front = pre ++ t :: post ∧ (∀ u ∈ pre, u.InRange) ∧ ¬ t.InRange ∧
          d = .atPosition (.numberOutOfRange t.value) t.span.position := by
  have hin : Cursor.In ⟨front ++ [last], false⟩ ⟨front, last⟩ := ⟨hlast, fun t ht => ht⟩
  have htwin := twins_program ⟨front, last⟩ hin (Nat.lt_succ_self _)
  unfold TwinAt at htwin
  unfold parse
  rw [ofTokens_zeroed hlast, Cursor.ofTokens_concat front hlast]
  cases hread : program .standard ⟨front, last⟩ with
  | done p c =>
    rw [hread] at htwin
    obtain ⟨pre, q, hpre, hrange, hq, hp⟩ := htwin
    have hend := program_stops hin.ended hfree hread ⟨pre, hpre⟩
    have hfront : front = pre := by
      have hahead := congrArg Cursor.ahead hpre
      rw [Cursor.behind, hend, append_nil] at hahead
      exact hahead
    subst hfront
    exact ⟨⟨q, congrArg Reply.result hq⟩, fun t ht => (hrange t ht).2, hp.numerals⟩
  | exhausted c =>
    rw [hread] at htwin
    exact htwin.elim
  | failed d c =>
    rw [hread] at htwin
    obtain ⟨-, -, -, ⟨pre, t, hpre, hrange, ht, hd⟩ | ⟨e, c', hq⟩⟩ := htwin
    · refine .inr ⟨pre, t, c.ahead, ?_, hrange, ht, hd⟩
      have hahead := congrArg Cursor.ahead hpre
      rw [Cursor.behind, append_assoc] at hahead
      exact hahead
    · exact .inl ⟨e, congrArg Reply.result hq⟩

/-- A program has at most as many declarations, range loops and statements as there are tokens before the end
marker; a fault is one of syntax at one of the tokens. -/
theorem passes_parse (h : EndsWithEof ts) (file : String) :
    match parse ts file with
    | .ok p => bodyWeight p + p.length < ts.length
    | .error d => d.Blames ts := by
  obtain ⟨front, last, rfl, hlast⟩ := h
  have htwin := twins_program (T := ⟨front ++ [last], true⟩) ⟨front, last⟩ ⟨hlast, fun t ht => ht⟩
    (Nat.lt_succ_self _)
  unfold TwinAt at htwin
  unfold parse
  rw [Cursor.ofTokens_concat front hlast]
  cases hread : program .standard ⟨front, last⟩ with
  | exhausted c =>
    rw [hread] at htwin
    exact htwin.elim
  | failed d c =>
    rw [hread] at htwin
    exact htwin.1
  | done p c =>
    rw [hread] at htwin
    obtain ⟨pre, q, hpre, -, -, hp⟩ := htwin
    have hweight := hp.weight
    have hlength : front.length = pre.length + c.ahead.length :=
      (congrArg (fun d => d.ahead.length) hpre).trans (Cursor.length_behind pre c)
    show bodyWeight p + p.length < (front ++ [last]).length
    rw [length_append, hlength, length_singleton]
    omega

theorem Token.scanned_of_eof {t : Token} (h : t.kind = .eof) : t.Scanned where
  name hk := nomatch hk.symm.trans h
  number hk := nomatch hk.symm.trans h
  long hk := nomatch hk.symm.trans h

theorem Cursor.scanned_ofTokens (h : ∀ t ∈ tokens, t.Scanned) (file : String) :
    (Cursor.ofTokens tokens file).Ended ∧ ∀ t ∈ (Cursor.ofTokens tokens file).tokens, t.Scanned := by
  unfold Cursor.ofTokens
  split
  · exact ⟨rfl, forall_mem_singleton.mpr (Token.scanned_of_eof rfl)⟩
  · next t _ =>
    split
    · next hk =>
      refine ⟨hk, forall_mem_append.mpr ⟨fun t' ht' => h t' ((dropLast_sublist _).mem ht'), ?_⟩⟩
      exact forall_mem_singleton.mpr (Token.scanned_of_eof hk)
    · refine ⟨rfl, forall_mem_append.mpr ⟨h, ?_⟩⟩
      exact forall_mem_singleton.mpr (Token.scanned_of_eof rfl)

theorem wellFormed_of_parse (h : ∀ t ∈ tokens, t.Scanned) (hp : parse tokens file = .ok p) :
    p.WellFormed := by
  obtain ⟨hended, hscanned⟩ := Cursor.scanned_ofTokens h file
  have htwin := twins_program (T := ⟨_, true⟩) (.ofTokens tokens file) ⟨hended, fun t ht => ht⟩
    (Nat.lt_succ_self _)
  unfold TwinAt at htwin
  unfold parse at hp
  cases hread : program .standard (.ofTokens tokens file) with
  | failed d c | exhausted c =>
    rw [hread] at hp
    cases hp
  | done q c =>
    rw [hread] at hp htwin
    cases hp
    obtain ⟨pre, q', -, -, -, hq⟩ := htwin
    exact hq.wellFormed hscanned

end TypedScript
