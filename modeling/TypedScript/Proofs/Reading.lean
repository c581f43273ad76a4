import TypedScript.Proofs.Writing

/-!
# Reading what was written

`Parser.Reads p w a after` says that `p` reads the lexemes `w` as `a`, whatever tokens follow, as long
as the kind of the first of them is one that `after` allows.  The statements about single parsers are
put together by `Reads.bind`, phrase by phrase as the grammar does it.

Operators are read by a loop that grows its left operand, so an expression in front of an operator is
never read as a whole.  `Grows` is the statement that carries the induction over left operands: after
the lexemes of an expression the loop stands where they end, with that expression as what it has read.
-/

namespace TypedScript

open TypedScript.Parser List

/-! ## what follows -/

variable {w : List Lexeme} {S : TokenKind → Prop}

/-- the kind of the first token, if a token of kind `k` follows the lexemes `w` -/
def kindBefore : List Lexeme → TokenKind → TokenKind
  | [], k => k
  | l :: _, _ => l.1

theorem Cursor.kind_append (ts rest : List Token) (last : Token) :
    Cursor.kind ⟨ts ++ rest, last⟩ = kindBefore (ts.map Token.lexeme) (Cursor.kind ⟨rest, last⟩) := by
  cases ts <;> rfl

/-- `w` starts with a lexeme whose kind is in `S` -/
def Starts (S : TokenKind → Prop) (w : List Lexeme) : Prop := ∃ l w', w = l :: w' ∧ S l.1

theorem Starts.kindBefore (h : Starts S w) (k : TokenKind) : S (kindBefore w k) := by
  obtain ⟨l, w', rfl, hl⟩ := h
  exact hl

theorem Starts.mono (h : Starts S w) (hT : ∀ k, S k → T k) : Starts T w := by
  obtain ⟨l, w', rfl, hl⟩ := h
  exact ⟨l, w', rfl, hT _ hl⟩

theorem Starts.append (h : Starts S w) (w' : List Lexeme) : Starts S (w ++ w') := by
  obtain ⟨l, v, rfl, hl⟩ := h
  exact ⟨l, v ++ w', rfl, hl⟩

theorem Starts.length_pos (h : Starts S w) : 0 < w.length := by
  obtain ⟨l, w', rfl, _⟩ := h
  exact Nat.succ_pos _

/-- nothing is asked of the next token -/
def anyKind : TokenKind → Prop := fun _ => True

namespace Parser

variable {α β : Type}

def Reads (p : Parser α) (w : List Lexeme) (a : α) (after : TokenKind → Prop) : Prop :=
  ∀ (ts rest : List Token) (last : Token), ts.map Token.lexeme = w →
    after (Cursor.kind ⟨rest, last⟩) → p ⟨ts ++ rest, last⟩ = .done a ⟨rest, last⟩

/-! ## sequences -/

variable {P Q : TokenKind → Prop} {a : α} {p : Parser α} {b : β} {f : α → Parser β}

theorem Reads.mono (h : Reads p w a P) (hQ : ∀ k, Q k → P k) : Reads p w a Q :=
  fun ts rest last hts hk => h ts rest last hts (hQ _ hk)

theorem reads_pure (a : α) (P : TokenKind → Prop) : Reads (pure a) [] a P := by
  intro ts rest last hts _
  rw [map_eq_nil_iff.mp hts]
  rfl

theorem Reads.bind (hp : Reads p w a P) (hf : Reads (f a) w' b Q) (hk : ∀ k, Q k → P (kindBefore w' k)) :
    Reads (p >>= f) (w ++ w') b Q := by
  intro ts rest last hts hQ
  obtain ⟨ts₁, ts₂, rfl, h₁, h₂⟩ := map_eq_append_iff.mp hts
  have hp' := hp ts₁ (ts₂ ++ rest) last h₁ (by rw [Cursor.kind_append, h₂]; exact hk _ hQ)
  rw [append_assoc, bind_done hp']
  exact hf ts₂ rest last h₂ hQ

theorem Reads.last (hp : Reads p w a P) (f : α → β) : Reads (p >>= fun x => pure (f x)) w (f a) P := by
  have h := hp.bind (f := fun x => pure (f x)) (reads_pure (f a) P) fun k hk => hk
  rwa [append_nil] at h

theorem Reads.map (hp : Reads p w a P) (f : α → β) : Reads (f <$> p) w (f a) P :=
  hp.last f

theorem Reads.skip (hp : Reads p [] a P) (hf : Reads (f a) w b Q) (hk : ∀ k, Q k → P (kindBefore w k)) :
    Reads (p >>= f) w b Q :=
  hp.bind hf hk

/-! ## single tokens -/

variable {f : Token → Parser β}

theorem reads_next {l : Lexeme} {g : Token → α}
    (hp : ∀ (t : Token) (rest : List Token) (last : Token), t.kind = l.1 →
      p ⟨t :: rest, last⟩ = .done (g t) ⟨rest, last⟩)
    {f : α → Parser β}
    (h : ∀ t : Token, t.lexeme = l → Reads (f (g t)) w b Q) :
    Reads (p >>= f) (l :: w) b Q := by
  intro ts rest last hts hQ
  obtain ⟨t, ts, rfl, ht, hts⟩ := map_eq_cons_iff.mp hts
  have hdone := hp t (ts ++ rest) last (congrArg Prod.fst ht)
  rw [cons_append, bind_done hdone]
  exact h t ht ts rest last hts hQ

theorem reads_expect (l : Lexeme) (h : ∀ t : Token, t.lexeme = l → Reads (f t) w b Q) :
    Reads (expect l.1 >>= f) (l :: w) b Q :=
  reads_next (g := id) (fun _ _ _ hk => if_pos hk) h

theorem reads_expectOr (l : Lexeme) (message : String) (h : ∀ t : Token, t.lexeme = l → Reads (f t) w b Q) :
    Reads (expectOr l.1 message >>= f) (l :: w) b Q :=
  reads_next (g := id) (fun _ _ _ hk => if_pos hk) h

theorem reads_token (l : Lexeme) (h : ∀ t : Token, t.lexeme = l → Reads (f t) w b Q) :
    Reads (token >>= f) (l :: w) b Q :=
  reads_next (g := id) (fun _ _ _ _ => rfl) h

theorem reads_accept (l : Lexeme) {f : Bool → Parser β} (h : Reads (f true) w b Q) :
    Reads (accept l.1 >>= f) (l :: w) b Q :=
  reads_next (g := fun _ => true) (fun _ _ _ hk => if_pos hk) fun _ _ => h

theorem reads_refuse (kind : TokenKind) {f : Bool → Parser β} (h : Reads (f false) w b Q)
    (hk : ∀ k, Q k → kindBefore w k ≠ kind) : Reads (accept kind >>= f) w b Q := by
  intro ts rest last hts hQ
  have hne : Cursor.kind ⟨ts ++ rest, last⟩ ≠ kind := by
    rw [Cursor.kind_append, hts]
    exact hk _ hQ
  have hdone : accept kind ⟨ts ++ rest, last⟩ = .done false ⟨ts ++ rest, last⟩ := if_neg hne
  rw [bind_done hdone]
  exact h ts rest last hts hQ

theorem reads_peek {f : TokenKind → Parser β}
    (h : ∀ k, Q k → Reads (f (kindBefore w k)) w b fun k' => k' = k) : Reads (peek >>= f) w b Q := by
  intro ts rest last hts hQ
  have hk := Cursor.kind_append ts rest last
  rw [hts] at hk
  have hdone : peek ⟨ts ++ rest, last⟩
      = .done (kindBefore w (Cursor.kind ⟨rest, last⟩)) ⟨ts ++ rest, last⟩ := by rw [← hk]; rfl
  rw [bind_done hdone]
  exact h _ hQ ts rest last hts rfl

theorem reads_here {f : Position → Parser β}
    (h : ∀ place, Reads (f place) w b Q) : Reads (here >>= f) w b Q :=
  fun ts rest last hts hQ => h _ ts rest last hts hQ

/-! ## repetition -/

variable {as : List α} {item : Parser α} {allows : TokenKind → Bool} {write : α → List Lexeme}

theorem reads_manyAt_nil (allows : TokenKind → Bool) (item : Parser α) (n : Nat) :
    Reads (manyAt allows item (n + 1)) [] [] fun k => allows k = false := by
  intro ts rest last hts hk
  rw [map_eq_nil_iff.mp hts]
  exact if_neg (by rw [nil_append, hk]; exact Bool.false_ne_true)

theorem reads_manyAt_cons {a : α} (ha : Reads item w a P) (has : Reads (manyAt allows item n) w' as Q)
    (hw : Starts (fun k => allows k = true) w) (hk : ∀ k, Q k → P (kindBefore w' k)) :
    Reads (manyAt allows item (n + 1)) (w ++ w') (a :: as) Q := by
  intro ts rest last hts hQ
  have hallow : allows (Cursor.kind ⟨ts ++ rest, last⟩) = true := by
    rw [Cursor.kind_append, hts]
    exact (hw.append w').kindBefore _
  have hboth : Reads (item >>= fun b => manyAt allows item n >>= fun bs => pure (b :: bs))
      (w ++ w') (a :: as) Q := ha.bind (has.last (a :: ·)) hk
  exact (if_pos hallow).trans (hboth ts rest last hts hQ)

theorem reads_manyAt (as : List α) (hitem : ∀ a ∈ as, Reads item (write a) a P)
    (hstart : ∀ a ∈ as, Starts (fun k => allows k = true ∧ P k) (write a)) (n : Nat) (hn : as.length < n) :
    Reads (manyAt allows item n) (as.flatMap write) as fun k => allows k = false ∧ P k := by
  induction as generalizing n with
  | nil =>
    obtain ⟨m, rfl⟩ : ∃ m, n = m + 1 := ⟨n - 1, by omega⟩
    exact (reads_manyAt_nil allows item m).mono fun k hk => hk.1
  | cons a as ih =>
    rw [length_cons] at hn
    obtain ⟨m, rfl⟩ : ∃ m, n = m + 1 := ⟨n - 1, by omega⟩
    have ih' := ih (fun b hb => hitem b (mem_cons_of_mem a hb))
      (fun b hb => hstart b (mem_cons_of_mem a hb)) m (by omega)
    have ha := hstart a mem_cons_self
    rw [flatMap_cons]
    refine reads_manyAt_cons (hitem a mem_cons_self) ih' (ha.mono fun k hk => hk.1) ?_
    intro k hk
    cases as with
    | nil => exact hk.2
    | cons b bs =>
      have hb := hstart b (mem_cons_of_mem a mem_cons_self)
      exact ((hb.append _).kindBefore k).2

/-- the tokens that are left bound the repetition by far: each phrase has at least one of them -/
theorem reads_many_of_manyAt (h : ∀ n, as.length < n → Reads (manyAt allows item n) w as Q)
    (hw : as.length ≤ w.length) : Reads (many allows item) w as Q := by
  intro ts rest last hts hQ
  refine h _ ?_ ts rest last hts hQ
  show as.length < (ts ++ rest).length + 1
  rw [← hts, length_map] at hw
  rw [length_append]
  omega

theorem length_le_flatMap (as : List α)
    (h : ∀ a ∈ as, 0 < (write a).length) : as.length ≤ (as.flatMap write).length := by
  induction as with
  | nil => exact Nat.zero_le _
  | cons a as ih =>
    have ha := h a mem_cons_self
    have has := ih fun b hb => h b (mem_cons_of_mem a hb)
    rw [flatMap_cons, length_append, length_cons]
    omega

theorem reads_many (as : List α) (hitem : ∀ a ∈ as, Reads item (write a) a P)
    (hstart : ∀ a ∈ as, Starts (fun k => allows k = true ∧ P k) (write a)) :
    Reads (many allows item) (as.flatMap write) as fun k => allows k = false ∧ P k :=
  reads_many_of_manyAt (reads_manyAt as hitem hstart)
    (length_le_flatMap as fun a ha => (hstart a ha).length_pos)

theorem commas_cons (w : List Lexeme) (ws : List (List Lexeme)) :
    commas (w :: ws) = w ++ ws.flatMap fun v => Mark.comma.lexeme :: v := by
  induction ws generalizing w with
  | nil => exact (append_nil w).symm
  | cons v ws ih =>
    rw [flatMap_cons, cons_append, ← ih v]
    rfl

theorem length_le_commas_of_mem (h : w ∈ ws) : w.length ≤ (commas ws).length := by
  induction ws with
  | nil => exact absurd h not_mem_nil
  | cons v ws ih =>
    cases ws with
    | nil => rw [mem_singleton.mp h]; exact Nat.le_refl _
    | cons v' ws =>
      show w.length ≤ (v ++ Mark.comma.lexeme :: commas (v' :: ws)).length
      rw [length_append, length_cons]
      rcases mem_cons.mp h with rfl | h
      · omega
      · have := ih h
        omega

theorem length_le_commas (as : List α)
    (h : ∀ a ∈ as, 0 < (write a).length) : as.length ≤ (commas (as.map write)).length := by
  cases as with
  | nil => exact Nat.zero_le _
  | cons a as =>
    have ha := h a mem_cons_self
    have has : as.length ≤ (as.flatMap fun b => Mark.comma.lexeme :: write b).length :=
      length_le_flatMap as fun b _ => Nat.succ_pos _
    rw [map_cons, commas_cons, flatMap_map, length_append, length_cons]
    omega

theorem reads_commaSeparated_cons {a : α} (ha : Reads item w a P) (has : ∀ b ∈ as, Reads item (write b) b P)
    (hcomma : P (.mark .comma)) :
    Reads (commaSeparated item) (commas (w :: as.map write)) (a :: as) fun k => k ≠ .mark .comma ∧ P k := by
  rw [commas_cons, flatMap_map]
  have hmany : Reads (many (· == .mark .comma) (token >>= fun _ => item))
      (as.flatMap fun b => Mark.comma.lexeme :: write b) as
      fun k => (k == .mark .comma) = false ∧ P k :=
    reads_many as (fun b hb => reads_token Mark.comma.lexeme fun _ _ => has b hb)
      (fun b _ => ⟨Mark.comma.lexeme, write b, rfl, rfl, hcomma⟩)
  refine (ha.bind (hmany.last (a :: ·)) ?_).mono ?_
  · intro k hk
    cases as with
    | nil => exact hk.2
    | cons b bs => exact hcomma
  · intro k hk
    exact ⟨beq_false_of_ne hk.1, hk.2⟩

theorem reads_commaSeparated (hne : as ≠ []) (hitem : ∀ a ∈ as, Reads item (write a) a P)
    (hcomma : P (.mark .comma)) :
    Reads (commaSeparated item) (commas (as.map write)) as fun k => k ≠ .mark .comma ∧ P k := by
  cases as with
  | nil => exact absurd rfl hne
  | cons a as =>
    exact reads_commaSeparated_cons (hitem a mem_cons_self)
      (fun b hb => hitem b (mem_cons_of_mem a hb)) hcomma

theorem reads_commaTerminated (closing : TokenKind) (message : String) (as : List α)
    (hitem : ∀ a ∈ as, Reads item (write a) a P) (hcomma : P (.mark .comma)) (hclosing : P closing)
    (hne : closing ≠ .mark .comma) (hstart : ∀ a ∈ as, Starts (· ≠ closing) (write a)) :
    Reads (commaTerminated item closing message) (commas (as.map write)) as (· = closing) := by
  have hallows : ∀ a ∈ as, Starts (fun k => (k != closing) = true) (write a) :=
    fun a ha => (hstart a ha).mono fun k hk => bne_iff_ne.mpr hk
  have key : ∀ n, as.length < n → Reads (manyAt (· != closing) (do
      let a ← item
      if ← accept (.mark .comma) then return a
      if (← peek) = closing then return a
      unexpectedFor message) n) (commas (as.map write)) as (· = closing) := by
    clear hstart
    induction as with
    | nil =>
      intro n hn
      obtain ⟨m, rfl⟩ : ∃ m, n = m + 1 := ⟨n - 1, by omega⟩
      exact (reads_manyAt_nil _ _ m).mono fun k hk => by rw [hk]; exact bne_self_eq_false closing
    | cons a as ih =>
      intro n hn
      rw [length_cons] at hn
      obtain ⟨m, rfl⟩ : ∃ m, n = m + 1 := ⟨n - 1, by omega⟩
      have ih' := ih (fun b hb => hitem b (mem_cons_of_mem a hb))
        (fun b hb => hallows b (mem_cons_of_mem a hb)) m (by omega)
      have ha := hitem a mem_cons_self
      have hs := hallows a mem_cons_self
      cases as with
      | nil =>
        show Reads _ (write a) [a] _
        rw [← append_nil (write a)]
        refine reads_manyAt_cons (P := (· = closing)) ?_ ih' hs fun k hk => hk
        rw [← append_nil (write a)]
        refine ha.bind (reads_refuse _ (reads_peek ?_) fun k hk => hk ▸ hne) fun k hk => hk ▸ hclosing
        intro k hk
        show Reads (if k = closing then _ else _) [] a _
        rw [if_pos hk]
        exact reads_pure a _
      | cons b bs =>
        show Reads _ (write a ++ Mark.comma.lexeme :: commas ((b :: bs).map write)) _ _
        rw [append_cons]
        refine reads_manyAt_cons (P := anyKind) ?_ ih' (hs.append _) fun k hk => trivial
        exact ha.bind (reads_accept Mark.comma.lexeme (reads_pure a _)) fun k hk => hcomma
  exact reads_many_of_manyAt key (length_le_commas as fun a ha => (hstart a ha).length_pos)

/-! ## growing -/

/-- after the lexemes `w` the parser `p` has read `a`, which it goes on growing by `step` -/
def Grows (p : Parser α) (allows : TokenKind → Bool) (step : α → Parser α) (w : List Lexeme) (a : α)
    (after : TokenKind → Prop) : Prop :=
  ∀ (ts rest : List Token) (last : Token), ts.map Token.lexeme = w →
    after (Cursor.kind ⟨rest, last⟩) →
      ∃ m, rest.length < m ∧ p ⟨ts ++ rest, last⟩ = foldAt allows step m a ⟨rest, last⟩

/-- a first operand that starts the loop -/
theorem Reads.grows {q : Parser α} {step : α → Parser α}
    (hpq : ∀ c : Cursor, S c.kind → p c = (q >>= fold allows step) c) (h : Reads q w a P) (hw : Starts S w) :
    Grows p allows step w a P := by
  intro ts rest last hts hP
  refine ⟨rest.length + 1, Nat.lt_succ_self _, ?_⟩
  have hkind : S (Cursor.kind ⟨ts ++ rest, last⟩) := by
    rw [Cursor.kind_append, hts]
    exact hw.kindBefore _
  rw [hpq _ hkind, bind_done (h ts rest last hts hP)]
  rfl

theorem Grows.step {step : α → Parser α} {b : α} (h : Grows p allows step w a P) (hb : Reads (step a) w' b Q)
    (hw : Starts (fun k => allows k = true ∧ P k) w') : Grows p allows step (w ++ w') b Q := by
  intro ts rest last hts hQ
  obtain ⟨ts₁, ts₂, rfl, h₁, h₂⟩ := map_eq_append_iff.mp hts
  have hkind : kindBefore w' (Cursor.kind ⟨rest, last⟩) = Cursor.kind ⟨ts₂ ++ rest, last⟩ := by
    rw [Cursor.kind_append, h₂]
  have hstart := hw.kindBefore (Cursor.kind ⟨rest, last⟩)
  rw [hkind] at hstart
  obtain ⟨m, hm, hp⟩ := h ts₁ (ts₂ ++ rest) last h₁ hstart.2
  have hlen : 0 < ts₂.length := by
    have := hw.length_pos
    rwa [← h₂, length_map] at this
  rw [length_append] at hm
  obtain ⟨n, rfl⟩ : ∃ n, m = n + 1 := ⟨m - 1, by omega⟩
  refine ⟨n, by omega, ?_⟩
  rw [append_assoc, hp]
  show (if allows (Cursor.kind ⟨ts₂ ++ rest, last⟩) = true then _ else _) = _
  rw [if_pos hstart.1, bind_done (hb ts₂ rest last h₂ hQ)]

theorem Grows.mono {step : α → Parser α} (h : Grows p allows step w a P) (hQ : ∀ k, Q k → P k) :
    Grows p allows step w a Q :=
  fun ts rest last hts hk => h ts rest last hts (hQ _ hk)

theorem Grows.reads {step : α → Parser α} (h : Grows p allows step w a P) :
    Reads p w a fun k => P k ∧ allows k = false := by
  intro ts rest last hts hP
  obtain ⟨m, hm, hp⟩ := h ts rest last hts hP.1
  rw [hp]
  cases m with
  | zero => exact absurd hm (Nat.not_lt_zero _)
  | succ m => exact if_neg (by rw [hP.2]; exact Bool.false_ne_true)

end Parser

/-! ## written types -/

variable {inner : Power → Parser TypeTerm} {t : TypeTerm}

def endsType (k : TokenKind) : Prop :=
  k ≠ .mark .less ∧ Grammar.standard.typeExtends? k .base = false

instance : DecidablePred endsType := fun _ => inferInstanceAs (Decidable (_ ∧ _))

/-- the extension of a type by what the current token announces -/
def suffixStep (g : Grammar) (left : TypeTerm) : Parser TypeTerm := do
  match g.typeSuffix (← peek) with
  | some (_, rule) => rule.read left
  | none => return left

theorem TypeTerm.starts (t : TypeTerm) : Starts (· = .identifier) t.lexemes := by
  cases t with
  | named x => exact ⟨nameLexeme x, [], rfl, rfl⟩
  | generic x as => exact ⟨nameLexeme x, _, rfl, rfl⟩
  | nullable a =>
    exact (TypeTerm.starts a).append _

theorem reads_namedType_named (inner : Power → Parser TypeTerm) (x : String) :
    Reads (namedType inner) [nameLexeme x] (.named x) (· ≠ .mark .less) := by
  refine reads_expect (nameLexeme x) fun t ht => ?_
  refine reads_refuse _ ?_ fun k hk => hk
  have hx : t.value = x := congrArg Prod.snd ht
  rw [← hx]
  exact reads_pure _ _

theorem reads_namedType_generic {as : List TypeTerm}
    (hne : as ≠ []) (h : ∀ a ∈ as, Reads (inner .base) a.lexemes a endsType) (x : String) :
    Reads (namedType inner) (TypeTerm.generic x as).lexemes (.generic x as) (· ≠ .mark .less) := by
  have hx : ∀ t : Token, t.lexeme = nameLexeme x → t.value = x := fun t ht => congrArg Prod.snd ht
  rw [TypeTerm.lexemes, TypeTerm.phrases_eq_map]
  refine reads_expect (nameLexeme x) fun t ht => reads_accept Mark.less.lexeme ?_
  have hcomma : endsType (.mark .comma) := by decide
  have hgreater : TokenKind.mark .greater ≠ .mark .comma ∧ endsType (.mark .greater) := by decide
  refine (reads_commaSeparated hne h hcomma).bind
    (reads_expectOr Mark.greater.lexeme _ fun _ _ => ?_) fun _ _ => hgreater
  rw [hx t ht]
  exact reads_pure _ _

theorem reads_suffixStep (a : TypeTerm) (P : TokenKind → Prop) :
    Reads (suffixStep .standard a) [Mark.question.lexeme] (.nullable a) P :=
  reads_peek fun _ _ => reads_expect Mark.question.lexeme fun _ _ => reads_pure _ _

theorem typeTermStep_of_identifier {c : Cursor} (h : c.kind = .identifier) (power : Power) :
    typeTermStep .standard inner power c
      = (namedType inner >>= fold (Grammar.standard.typeExtends? · power) (suffixStep .standard)) c := by
  show (if Grammar.standard.typeName c.kind = true then _ else _ : Parser TypeTerm) c = _
  rw [h]
  rfl

/-- the loop over suffixes, by induction on the type to its left -/
theorem grows_typeTerm
    (hinner : ∀ a : TypeTerm, a.WellFormed → a.lexemes.length ≤ n → Reads (inner .base) a.lexemes a endsType)
    (ht : t.WellFormed) (hn : t.lexemes.length ≤ n + 1) :
    Grows (typeTermStep .standard inner .base) (Grammar.standard.typeExtends? · .base)
      (suffixStep .standard) t.lexemes t (· ≠ .mark .less) := by
  have hstep : ∀ c : Cursor, c.kind = .identifier → typeTermStep .standard inner .base c = _ :=
    fun c hc => typeTermStep_of_identifier hc .base
  induction ht with
  | @named x _ => exact (reads_namedType_named inner x).grows hstep (TypeTerm.starts (.named x))
  | @generic x as _ hne has _ =>
    rw [TypeTerm.lexemes, TypeTerm.phrases_eq_map, length_cons, length_cons,
      length_append] at hn
    have hread : ∀ a ∈ as, Reads (inner .base) a.lexemes a endsType := by
      intro a ha
      have := length_le_commas_of_mem (mem_map_of_mem (f := TypeTerm.lexemes) ha)
      exact hinner a (has a ha) (by omega)
    exact (reads_namedType_generic hne hread x).grows hstep (TypeTerm.starts (.generic x as))
  | @nullable a _ ih =>
    rw [TypeTerm.lexemes, length_append] at hn
    exact (ih (by omega)).step (reads_suffixStep a _) ⟨_, [], rfl, by decide⟩

theorem reads_typeTermAt (n : Nat) : ∀ t : TypeTerm, t.WellFormed → t.lexemes.length ≤ n →
    Reads (typeTermAt .standard n .base) t.lexemes t endsType := by
  induction n with
  | zero =>
    intro t _ hn
    exact absurd (TypeTerm.starts t).length_pos (by omega)
  | succ n ih =>
    intro t ht hn
    exact (grows_typeTerm ih ht hn).reads

theorem reads_typeTerm (ht : t.WellFormed) : Reads (typeTerm .standard .base) t.lexemes t endsType := by
  intro ts rest last hts hk
  refine reads_typeTermAt _ t ht ?_ ts rest last hts hk
  show t.lexemes.length ≤ (ts ++ rest).length + 1
  rw [← hts, length_map, length_append]
  omega

end TypedScript
