import Mathlib
import TypedScript.Proofs.Progress
import TypedScript.Proofs.Referents
import TypedScript.Proofs.Spelling

/-!
# Readers and the tokens they pass

A reader stands at one of the tokens of its list, before it as well as after it.  If it fails, it blames
the place of one of these tokens, for a cause of syntax.

The readers of the language are bounded by the depth of nesting.  Two readers of different depth give the
same reply to the same tokens, if there are fewer tokens than either depth: every phrase passes a token
before it reads a phrase of its own kind.  And the grammar does not look at the digits of a number, except
that a number without `n` has to be in range: a list of tokens is read as the list with `0` for every
number, up to the first number out of range.

* `Token.Scanned`: what the scanner guarantees of each token;
* `Twins T n p q R`: `p` on fewer than `n` of the tokens and then `q`; `R` is said of both
  values, of the numbers that were passed, and of how many tokens were
  passed.
-/

namespace TypedScript

open TypedScript.Parser List

/-! ## numerals -/

variable {k : TokenKind}

def TokenKind.isNumeral : TokenKind → Bool
  | .number | .longNumber => true
  | _ => false

/-- the kinds that are neither numbers nor the end marker -/
def TokenKind.isPlain : TokenKind → Bool
  | .number | .longNumber | .eof => false
  | _ => true

theorem TokenKind.isNumeral_of_isPlain (h : k.isPlain = true) : k.isNumeral = false := by
  cases k <;> first | rfl | cases h

theorem TokenKind.ne_eof_of_isPlain (h : k.isPlain = true) : k ≠ .eof := by
  rintro rfl
  cases h

def Literal.isNumeral : Literal → Bool
  | .integer _ | .long _ => true
  | _ => false

/-- the numbers among literals -/
def numerals (vs : List Literal) : List Literal := vs.filter Literal.isNumeral

@[simp] theorem numerals_nil : numerals [] = [] := rfl

@[simp] theorem numerals_append (vs ws : List Literal) : numerals (vs ++ ws) = numerals vs ++ numerals ws :=
  filter_append vs ws

namespace Token

/-- a token with `0` for its digits -/
def zeroed (t : Token) : Token := if t.kind.isNumeral then { t with value := "0" } else t

/-- if the token is a number without `n`, its value has 64 bits -/
def InRange (t : Token) : Prop := t.kind = .number → (Text.signed64? t.value.toList).isSome = true

/-- the literal that a number stands for -/
def numeral? (t : Token) : Option Literal :=
  match t.kind with
  | .number => (Text.signed64? t.value.toList).map .integer
  | .longNumber => some (.long t.value)
  | _ => none

structure Scanned (t : Token) : Prop where
  name : t.kind = .identifier → isName t.value
  number : t.kind = .number → TypedScript.isNumeral t.value
  long : t.kind = .longNumber → TypedScript.isNumeral t.value

variable {t : Token}

@[simp] theorem kind_zeroed (t : Token) : t.zeroed.kind = t.kind := by
  unfold zeroed
  split <;> rfl

theorem zeroed_eq (h : t.kind.isNumeral = false) : t.zeroed = t := by
  unfold zeroed
  rw [h]
  rfl

theorem inRange_of_isNumeral (h : t.kind.isNumeral = false) : t.InRange := by
  intro hk
  rw [hk] at h
  cases h

theorem numeral?_eq_none (h : t.kind.isNumeral = false) : t.numeral? = none := by
  unfold numeral?
  split
  · next hk => rw [hk] at h; cases h
  · next hk => rw [hk] at h; cases h
  · rfl

end Token

/-- tokens that are read twice; the second time they are the same, or have no digits -/
structure Rereading where
  tokens : List Token
  same : Bool

namespace Cursor

def tokens (c : Cursor) : List Token := c.ahead ++ [c.last]

def zeroed (c : Cursor) : Cursor := ⟨c.ahead.map Token.zeroed, c.last.zeroed⟩

/-- the cursor at the second reading -/
def again (T : Rereading) (c : Cursor) : Cursor := if T.same then c else c.zeroed

/-- the cursor stands in the list, and the end marker is the last token -/
structure In (T : Rereading) (c : Cursor) : Prop where
  ended : c.Ended
  tokens : ∀ t ∈ c.tokens, t ∈ T.tokens

variable {T : Rereading} (c : Cursor)

theorem again_eq (h : T.same = true) : c.again T = c := if_pos h

theorem current_zeroed : c.zeroed.current = c.current.zeroed := by
  obtain ⟨ahead, last⟩ := c
  cases ahead <;> rfl

theorem current_again : (c.again T).current = if T.same then c.current else c.current.zeroed := by
  unfold again
  split
  · rfl
  · exact c.current_zeroed

@[simp] theorem kind_again : (c.again T).kind = c.kind := by
  unfold kind
  rw [current_again]
  split
  · rfl
  · exact c.current.kind_zeroed

theorem position_again : (c.again T).position = c.position := by
  unfold position
  rw [current_again]
  split
  · rfl
  · unfold Token.zeroed
    split <;> rfl

theorem current_again_of_plain (h : c.kind.isNumeral = false) : (c.again T).current = c.current := by
  rw [current_again, Token.zeroed_eq h, ite_self]

theorem next_again : (c.again T).next = c.next.again T := by
  unfold again
  split
  · rfl
  · obtain ⟨ahead, last⟩ := c
    cases ahead <;> rfl

@[simp] theorem bound_again : (c.again T).bound = c.bound := by
  unfold again
  split
  · rfl
  · unfold bound zeroed
    rw [length_map]

variable {c}

theorem In.current_mem (h : c.In T) : c.current ∈ T.tokens := by
  refine h.tokens _ ?_
  obtain ⟨ahead, last⟩ := c
  cases ahead with
  | nil => exact mem_singleton_self last
  | cons t ts => exact mem_cons_self

theorem In.of_behind (h : (behind pre c).In T) : c.In T := by
  refine ⟨h.ended, fun t ht => h.tokens t ?_⟩
  unfold Cursor.tokens Cursor.behind at *
  rw [append_assoc]
  exact mem_append_right pre ht

end Cursor

/-! ## twins -/

/-- a fault of syntax at the place of one of the tokens -/
def Diagnostic.Blames (ts : List Token) (d : Diagnostic) : Prop :=
  d.cause.category = .grammar ∧ ∃ t ∈ ts, d.position = some t.span.position

/-- The replies of the two readings.  A value comes with a value at the same place, and the numbers that were
passed are in range.  A failure comes with a failure, which is the same for the same tokens, or it is one at
the first number out of range.  Neither reading reaches a bound. -/
def Reply.Twin {α : Type} (T : Rereading) (c : Cursor) (R : α → α → List Literal → Nat → Prop)
    (r s : Reply α) : Prop :=
  match r with
  | .done a c' => ∃ pre b, c = .behind pre c' ∧ (∀ t ∈ pre, t.kind ≠ .eof ∧ t.InRange) ∧
      s = .done b (c'.again T) ∧ R a b (pre.filterMap Token.numeral?) pre.length
  | .failed d c' => d.Blames T.tokens ∧ c.Reaches 0 c' ∧ (T.same = true → s = .failed d c') ∧
      ((∃ pre t, c = .behind (pre ++ [t]) c' ∧ (∀ u ∈ pre, u.InRange) ∧ ¬ t.InRange ∧
        d = .atPosition (.numberOutOfRange t.value) t.span.position) ∨ ∃ e c'', s = .failed e c'')
  | .exhausted _ => False

/-- a phrase holds the numbers that were passed, is no heavier than the tokens are many, is well formed if
the tokens are those of a scan, and is read again from the same tokens -/
structure Found {α : Type} (T : Rereading) (literals : α → List Literal) (weight : α → Nat)
    (WellFormed : α → Prop) (a b : α) (vs : List Literal) (k : Nat) : Prop where
  numerals : numerals (literals a) = vs
  weight : weight a ≤ k
  wellFormed : (∀ t ∈ T.tokens, t.Scanned) → WellFormed a
  same : T.same = true → a = b

/-- a list of such phrases -/
structure AllFound {α : Type} (T : Rereading) (literals : α → List Literal) (weight : α → Nat)
    (WellFormed : α → Prop) (as bs : List α) (vs : List Literal) (k : Nat) : Prop where
  length : as.length = bs.length
  numerals : TypedScript.numerals (as.flatMap literals) = vs
  weight : (as.map weight).sum ≤ k
  wellFormed : (∀ t ∈ T.tokens, t.Scanned) → ∀ a ∈ as, WellFormed a
  same : T.same = true → as = bs

section
variable {α : Type} {T : Rereading} {literals : α → List Literal} {weight : α → Nat} {WellFormed : α → Prop}

variable {k j : Nat} {vs : List Literal} {a b : α}

theorem allFound_nil : AllFound T literals weight WellFormed [] [] [] k :=
  ⟨rfl, rfl, Nat.zero_le k, fun _ => nofun, fun _ => rfl⟩

theorem Found.cons {a b : α} {as bs : List α} {ws : List Literal}
    (h : Found T literals weight WellFormed a b vs k)
      (hs : AllFound T literals weight WellFormed as bs ws j) :
    AllFound T literals weight WellFormed (a :: as) (b :: bs) (vs ++ ws) (k + j) where
  length := congrArg (· + 1) hs.length
  numerals := by rw [flatMap_cons, numerals_append, h.numerals, hs.numerals]
  weight := Nat.add_le_add h.weight hs.weight
  wellFormed hts := forall_mem_cons.mpr ⟨h.wellFormed hts, hs.wellFormed hts⟩
  same ht := by rw [h.same ht, hs.same ht]

theorem Found.later (h : Found T literals weight WellFormed a b vs k)
    (hj : k ≤ j) : Found T literals weight WellFormed a b vs j :=
  { h with weight := Nat.le_trans h.weight hj }

end

namespace Parser

variable {α β : Type} {T : Rereading} {m n : Nat}

def TwinAt (T : Rereading) (c : Cursor) (p q : Parser α) (R : α → α → List Literal → Nat → Prop) : Prop :=
  Reply.Twin T c R (p c) (q (c.again T))

def Twins (T : Rereading) (n : Nat) (p q : Parser α) (R : α → α → List Literal → Nat → Prop) : Prop :=
  ∀ c : Cursor, c.In T → c.ahead.length < n → TwinAt T c p q R

variable {c : Cursor} {p q : Parser α} {f g : α → Parser β} {P R : α → α → List Literal → Nat → Prop}
  {Q : β → β → List Literal → Nat → Prop}
variable {a b : α} {C : Prop}

/-- what follows has as many tokens fewer as were passed -/
theorem TwinAt.bind_of_lt (hc : c.In T) (hp : TwinAt T c p q P)
    (hf : ∀ a b vs k, P a b vs k → c.ahead.length < n + k ∧
      Twins T n (f a) (g b) fun a' b' ws j => Q a' b' (vs ++ ws) (k + j)) :
    TwinAt T c (p >>= f) (q >>= g) Q := by
  unfold TwinAt at hp ⊢
  cases hpc : p c with
  | exhausted c' =>
    rw [hpc] at hp
    exact hp.elim
  | failed d c' =>
    rw [hpc] at hp
    rw [bind_failed hpc]
    obtain ⟨hd, hreach, hsame, hother⟩ := hp
    refine ⟨hd, hreach, fun ht => bind_failed (hsame ht), hother.imp_right ?_⟩
    exact fun ⟨e, c'', hq⟩ => ⟨e, c'', bind_failed hq⟩
  | done a c' =>
    rw [hpc] at hp
    obtain ⟨pre, b, rfl, hpre, hq, hab⟩ := hp
    obtain ⟨hlen, hfg⟩ := hf a b _ _ hab
    rw [Cursor.length_behind] at hlen
    have hrest := hfg c' hc.of_behind (by omega)
    rw [bind_done hpc, bind_done hq]
    unfold TwinAt at hrest
    cases hfa : f a c' with
    | exhausted c'' =>
      rw [hfa] at hrest
      exact hrest.elim
    | failed d c'' =>
      rw [hfa] at hrest
      obtain ⟨hd, hreach, hsame, hother⟩ := hrest
      have hfirst : (Cursor.behind pre c').Reaches 0 c' :=
        ⟨pre, rfl, Nat.zero_le _, fun t ht => (hpre t ht).1⟩
      refine ⟨hd, hfirst.trans hreach, hsame, hother.imp_left ?_⟩
      rintro ⟨mid, t, rfl, hmid, ht, hrange⟩
      refine ⟨pre ++ mid, t, ?_, forall_mem_append.mpr ⟨fun u hu => (hpre u hu).2, hmid⟩, ht, hrange⟩
      rw [Cursor.behind_behind, append_assoc]
    | done a' c'' =>
      rw [hfa] at hrest
      obtain ⟨mid, b', rfl, hmid, hgb, hQ⟩ := hrest
      refine ⟨pre ++ mid, b', Cursor.behind_behind pre mid c'', forall_mem_append.mpr ⟨hpre, hmid⟩,
        hgb, ?_⟩
      rwa [filterMap_append, length_append]

theorem TwinAt.bind (hc : c.In T) (hlen : c.ahead.length < n) (hp : TwinAt T c p q P)
    (hf : ∀ a b vs k, P a b vs k → Twins T n (f a) (g b) fun a' b' ws j => Q a' b' (vs ++ ws) (k + j)) :
    TwinAt T c (p >>= f) (q >>= g) Q :=
  hp.bind_of_lt hc fun a b vs k hab => ⟨Nat.lt_add_right k hlen, hf a b vs k hab⟩

theorem Twins.bind (hp : Twins T n p q P)
    (hf : ∀ a b vs k, P a b vs k → Twins T n (f a) (g b) fun a' b' ws j => Q a' b' (vs ++ ws) (k + j)) :
    Twins T n (p >>= f) (q >>= g) Q :=
  fun c hc hlen => (hp c hc hlen).bind hc hlen hf

theorem TwinAt.mono (hp : TwinAt T c p q P) (h : ∀ a b vs k, P a b vs k → R a b vs k) : TwinAt T c p q R := by
  unfold TwinAt at hp ⊢
  cases hreply : p c with
  | failed d c' | exhausted c' => rwa [hreply] at hp
  | done a c' =>
    rw [hreply] at hp
    obtain ⟨pre, b, hpre, hrange, hq, hab⟩ := hp
    exact ⟨pre, b, hpre, hrange, hq, h a b _ _ hab⟩

theorem Twins.mono (hp : Twins T n p q P) (h : ∀ a b vs k, P a b vs k → R a b vs k) : Twins T n p q R :=
  fun c hc hlen => (hp c hc hlen).mono h

theorem Twins.shorten (h : Twins T n p q R) (hm : m ≤ n) : Twins T m p q R :=
  fun c hc hlen => h c hc (Nat.lt_of_lt_of_le hlen hm)

theorem twins_pure (h : R a b [] 0) : Twins T n (pure a) (pure b) R :=
  fun _ _ _ => ⟨[], b, rfl, nofun, rfl, h⟩

theorem Twins.last (hp : Twins T n p q P) {φ ψ : α → β} (h : ∀ a b vs k, P a b vs k → Q (φ a) (ψ b) vs k) :
    Twins T n (p >>= fun a => pure (φ a)) (q >>= fun b => pure (ψ b)) Q := by
  refine hp.bind fun a b vs k hab => twins_pure ?_
  rw [append_nil]
  exact h a b vs k hab

theorem Twins.ite [Decidable C] {p' q' : Parser α} (h : Twins T n p q R)
    (h' : Twins T n p' q' R) : Twins T n (if C then p else p') (if C then q else q') R := by
  split
  · exact h
  · exact h'

theorem Twins.orElse [Decidable C] (hp : Twins T n p q P) (hab : P a b [] 0)
    (hf : ∀ a b vs k, P a b vs k → Twins T n (f a) (g b) fun a' b' ws j => Q a' b' (vs ++ ws) (k + j)) :
    Twins T n (if C then p >>= f else pure a >>= f) (if C then q >>= g else pure b >>= g) Q :=
  .ite (hp.bind hf) ((twins_pure hab).bind hf)

/-! ## failures -/

theorem twins_failAt {cause : Cause} (hcause : cause.category = .grammar)
    (hplace : ∃ t ∈ T.tokens, place = t.span.position) (R : α → α → List Literal → Nat → Prop) :
    Twins T n (failAt cause place) (failAt cause place) R := by
  obtain ⟨t, ht, rfl⟩ := hplace
  exact fun c _ _ => ⟨⟨hcause, t, ht, rfl⟩, .refl c, fun hs => by rw [c.again_eq hs]; rfl, .inr ⟨_, _, rfl⟩⟩

theorem twins_unexpected (R : α → α → List Literal → Nat → Prop) : Twins T n unexpected unexpected R :=
  fun c hc _ => ⟨⟨rfl, c.current, hc.current_mem, rfl⟩, .refl c, fun hs => by rw [c.again_eq hs]; rfl,
    .inr ⟨_, _, rfl⟩⟩

theorem twins_unexpectedFor (message : String) (R : α → α → List Literal → Nat → Prop) :
    Twins T n (unexpectedFor message) (unexpectedFor message) R :=
  fun c hc _ => ⟨⟨rfl, c.current, hc.current_mem, rfl⟩, .refl c, fun hs => by rw [c.again_eq hs]; rfl,
    .inr ⟨_, _, rfl⟩⟩

/-! ## single tokens -/

section
variable {h k : Token → Parser β}

variable {kind : TokenKind} {message : String}

theorem twinAt_peek {h k : TokenKind → Parser β} (hk : TwinAt T c (h c.kind) (k c.kind) Q) :
    TwinAt T c (peek >>= h) (peek >>= k) Q := by
  have hpeek : (peek >>= k) (c.again T) = k c.kind (c.again T) := congrArg (k · (c.again T)) c.kind_again
  unfold TwinAt
  rw [hpeek]
  exact hk

theorem twins_peek {h k : TokenKind → Parser β} (hk : ∀ κ, Twins T n (h κ) (k κ) Q) :
    Twins T n (peek >>= h) (peek >>= k) Q :=
  fun c hc hlen => twinAt_peek (hk c.kind c hc hlen)

theorem twinAt_here (hc : c.In T) {h k : Position → Parser β}
    (hk : ∀ place, (∃ t ∈ T.tokens, place = t.span.position) → TwinAt T c (h place) (k place) Q) :
    TwinAt T c (here >>= h) (here >>= k) Q := by
  have hhere : (here >>= k) (c.again T) = k c.position (c.again T) :=
    congrArg (k · (c.again T)) c.position_again
  unfold TwinAt
  rw [hhere]
  exact hk c.position ⟨c.current, hc.current_mem, rfl⟩

theorem twinAt_token (hc : c.In T) (hlen : c.ahead.length < n + 1) (hkind : c.kind.isPlain = true)
    (hk : Twins T n (h c.current) (k c.current) fun a b vs j => Q a b vs (1 + j)) :
    TwinAt T c (token >>= h) (token >>= k) Q := by
  have hplain := TokenKind.isNumeral_of_isPlain hkind
  have htoken : TwinAt T c token token fun t u vs j => t = c.current ∧ t = u ∧ vs = [] ∧ j = 1 := by
    refine ⟨[c.current], c.current, Cursor.exists_ahead hc.ended (TokenKind.ne_eof_of_isPlain hkind), ?_, ?_,
      rfl, rfl, ?_, rfl⟩
    · exact forall_mem_singleton.mpr
        ⟨TokenKind.ne_eof_of_isPlain hkind, Token.inRange_of_isNumeral hplain⟩
    · show Reply.done (c.again T).current (c.again T).next = _
      rw [Cursor.current_again_of_plain c hplain, Cursor.next_again]
    · rw [filterMap_cons_none (Token.numeral?_eq_none hplain)]
      rfl
  refine htoken.bind_of_lt (n := n) hc ?_
  rintro t u vs j ⟨rfl, rfl, rfl, rfl⟩
  exact ⟨hlen, hk⟩

theorem twins_first (hkind : kind.isPlain = true) {first : Parser Token}
    (hdone : ∀ c : Cursor, c.kind = kind → first c = token c)
    (hfailed : ∀ c : Cursor, c.kind ≠ kind → ∃ d : Diagnostic, first c = .failed d c ∧
      d.cause.category = .grammar ∧ d.position = some c.position)
    (hk : ∀ t ∈ T.tokens, t.kind = kind → Twins T n (h t) (k t) fun a b vs j => Q a b vs (1 + j)) :
    Twins T (n + 1) (first >>= h) (first >>= k) Q := by
  intro c hc hlen
  unfold TwinAt
  by_cases hck : c.kind = kind
  · have hbind : ∀ (f : Token → Parser β) (d : Cursor), d.kind = kind →
        (first >>= f) d = (token >>= f) d := fun f d hd => (bind_done (hdone d hd)).trans rfl
    rw [hbind h c hck, hbind k (c.again T) (c.kind_again.trans hck)]
    exact twinAt_token hc hlen (hck ▸ hkind) (hk _ hc.current_mem hck)
  · obtain ⟨d, hd, hcause, hplace⟩ := hfailed c hck
    obtain ⟨d', hd', -⟩ := hfailed (c.again T) (by rwa [Cursor.kind_again])
    rw [bind_failed hd, bind_failed hd']
    refine ⟨⟨hcause, c.current, hc.current_mem, hplace⟩, .refl c, fun hs => ?_, .inr ⟨_, _, rfl⟩⟩
    rw [c.again_eq hs, hd] at hd'
    rw [c.again_eq hs, Reply.failed.inj hd' |>.1]

theorem twins_opening (hkind : kind.isPlain = true)
    (hk : ∀ t ∈ T.tokens, t.kind = kind → Twins T n (h t) (k t) fun a b vs j => Q a b vs (1 + j)) :
    Twins T (n + 1) (expect kind >>= h) (expect kind >>= k) Q :=
  twins_first hkind (fun _ hc => if_pos hc) (fun _ hc => ⟨_, if_neg hc, rfl, rfl⟩) hk

theorem twins_openingOr (hkind : kind.isPlain = true)
    (hk : ∀ t ∈ T.tokens, t.kind = kind → Twins T n (h t) (k t) fun a b vs j => Q a b vs (1 + j)) :
    Twins T (n + 1) (expectOr kind message >>= h) (expectOr kind message >>= k) Q :=
  twins_first hkind (fun _ hc => if_pos hc) (fun _ hc => ⟨_, if_neg hc, rfl, rfl⟩) hk

theorem twins_expect (hkind : kind.isPlain = true)
    (hk : ∀ t ∈ T.tokens, t.kind = kind → Twins T n (h t) (k t) fun a b vs j => Q a b vs (1 + j)) :
    Twins T n (expect kind >>= h) (expect kind >>= k) Q :=
  (twins_opening hkind hk).shorten (Nat.le_succ n)

theorem twins_expectOr (hkind : kind.isPlain = true)
    (hk : ∀ t ∈ T.tokens, t.kind = kind → Twins T n (h t) (k t) fun a b vs j => Q a b vs (1 + j)) :
    Twins T n (expectOr kind message >>= h) (expectOr kind message >>= k) Q :=
  (twins_openingOr hkind hk).shorten (Nat.le_succ n)

theorem twins_accept (hkind : kind.isPlain = true) {h k : Bool → Parser β}
    (hk : ∀ b m, Twins T n (h b) (k b) fun a b vs j => Q a b vs (m + j)) :
    Twins T n (accept kind >>= h) (accept kind >>= k) Q := by
  intro c hc hlen
  unfold TwinAt
  by_cases hck : c.kind = kind
  · have hdone : ∀ (f : Bool → Parser β) (d : Cursor), d.kind = kind →
        (accept kind >>= f) d = (token >>= fun _ => f true) d :=
      fun f d hd => (bind_done (if_pos hd)).trans rfl
    rw [hdone h c hck, hdone k (c.again T) (c.kind_again.trans hck)]
    exact twinAt_token hc (Nat.lt_succ_of_lt hlen) (hck ▸ hkind) (hk true 1)
  · rw [bind_done (if_neg hck), bind_done (if_neg (by rwa [Cursor.kind_again]))]
    have hrest := hk false 0 c hc hlen
    simp only [Nat.zero_add] at hrest
    exact hrest

end

/-! ## repetition -/

section
variable {literals : α → List Literal} {weight : α → Nat} {WellFormed : α → Prop}

variable {allows : TokenKind → Bool}

theorem twins_many (hweight : ∀ a, 1 ≤ weight a) (h : ∀ c : Cursor, c.In T → c.ahead.length < n →
      allows c.kind = true → TwinAt T c p q (Found T literals weight WellFormed)) :
    Twins T n (many allows p) (many allows q) (AllFound T literals weight WellFormed) := by
  -- an item passes a token, so the bound stays above the number of tokens that are left
  have key : ∀ i ≤ n, Twins T i (manyAt allows p i) (manyAt allows q i)
      (AllFound T literals weight WellFormed) := by
    intro i hi
    induction i with
    | zero => exact fun _ _ hlen => absurd hlen (Nat.not_lt_zero _)
    | succ i ih =>
      intro c hc hlen
      unfold TwinAt manyAt
      rw [Cursor.kind_again]
      split
      · next hk =>
        refine (h c hc (Nat.lt_of_lt_of_le hlen hi) hk).bind_of_lt (n := i) hc fun a b vs k ha => ?_
        have hk := Nat.le_trans (hweight a) ha.weight
        exact ⟨by omega, (ih (by omega)).last fun _ _ _ _ => ha.cons⟩
      · exact ⟨[], [], rfl, forall_mem_nil _, rfl, allFound_nil⟩
  intro c hc hlen
  unfold TwinAt many
  rw [Cursor.bound_again]
  exact key c.bound hlen c hc (Nat.lt_succ_self _)

theorem twins_fold {step step' : α → Parser α}
    (h : ∀ a b vs k, R a b vs k → ∀ c : Cursor, c.In T → c.ahead.length < n → allows c.kind = true →
      TwinAt T c (step a) (step' b) fun a' b' ws j => 1 ≤ j ∧ R a' b' (vs ++ ws) (k + j))
    {vs : List Literal} {k : Nat} (hab : R a b vs k) : Twins T n (fold allows step a)
      (fold allows step' b) fun a' b' ws j => R a' b' (vs ++ ws) (k + j) := by
  have key : ∀ i ≤ n, ∀ a b vs k, R a b vs k → Twins T i (foldAt allows step i a) (foldAt allows step' i b)
      fun a' b' ws j => R a' b' (vs ++ ws) (k + j) := by
    intro i hi
    induction i with
    | zero => exact fun _ _ _ _ _ _ _ hlen => absurd hlen (Nat.not_lt_zero _)
    | succ i ih =>
      intro a b vs k hab c hc hlen
      unfold TwinAt foldAt
      rw [Cursor.kind_again]
      split
      · next hk =>
        have hstep := h a b vs k hab c hc (Nat.lt_of_lt_of_le hlen hi) hk
        refine hstep.bind_of_lt (n := i) hc fun a' b' ws j hab' => ?_
        have hj := hab'.1
        refine ⟨by omega, (ih (by omega) a' b' _ _ hab'.2).mono fun _ _ us i hus => ?_⟩
        rwa [← append_assoc, ← Nat.add_assoc]
      · refine ⟨[], b, rfl, forall_mem_nil _, rfl, ?_⟩
        show R a b (vs ++ []) (k + 0)
        rwa [append_nil]
  intro c hc hlen
  unfold TwinAt fold
  rw [Cursor.bound_again]
  exact key c.bound hlen a b vs k hab c hc (Nat.lt_succ_self _)

theorem twins_commaSeparated (hweight : ∀ a, 1 ≤ weight a)
    (h : Twins T n p q (Found T literals weight WellFormed)) :
    Twins T n (commaSeparated p) (commaSeparated q)
      fun as bs vs k => as ≠ [] ∧ AllFound T literals weight WellFormed as bs vs k := by
  have hnext : ∀ c : Cursor, c.In T → c.ahead.length < n → (c.kind == .mark .comma) = true →
      TwinAt T c (token >>= fun _ => p) (token >>= fun _ => q) (Found T literals weight WellFormed) := by
    intro c hc hlen hk
    refine twinAt_token hc (Nat.lt_succ_of_lt hlen) (by rw [eq_of_beq hk]; rfl) (h.mono fun _ _ _ k ha => ?_)
    exact ha.later (Nat.le_add_left k 1)
  refine h.bind fun a b vs k ha => (twins_many hweight hnext).last fun as bs ws j has => ?_
  exact ⟨cons_ne_nil a as, ha.cons has⟩

theorem twins_commaTerminated (hweight : ∀ a, 1 ≤ weight a)
    (h : Twins T n p q (Found T literals weight WellFormed))
    (closing : TokenKind) (message : String) :
    Twins T n (commaTerminated p closing message) (commaTerminated q closing message)
      (AllFound T literals weight WellFormed) := by
  refine twins_many hweight fun c hc hlen _ => (h c hc hlen).bind hc hlen fun a b vs k ha => ?_
  refine twins_accept rfl fun _ m => ?_
  have hdone : Twins T n (pure a) (pure b)
      fun a' b' ws j => Found T literals weight WellFormed a' b' (vs ++ ws) (k + (m + j)) :=
    twins_pure ((append_nil vs).symm ▸ ha.later (Nat.le_add_right k _))
  exact .ite hdone (twins_peek fun _ => .ite hdone (twins_unexpectedFor message _))

end

end Parser

end TypedScript
