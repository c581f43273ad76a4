import TypedScript.Proofs.TokenUse

/-!
# Failing at the first impossible token

A parser is prompt if it fails as soon as no continuation can succeed.  `PromptAt stop starts p c` says
this of one cursor: either `p` reads some tokens as a value, and reads the same value whatever follows,
as long as the next kind is the one that is there or one in `stop`; or it fails at a token such that

* every list that agrees up to that token fails in the same way (`Rejects`);
* the tokens before it can be completed to a phrase that `p` reads in front of any kind in `stop`
  (`Completes`).

The kinds in `starts` are those at which an empty prefix is completed: a phrase in front has to stop
there, which is what `PromptAt.bind` asks for.
-/

namespace TypedScript

open TypedScript.Parser List

/-! ## tokens in front -/

variable {c : Cursor} {pre : List Token}

namespace Cursor

def AwaitFree (c : Cursor) : Prop := ∀ t ∈ c.ahead, t.kind ≠ .keyword .kwAwait

theorem AwaitFree.of_behind (h : (behind pre c).AwaitFree) : c.AwaitFree :=
  fun t ht => h t (mem_append_right pre ht)

/-- the first token does not depend on what follows the tokens in front -/
theorem kind_behind (h : pre ≠ []) (c d : Cursor) : (behind pre c).kind = (behind pre d).kind := by
  cases pre with
  | nil => exact absurd rfl h
  | cons t pre => rfl

end Cursor

namespace Parser

open Cursor (behind behind_behind)

variable {α β : Type} {m n : Nat} {kind : TokenKind} {S T stop stop' starts starts' : TokenKind → Prop}
  {p q : Parser α} {f : α → Parser β} {t : Token}

/-! ## settling, rejecting, completing -/

/-- `p` reads some tokens in front of any cursor that starts with the kind that follows them here, or
with a kind in `stop` -/
def Settles (stop starts : TokenKind → Prop) (p : Parser α) (c : Cursor) : Prop :=
  ∃ pre c' a, c = behind pre c' ∧ (pre = [] → ∀ k, stop k → starts k) ∧
    ∀ d : Cursor, d.Ended → (d.kind = c'.kind ∨ stop d.kind) → p (behind pre d) = .done a d

/-- `p` fails at `t` after `pre`, with one fault, whatever comes after `t` -/
def Rejects (p : Parser α) (pre : List Token) (t : Token) : Prop :=
  ∃ fault : Diagnostic, fault.position = some t.span.position ∧
    ∀ d : Cursor, d.Ended → d.current = t → ∃ rest, p (behind pre d) = .failed fault rest

/-- some tokens after `pre` make a phrase that `p` reads in front of every kind in `stop` -/
def Completes (stop starts : TokenKind → Prop) (p : Parser α) (pre : List Token) : Prop :=
  ∃ more a, ∀ d : Cursor, d.Ended → stop d.kind →
    p (behind (pre ++ more) d) = .done a d ∧ (pre = [] → starts (behind more d).kind)

def Stumbles (stop starts : TokenKind → Prop) (p : Parser α) (c : Cursor) : Prop :=
  ∃ pre c', c = behind pre c' ∧ Rejects p pre c'.current ∧ Completes stop starts p pre

def PromptAt (stop starts : TokenKind → Prop) (p : Parser α) (c : Cursor) : Prop :=
  Settles stop starts p c ∨ Stumbles stop starts p c

/-- prompt at every cursor with fewer than `n` tokens and no `await` ahead, the first of a kind in `S` -/
def PromptOn (S : TokenKind → Prop) (n : Nat) (stop starts : TokenKind → Prop) (p : Parser α) : Prop :=
  ∀ c : Cursor, c.Ended → c.AwaitFree → c.ahead.length < n → S c.kind → PromptAt stop starts p c

structure Prompt (n : Nat) (stop starts : TokenKind → Prop) (p : Parser α) : Prop where
  completes : Completes stop starts p []
  on : PromptOn anyKind n stop starts p

def noKind : TokenKind → Prop := fun _ => False

theorem Completes.mono (h : Completes stop starts p pre) (hstop : ∀ k, stop' k → stop k)
    (hstarts : ∀ k, starts k → starts' k) : Completes stop' starts' p pre := by
  obtain ⟨more, a, hdone⟩ := h
  refine ⟨more, a, fun d hd hk => ?_⟩
  obtain ⟨hread, hfirst⟩ := hdone d hd (hstop _ hk)
  exact ⟨hread, fun hpre => hstarts _ (hfirst hpre)⟩

theorem PromptAt.mono (h : PromptAt stop starts p c) (hstop : ∀ k, stop' k → stop k)
    (hstarts : ∀ k, starts k → starts' k) : PromptAt stop' starts' p c := by
  rcases h with ⟨pre, c', a, hc, hempty, hdone⟩ | ⟨pre, c', hc, hreject, hcomplete⟩
  · refine .inl ⟨pre, c', a, hc, fun hpre k hk => hstarts k (hempty hpre k (hstop k hk)), ?_⟩
    exact fun d hd hk => hdone d hd (hk.imp_right (hstop _))
  · exact .inr ⟨pre, c', hc, hreject, hcomplete.mono hstop hstarts⟩

theorem PromptOn.mono (h : PromptOn S n stop starts p) (hS : ∀ k, T k → S k) (hm : m ≤ n)
    (hstop : ∀ k, stop' k → stop k) (hstarts : ∀ k, starts k → starts' k) : PromptOn T m stop' starts' p :=
  fun c hc hfree hlen hk => (h c hc hfree (by omega) (hS _ hk)).mono hstop hstarts

theorem Prompt.mono (h : Prompt n stop starts p) (hm : m ≤ n) (hstop : ∀ k, stop' k → stop k)
    (hstarts : ∀ k, starts k → starts' k) : Prompt m stop' starts' p :=
  ⟨h.completes.mono hstop hstarts, h.on.mono (fun _ => id) hm hstop hstarts⟩

theorem Prompt.narrow (h : Prompt n stop starts p) (hstop : ∀ k, stop' k → stop k) :
    Prompt n stop' starts p :=
  h.mono (Nat.le_refl n) hstop fun _ => id

theorem Prompt.shorten (h : Prompt (n + 1) stop starts p) : Prompt n stop starts p :=
  h.mono (Nat.le_succ n) (fun _ => id) fun _ => id

theorem Prompt.onKinds (h : Prompt n stop starts p) : PromptOn S n stop starts p :=
  h.on.mono (fun _ _ => trivial) (Nat.le_refl n) (fun _ => id) fun _ => id

/-! ## sequences -/

theorem completes_bind (hp : Completes stop' starts' p pre) (hf : ∀ a, Completes stop starts (f a) [])
    (hk : ∀ k, starts k → stop' k) : Completes stop starts' (p >>= f) pre := by
  obtain ⟨more, a, hdone⟩ := hp
  obtain ⟨more', b, hdone'⟩ := hf a
  refine ⟨more ++ more', b, fun d hd hstop => ?_⟩
  obtain ⟨hread', hfirst'⟩ := hdone' d hd hstop
  obtain ⟨hread, hfirst⟩ := hdone (behind more' d) hd (hk _ (hfirst' rfl))
  rw [← append_assoc, ← behind_behind, bind_done hread]
  refine ⟨hread', fun hpre => ?_⟩
  rw [← behind_behind]
  exact hfirst hpre

theorem Rejects.bind (h : Rejects p pre t) (f : α → Parser β) : Rejects (p >>= f) pre t := by
  obtain ⟨fault, hplace, hfail⟩ := h
  refine ⟨fault, hplace, fun d hd hcurrent => ?_⟩
  obtain ⟨rest, hrest⟩ := hfail d hd hcurrent
  exact ⟨rest, bind_failed hrest⟩

/-- the first part has to stop where the second one starts, or where it is completed from nothing -/
theorem PromptAt.bind (hp : PromptAt stop' starts' p c) (hcomplete : ∀ a, Completes stop starts (f a) [])
    (hf : ∀ a pre c', c = behind pre c' → p c = .done a c' → PromptAt stop starts (f a) c')
    (hc : c.Ended) (hk : ∀ k, starts k → stop' k) : PromptAt stop starts' (p >>= f) c := by
  rcases hp with ⟨pre, c', a, rfl, hempty, hdone⟩ | ⟨pre, c', rfl, hreject, hmore⟩
  · -- where the second part starts, the kind is that of `c'` unless it passes nothing
    have hkind : ∀ (mid : List Token) (c'' d : Cursor), c' = behind mid c'' →
        (mid = [] → d.kind = c''.kind ∨ stop' d.kind) →
        (behind mid d).kind = c'.kind ∨ stop' (behind mid d).kind := by
      rintro mid c'' d rfl hd
      by_cases hmid : mid = []
      · subst hmid
        exact hd rfl
      · exact .inl (Cursor.kind_behind hmid d c'')
    have hread := hdone c' hc (.inl rfl)
    rcases hf a pre c' rfl hread with ⟨mid, c'', b, hc'', hempty', hdone'⟩ |
        ⟨mid, c'', hc'', ⟨fault, hplace, hfail⟩, ⟨more, b, hmore⟩⟩
    · refine .inl ⟨pre ++ mid, c'', b, by rw [hc'', behind_behind], ?_, fun d hd hd' => ?_⟩
      · intro hnil k hstop
        obtain ⟨hpre, hmid⟩ := append_eq_nil_iff.mp hnil
        exact hempty hpre k (hk k (hempty' hmid k hstop))
      · have hfirst := hkind mid c'' d hc'' fun hmid => hd'.imp_right fun hstop =>
          hk _ (hempty' hmid _ hstop)
        rw [← behind_behind, bind_done (hdone (behind mid d) hd hfirst)]
        exact hdone' d hd hd'
    · refine .inr ⟨pre ++ mid, c'', by rw [hc'', behind_behind], ⟨fault, hplace, ?_⟩, ?_⟩
      · intro d hd hcurrent
        have hfirst := hkind mid c'' d hc'' fun _ => .inl (congrArg Token.kind hcurrent)
        rw [← behind_behind, bind_done (hdone (behind mid d) hd hfirst)]
        exact hfail d hd hcurrent
      · refine ⟨more, b, fun d hd hstop => ?_⟩
        obtain ⟨hread', hstart⟩ := hmore d hd hstop
        have hfirst := hkind mid c'' (behind more d) hc'' fun hmid => .inr (hk _ (hstart hmid))
        have hdone'' := hdone (behind mid (behind more d)) hd hfirst
        rw [behind_behind mid more] at hdone''
        rw [append_assoc, ← behind_behind, bind_done hdone'']
        refine ⟨hread', fun hnil => ?_⟩
        obtain ⟨hpre, hmid⟩ := append_eq_nil_iff.mp hnil
        exact hempty hpre _ (hk _ (hstart hmid))
  · exact .inr ⟨pre, c', rfl, hreject.bind f, completes_bind hmore hcomplete hk⟩

theorem PromptOn.bind (hp : PromptOn S n stop' starts' p) (hf : ∀ a, Prompt n stop starts (f a))
    (hk : ∀ k, starts k → stop' k) : PromptOn S n stop starts' (p >>= f) := by
  intro c hc hfree hlen hS
  refine (hp c hc hfree hlen hS).bind (fun a => (hf a).completes) ?_ hc hk
  rintro a pre c' rfl -
  rw [Cursor.length_behind] at hlen
  exact (hf a).on c' hc hfree.of_behind (by omega) trivial

theorem Prompt.bind (hp : Prompt n stop' starts' p) (hf : ∀ a, Prompt n stop starts (f a))
    (hk : ∀ k, starts k → stop' k) : Prompt n stop starts' (p >>= f) :=
  ⟨completes_bind hp.completes (fun a => (hf a).completes) hk, hp.on.bind hf hk⟩

theorem prompt_pure (n : Nat) (stop : TokenKind → Prop) (a : α) : Prompt n stop stop (pure a) :=
  ⟨⟨[], a, fun _ _ hk => ⟨rfl, fun _ => hk⟩⟩,
    fun c _ _ _ _ => .inl ⟨[], c, a, rfl, fun _ _ => id, fun _ _ _ => rfl⟩⟩

theorem Prompt.last (hp : Prompt n stop starts p) (f : α → β) :
    Prompt n stop starts (p >>= fun a => pure (f a)) :=
  hp.bind (fun a => prompt_pure n stop (f a)) fun _ => id

/-! ## first tokens -/

/-- what is left of `p` to read after `t` -/
def after (t : Token) (p : Parser α) : Parser α := fun d => p (behind [t] d)

theorem after_token (t : Token) (f : Token → Parser β) : after t (token >>= f) = f t := rfl

theorem after_here (t : Token) (f : Position → Parser β) :
    after t (here >>= f) = after t (f t.span.position) := rfl

theorem after_peek (t : Token) (f : TokenKind → Parser β) :
    after t (peek >>= f) = after t (f t.kind) := rfl

theorem after_bind {a : α} (h : ∀ d, p (behind [t] d) = .done a d) (f : α → Parser β) :
    after t (p >>= f) = f a := funext fun d => bind_done (h d)

theorem after_expect (h : t.kind = kind) (f : Token → Parser β) : after t (expect kind >>= f) = f t :=
  after_bind (fun _ => if_pos h) f

theorem after_accept (h : t.kind = kind) (f : Bool → Parser β) : after t (accept kind >>= f) = f true :=
  after_bind (fun _ => if_pos h) f

theorem PromptAt.of_after (h : PromptAt stop starts (after t p) c) :
    PromptAt stop starts' p (behind [t] c) := by
  rcases h with ⟨pre, c', a, rfl, _, hdone⟩ | ⟨pre, c', rfl, ⟨fault, hplace, hfail⟩, more, a, hmore⟩
  · exact .inl ⟨t :: pre, c', a, rfl, fun hnil => absurd hnil (cons_ne_nil t pre), hdone⟩
  · refine .inr ⟨t :: pre, c', rfl, ⟨fault, hplace, hfail⟩, more, a, fun d hd hk => ?_⟩
    exact ⟨(hmore d hd hk).1, fun hnil => absurd hnil (cons_ne_nil t pre)⟩

/-- prompt after `t`; where nothing is passed then, `t` was -/
def PromptAfter (n : Nat) (stop : TokenKind → Prop) (p : Parser α) (t : Token) : Prop :=
  ∃ starts, PromptOn anyKind n stop starts (after t p)

theorem Prompt.after (h : Prompt n stop starts q) (hq : Parser.after t p = q) : PromptAfter n stop p t :=
  ⟨starts, hq ▸ h.on⟩

theorem PromptAfter.narrow (h : PromptAfter n stop p t) (hstop : ∀ k, stop' k → stop k) :
    PromptAfter n stop' p t := by
  obtain ⟨starts, hon⟩ := h
  exact ⟨starts, hon.mono (fun _ => id) (Nat.le_refl n) hstop fun _ => id⟩

theorem promptOn_of_after (hS : ∀ k, S k → k ≠ .eof)
    (h : ∀ t : Token, S t.kind → t.kind ≠ .keyword .kwAwait → PromptAfter n stop p t) :
    PromptOn S (n + 1) stop starts p := by
  intro c hc hfree hlen hk
  obtain ⟨ahead, last⟩ := c
  cases ahead with
  | nil => exact absurd hc (hS _ hk)
  | cons t ts =>
    obtain ⟨starts', hrest⟩ := h t hk (hfree t mem_cons_self)
    have hfree' : Cursor.AwaitFree ⟨ts, last⟩ := fun u hu => hfree u (mem_cons_of_mem t hu)
    exact (hrest ⟨ts, last⟩ hc hfree' (Nat.lt_of_succ_lt_succ hlen) trivial).of_after

theorem promptAt_of_rejects (h : Rejects p [] c.current) (hcomplete : Completes stop starts p []) :
    PromptAt stop starts p c := .inr ⟨[], c, rfl, h, hcomplete⟩

/-- at `t` there is a fault, or `t` is passed -/
def FirstAt (n : Nat) (stop : TokenKind → Prop) (p : Parser α) (t : Token) : Prop :=
  Rejects p [] t ∨ t.kind ≠ .eof ∧ PromptAfter n stop p t

theorem prompt_of_first (hcomplete : Completes stop starts p [])
    (h : ∀ t : Token, t.kind ≠ .keyword .kwAwait → FirstAt n stop p t) : Prompt (n + 1) stop starts p := by
  refine ⟨hcomplete, fun c hc hfree hlen _ => ?_⟩
  by_cases hreject : Rejects p [] c.current
  · exact promptAt_of_rejects hreject hcomplete
  · have hawait : c.kind ≠ .keyword .kwAwait := by
      obtain ⟨ahead, last⟩ := c
      cases ahead with
      | nil =>
        intro h
        exact nomatch h.symm.trans hc
      | cons t ts => exact hfree t mem_cons_self
    obtain ⟨hkind, starts', hpass⟩ := (h c.current hawait).resolve_left hreject
    have hsplit := Cursor.exists_ahead hc hkind
    rw [hsplit] at hfree hlen ⊢
    rw [Cursor.length_behind, length_singleton] at hlen
    exact (hpass c.next hc hfree.of_behind (by omega) trivial).of_after

theorem rejects_here (cause : Token → Cause)
    (h : ∀ d : Cursor, d.current = t → p d = .failed (.atPosition (cause d.current) d.position) d) :
    Rejects p [] t := by
  refine ⟨.atPosition (cause t) t.span.position, rfl, fun d _ hd => ⟨d, ?_⟩⟩
  subst hd
  exact h d rfl

theorem rejects_unexpectedFor (message : String)
    (h : ∀ d : Cursor, d.current = t → p d = unexpectedFor message d) : Rejects p [] t :=
  rejects_here (fun t => .unexpectedTokenDetailed t.value message) h

theorem rejects_of_after (ht : t.kind ≠ .eof) (h : after t p = failAt cause t.span.position) :
    Rejects p [] t := by
  refine ⟨.atPosition cause t.span.position, rfl, fun d hd hcurrent => ⟨d.next, ?_⟩⟩
  have hsplit := Cursor.exists_ahead hd (by subst hcurrent; exact ht)
  rw [hcurrent] at hsplit
  rw [Cursor.behind_nil, hsplit]
  exact congrFun h d.next

theorem Rejects.congr (h : Rejects q [] t) (heq : ∀ d : Cursor, d.current = t → p d = q d) :
    Rejects p [] t := by
  obtain ⟨fault, hplace, hfail⟩ := h
  refine ⟨fault, hplace, fun d hd hcurrent => ?_⟩
  rw [Cursor.behind_nil, heq d hcurrent]
  exact hfail d hd hcurrent

theorem completes_of_after (h : Completes stop starts (after t p) []) : Completes stop (· = t.kind) p [] := by
  obtain ⟨more, a, hmore⟩ := h
  exact ⟨t :: more, a, fun d hd hk => ⟨(hmore d hd hk).1, fun _ => rfl⟩⟩

theorem Reads.completes {a : α} (h : Reads p [nameLexeme x] a stop) : Completes stop (· = .identifier) p [] :=
  ⟨[⟨.identifier, x, default⟩], a, fun d _ hk => ⟨h [_] d.ahead d.last rfl hk, fun _ => rfl⟩⟩

def someToken (kind : TokenKind) : Token := ⟨kind, "x", default⟩

/-- a kind of tokens that stand in front of the end marker -/
class Inner (kind : TokenKind) : Prop where
  ne_eof : kind ≠ .eof

instance (m : Mark) : Inner (.mark m) := ⟨by intro h; cases h⟩
instance (w : Keyword) : Inner (.keyword w) := ⟨by intro h; cases h⟩
instance : Inner .identifier := ⟨by decide⟩

/-- a parser that needs a token of one kind, and goes on with `f` -/
theorem prompt_of_kind [Inner kind] {f : Token → Parser α}
    (hafter : ∀ t : Token, t.kind = kind → after t p = f t)
    (hreject : ∀ t : Token, t.kind ≠ kind → Rejects p [] t) (h : ∀ t, Prompt n stop starts (f t)) :
    Prompt (n + 1) stop (· = kind) p := by
  have hsome := hafter (someToken kind) rfl
  have hcomplete : Completes stop (· = kind) p [] :=
    completes_of_after (t := someToken kind) (hsome ▸ (h _).completes)
  refine prompt_of_first hcomplete fun t _ => ?_
  by_cases hk : t.kind = kind
  · exact .inr ⟨hk ▸ Inner.ne_eof, (h t).after (hafter t hk)⟩
  · exact .inl (hreject t hk)

/-- `q` passes a token of one kind, and fails at every other -/
structure Needs (kind : TokenKind) (q : Parser Token) : Prop where
  pass : ∀ t d, t.kind = kind → q (behind [t] d) = .done t d
  refuse : ∀ t : Token, t.kind ≠ kind → Rejects q [] t

theorem needs_expect : Needs kind (expect kind) where
  pass _ _ h := if_pos h
  refuse _ h := rejects_here (fun t => .unexpectedToken t.value) fun _ hd => if_neg fun hk => h (hd ▸ hk)

theorem needs_expectOr : Needs kind (expectOr kind message) where
  pass _ _ h := if_pos h
  refuse _ h := rejects_unexpectedFor message fun _ hd => if_neg fun hk => h (hd ▸ hk)

section
variable {q : Parser Token} {f : Token → Parser β} {g : α → Token → Parser β} [Inner kind]

theorem Needs.prompt (hq : Needs kind q) (h : ∀ t, Prompt n stop starts (f t)) :
    Prompt (n + 1) stop (· = kind) (q >>= f) :=
  prompt_of_kind (fun t ht => after_bind (hq.pass t · ht) f) (fun t ht => (hq.refuse t ht).bind f) h

theorem prompt_expect (h : ∀ t, Prompt n stop starts (f t)) :
    Prompt (n + 1) stop (· = kind) (expect kind >>= f) := needs_expect.prompt h

theorem prompt_expectOr {message : String} (h : ∀ t, Prompt n stop starts (f t)) :
    Prompt (n + 1) stop (· = kind) (expectOr kind message >>= f) := needs_expectOr.prompt h

/-- a phrase, a token that it stops at, and what is read behind that -/
theorem Prompt.needs (hp : Prompt n stop' starts' p) (hq : Needs kind q) (hstop : stop' kind)
    (hg : ∀ a t, Prompt n stop starts (g a t)) : Prompt n stop starts' (p >>= fun a => q >>= g a) := by
  refine hp.bind (fun a => (hq.prompt (hg a)).shorten) ?_
  rintro _ rfl
  exact hstop

theorem Prompt.before (hp : Prompt n stop' starts' p) (hstop : stop' kind)
    (hg : ∀ a t, Prompt n stop starts (g a t)) :
    Prompt n stop starts' (p >>= fun a => expect kind >>= g a) := hp.needs needs_expect hstop hg

theorem Prompt.beforeOr (hp : Prompt n stop' starts' p) {message : String} (hstop : stop' kind)
    (hg : ∀ a t, Prompt n stop starts (g a t)) :
    Prompt n stop starts' (p >>= fun a => expectOr kind message >>= g a) :=
  hp.needs needs_expectOr hstop hg

theorem prompt_close (a : β) : Prompt n stop (· = kind) (expect kind >>= fun _ => pure a) :=
  (prompt_expect fun _ => prompt_pure n stop a).shorten

theorem Prompt.close (hp : Prompt n stop' starts' p) (f : α → β) (hstop : stop' kind) :
    Prompt n stop starts' (p >>= fun a => expect kind >>= fun _ => pure (f a)) :=
  hp.before hstop fun a _ => prompt_pure n stop (f a)

end

/-! ## choices -/

/-- two parsers that agree on the kinds in `T`, among them those that are there and those at which
nothing is completed -/
theorem PromptAt.congr (h : PromptAt stop starts q c) (heq : ∀ d : Cursor, d.Ended → T d.kind → p d = q d)
    (hc : c.Ended) (hT : T c.kind) (hstarts : ∀ k, starts k → T k) : PromptAt stop starts p c := by
  have hfirst : ∀ (pre : List Token) (c' d : Cursor), c = behind pre c' →
      (pre = [] → T d.kind) → T (behind pre d).kind := by
    rintro pre c' d rfl hd
    by_cases hpre : pre = []
    · subst hpre
      exact hd rfl
    · rw [Cursor.kind_behind hpre d c']
      exact hT
  rcases h with ⟨pre, c', a, hpre, hempty, hdone⟩ |
      ⟨pre, c', hpre, ⟨fault, hplace, hfail⟩, more, a, hmore⟩
  · refine .inl ⟨pre, c', a, hpre, hempty, fun d hd hk => ?_⟩
    rw [heq (behind pre d) hd (hfirst pre c' d hpre fun hnil => ?_)]
    · exact hdone d hd hk
    · rcases hk with hk | hk
      · subst hnil
        rw [hk, ← Cursor.behind_nil c', ← hpre]
        exact hT
      · exact hstarts _ (hempty hnil _ hk)
  · refine .inr ⟨pre, c', hpre, ⟨fault, hplace, fun d hd hcurrent => ?_⟩, more, a, fun d hd hk => ?_⟩
    · rw [heq (behind pre d) hd (hfirst pre c' d hpre fun hnil => ?_)]
      · exact hfail d hd hcurrent
      · subst hnil
        have hkind : d.kind = c'.kind := congrArg Token.kind hcurrent
        rw [hkind, ← Cursor.behind_nil c', ← hpre]
        exact hT
    · obtain ⟨hread, hstart⟩ := hmore d hd hk
      refine ⟨?_, hstart⟩
      rw [← behind_behind] at hread ⊢
      rw [heq (behind pre (behind more d)) hd
        (hfirst pre c' _ hpre fun hnil => hstarts _ (hstart hnil))]
      exact hread

theorem Completes.congr (h : Completes stop starts q []) (heq : ∀ d : Cursor, d.Ended → T d.kind → p d = q d)
    (hstarts : ∀ k, starts k → T k) : Completes stop starts p [] := by
  obtain ⟨more, a, hmore⟩ := h
  refine ⟨more, a, fun d hd hk => ?_⟩
  obtain ⟨hread, hstart⟩ := hmore d hd hk
  refine ⟨?_, hstart⟩
  rw [nil_append] at hread ⊢
  rw [heq (behind more d) hd (hstarts _ (hstart rfl))]
  exact hread

theorem refuse {d : Cursor} (h : d.kind ≠ kind) (f : Bool → Parser β) :
    (accept kind >>= f) d = f false d := by
  have hdone : accept kind d = .done false d := if_neg h
  exact bind_done hdone

section
variable {f : Bool → Parser β} [Inner kind]

/-- a token that may be missing: without it, what is read does not start with it, and after it one
token fewer is ahead -/
theorem prompt_accept_of_le (hm : n ≤ m + 1) (htrue : Prompt m stop starts' (f true))
    (hfalse : Prompt n stop starts (f false)) (hk : ∀ k, starts k → k ≠ kind) :
    Prompt n stop starts (accept kind >>= f) := by
  have hrefuse : ∀ d : Cursor, d.Ended → d.kind ≠ kind → (accept kind >>= f) d = f false d :=
    fun d _ hd => refuse hd f
  refine ⟨hfalse.completes.congr hrefuse hk, fun c hc hfree hlen _ => ?_⟩
  by_cases hkc : c.kind = kind
  · have hafter : PromptOn (· = kind) (m + 1) stop starts (accept kind >>= f) :=
      promptOn_of_after (by rintro _ rfl; exact Inner.ne_eof) fun t ht _ => htrue.after (after_accept ht f)
    exact hafter c hc hfree (by omega) hkc
  · exact (hfalse.on c hc hfree hlen trivial).congr hrefuse hc hkc hk

theorem prompt_accept (htrue : Prompt n stop starts' (f true)) (hfalse : Prompt n stop starts (f false))
    (hk : ∀ k, starts k → k ≠ kind) : Prompt n stop starts (accept kind >>= f) :=
  prompt_accept_of_le (Nat.le_succ n) htrue hfalse hk

theorem accept_first (htrue : Prompt n stop starts (f true)) (hfalse : FirstAt n stop (f false) t) :
    FirstAt n stop (accept kind >>= f) t := by
  by_cases hk : t.kind = kind
  · exact .inr ⟨hk ▸ Inner.ne_eof, htrue.after (after_accept hk f)⟩
  · have hafter : after t (accept kind >>= f) = after t (f false) :=
      funext fun d => refuse (d := behind [t] d) hk f
    rcases hfalse with hreject | ⟨hne, starts', hon⟩
    · exact .inl (hreject.congr fun d hd => refuse (by subst hd; exact hk) f)
    · exact .inr ⟨hne, starts', hafter ▸ hon⟩

end

theorem prompt_peek {f : TokenKind → Parser α} (kind : TokenKind) (hthere : Prompt n stop starts' (f kind))
    (hother : Prompt n stop starts q) (hq : ∀ k, k ≠ kind → f k = q)
    (hk : ∀ k, starts k → k ≠ kind) (hk' : ∀ k, starts' k → k = kind) :
    Prompt n stop (fun k => k = kind ∨ starts k) (peek >>= f) := by
  have heq : ∀ d : Cursor, d.Ended → d.kind ≠ kind → (peek >>= f) d = q d := by
    intro d _ hd
    show f d.kind d = q d
    rw [hq _ hd]
  have heq' : ∀ d : Cursor, d.Ended → d.kind = kind → (peek >>= f) d = f kind d := by
    intro d _ hd
    show f d.kind d = f kind d
    rw [hd]
  refine ⟨(hother.completes.congr heq hk).mono (fun _ => id) fun _ => .inr, ?_⟩
  intro c hc hfree hlen _
  by_cases hkc : c.kind = kind
  · exact ((hthere.on c hc hfree hlen trivial).congr heq' hc hkc hk').mono (fun _ => id)
      fun k h => .inl (hk' k h)
  · exact ((hother.on c hc hfree hlen trivial).congr heq hc hkc hk).mono (fun _ => id) fun _ => .inr

/-- a parser that is another one at the kinds in `T`, and fails at every other -/
theorem Prompt.of_kinds (h : Prompt n stop starts q) (hstarts : ∀ k, starts k → T k)
    (heq : ∀ d : Cursor, d.Ended → T d.kind → p d = q d)
    (hreject : ∀ t : Token, ¬ T t.kind → Rejects p [] t) : Prompt n stop starts p := by
  have hcomplete := h.completes.congr heq hstarts
  refine ⟨hcomplete, fun c hc hfree hlen _ => ?_⟩
  by_cases hk : T c.kind
  · exact (h.on c hc hfree hlen trivial).congr heq hc hk hstarts
  · exact promptAt_of_rejects (hreject c.current hk) hcomplete

theorem Prompt.congr (h : Prompt n stop starts q) (heq : ∀ d : Cursor, d.Ended → p d = q d) :
    Prompt n stop starts p :=
  h.of_kinds (T := anyKind) (fun _ _ => trivial) (fun d hd _ => heq d hd) fun _ hk => absurd trivial hk

/-! ## repetition -/

/-- a phrase that passes a token fails at its first token, or is never completed from nothing -/
theorem PromptAt.advance (h : PromptAt stop starts p c) (hc : c.Ended)
    (hp : ∀ a c', p c = .done a c' → c'.ahead.length < c.ahead.length) :
    Rejects p [] c.current ∨ PromptAt stop noKind p c := by
  rcases h with ⟨pre, c', a, rfl, _, hdone⟩ | ⟨pre, c', rfl, hreject, more, a, hmore⟩
  · refine .inr (.inl ⟨pre, c', a, rfl, fun hpre => ?_, hdone⟩)
    have hlen := hp a c' (hdone c' hc (.inl rfl))
    subst hpre
    exact absurd hlen (Nat.lt_irrefl _)
  · by_cases hpre : pre = []
    · subst hpre
      exact .inl hreject
    · exact .inr (.inr ⟨pre, c', rfl, hreject, more, a, fun d hd hk =>
        ⟨(hmore d hd hk).1, fun hnil => absurd hnil hpre⟩⟩)

section
variable {allows : TokenKind → Bool} (hstop : ∀ k, stop k → allows k = false ∧ stop' k)
include hstop

/-- a repetition can end wherever a phrase of it can start, so it is completed by nothing there.
`r i` is the repetition, `body i` the phrase that is repeated, `next i a` what goes on after it, `last i`
what is read if it is not there -/
theorem prompt_loop {ι : Type} {r : ι → Parser β} {body : ι → Parser α} {last : ι → β}
    {next : ι → α → Parser β}
    (hloop : ∀ i (d : Cursor), d.Ended →
      r i d = if allows d.kind = true then (body i >>= next i) d else .done (last i) d)
    (hnext : ∀ m, (∀ i, Prompt m stop stop (r i)) → ∀ i a, Prompt m stop stop (next i a))
    (hbody : ∀ i, PromptOn (fun k => allows k = true) n stop' starts' (body i))
    (hpass : ∀ i, Passes (fun k => allows k = true) (body i)) (i : ι) : Prompt n stop stop (r i) := by
  have hnone : ∀ i (d : Cursor), d.Ended → allows d.kind = false → r i d = .done (last i) d := by
    intro i d hd hk
    rw [hloop i d hd, if_neg (by rw [hk]; exact Bool.false_ne_true)]
  have hsome : ∀ i (d : Cursor), d.Ended → allows d.kind = true → r i d = (body i >>= next i) d :=
    fun i d hd hk => (hloop i d hd).trans (if_pos hk)
  have hcomplete : ∀ i, Completes stop stop (r i) [] := fun i =>
    ⟨[], last i, fun d hd hk => ⟨hnone i d hd (hstop _ hk).1, fun _ => hk⟩⟩
  refine ⟨hcomplete i, ?_⟩
  -- by the number of tokens ahead, which the phrase makes smaller
  suffices h : ∀ m, m ≤ n → ∀ i, PromptOn anyKind m stop stop (r i) from h n (Nat.le_refl n) i
  intro m
  induction m with
  | zero => exact fun _ _ c _ _ hlen => absurd hlen (Nat.not_lt_zero _)
  | succ m ih =>
    intro hm i c hc hfree hlen _
    cases hallow : allows c.kind with
    | false =>
      refine .inl ⟨[], c, last i, rfl, fun _ _ => id, fun d hd hk => hnone i d hd ?_⟩
      rcases hk with hk | hk
      · rw [hk]
        exact hallow
      · exact (hstop _ hk).1
    | true =>
      have hshort : ∀ a c', body i c = .done a c' → c'.ahead.length < c.ahead.length := by
        intro a c' hdone
        have := (hpass i c c' a hc hallow hdone).length_le
        omega
      rcases (hbody i c hc hfree (by omega) hallow).advance hc hshort with hreject | hprompt
      · obtain ⟨fault, hplace, hfail⟩ := hreject
        refine promptAt_of_rejects ⟨fault, hplace, fun d hd hcurrent => ?_⟩ (hcomplete i)
        obtain ⟨rest, hrest⟩ := hfail d hd hcurrent
        refine ⟨rest, ?_⟩
        have hkind : d.kind = c.kind := congrArg Token.kind hcurrent
        rw [Cursor.behind_nil] at hrest ⊢
        rw [hsome i d hd (hkind ▸ hallow), bind_failed hrest]
      · have hrest := hnext m fun j => ⟨hcomplete j, ih (by omega) j⟩
        have hboth : PromptAt stop noKind (body i >>= next i) c := by
          refine hprompt.bind (fun a => (hrest i a).completes) ?_ hc fun k hk => (hstop k hk).2
          rintro a pre c' rfl hdone
          have := hshort a c' hdone
          exact (hrest i a).on c' hc hfree.of_behind (by omega) trivial
        have hloop : PromptAt stop noKind (r i) c :=
          hboth.congr (T := fun k => allows k = true) (hsome i) hc hallow fun _ hk => hk.elim
        exact hloop.mono (fun _ => id) fun _ hk => hk.elim

theorem prompt_many {item : Parser α} (hitem : PromptOn (fun k => allows k = true) n stop' starts' item)
    (hpass : Passes (fun k => allows k = true) item) : Prompt n stop stop (many allows item) :=
  prompt_loop hstop (r := fun _ : Unit => many allows item) (fun _ _ hd => many_eq hpass hd)
    (fun _ hmany _ a => (hmany ()).last (a :: ·)) (fun _ => hitem) (fun _ => hpass) ()

theorem prompt_fold {step : α → Parser α}
    (hstep : ∀ a, PromptOn (fun k => allows k = true) n stop' starts' (step a))
    (hpass : ∀ a, Passes (fun k => allows k = true) (step a)) (a : α) :
    Prompt n stop stop (fold allows step a) :=
  prompt_loop hstop (fun a _ hd => fold_eq hpass a hd) (fun _ hfold _ b => hfold b) hstep hpass a

end

/-! ## lists -/

theorem prompt_commaSeparated (h : Prompt n stop' starts p) (hpass : Passes anyKind p)
    (hstop : ∀ k, stop k → k ≠ .mark .comma ∧ stop' k) :
    Prompt n stop starts (commaSeparated p) := by
  have hitem : PromptOn (fun k => (k == .mark .comma) = true) (n + 1) stop' noKind (token >>= fun _ => p) :=
    promptOn_of_after comma_ne_eof fun t _ _ => h.after (after_token t _)
  have hmany := prompt_many (fun k hk => ⟨beq_false_of_ne (hstop k hk).1, (hstop k hk).2⟩) hitem
    (passes_commaItem hpass)
  exact h.bind (fun a => (hmany.last (a :: ·)).shorten) fun k hk => (hstop k hk).2

/-- after an item without a comma, only the closing token can follow -/
theorem prompt_closing (n : Nat) (closing : TokenKind) (message : String) (a : α) :
    Prompt n (· = closing) (· = closing) (do
      if (← peek) = closing then return a
      unexpectedFor message : Parser α) := by
  refine (prompt_pure n _ a).of_kinds (T := (· = closing)) (fun _ => id) (fun d _ hk => ?_) fun t hk => ?_
  · show (if d.kind = closing then pure a else unexpectedFor message : Parser α) d = _
    rw [if_pos hk]
  · refine rejects_unexpectedFor message fun d hd => ?_
    subst hd
    show (if d.kind = closing then pure a else unexpectedFor message : Parser α) d = _
    exact congrFun (if_neg hk) d

theorem prompt_commaTerminated (h : Prompt n stop starts p) (hpass : Passes anyKind p) {closing : TokenKind}
    {message : String} (hclosing : closing ≠ .mark .comma ∧ stop closing) :
    Prompt n (· = closing) (· = closing) (commaTerminated p closing message) := by
  have hend : ∀ a : α, Prompt n (· = closing) (· = closing) (do
      if ← accept (.mark .comma) then return a
      if (← peek) = closing then return a
      unexpectedFor message : Parser α) := fun a =>
    prompt_accept (prompt_pure n _ a) (prompt_closing n closing message a) (by rintro k rfl; exact hclosing.1)
  have hitem := h.bind hend (by rintro k rfl; exact hclosing.2)
  refine prompt_many (fun k hk => ⟨?_, hk⟩) hitem.onKinds (passes_closedItem hpass closing message).on
  rw [hk]
  exact bne_self_eq_false closing

end Parser

end TypedScript
