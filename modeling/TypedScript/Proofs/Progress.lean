import TypedScript.Proofs.ReadingStatements

/-!
# Reading goes forward

A reader replies at a cursor further on, and it passes no end marker.  A repetition is bounded by the
tokens that are left; whatever is repeated passes a token, so this bound is never what ends it.
-/

namespace TypedScript

open TypedScript.Parser List

/-! ## places in front of a cursor -/

namespace Cursor

/-- the tokens `pre`, and then what is ahead of `c` -/
def behind (pre : List Token) (c : Cursor) : Cursor := ⟨pre ++ c.ahead, c.last⟩

/-- the token that is never passed is an end marker -/
def Ended (c : Cursor) : Prop := c.last.kind = .eof

/-- `c'` lies at least `k` tokens further than `c`, with no end marker between -/
def Reaches (k : Nat) (c c' : Cursor) : Prop :=
  ∃ pre, c = behind pre c' ∧ k ≤ pre.length ∧ ∀ t ∈ pre, t.kind ≠ .eof

variable {j k : Nat} {c c' c'' : Cursor}

@[simp] theorem behind_nil (c : Cursor) : behind [] c = c := rfl

theorem behind_behind (pre mid : List Token) (c : Cursor) :
    behind pre (behind mid c) = behind (pre ++ mid) c := by
  unfold behind
  rw [append_assoc]

theorem length_behind (pre : List Token) (c : Cursor) :
    (behind pre c).ahead.length = pre.length + c.ahead.length := length_append

theorem Reaches.refl (c : Cursor) : Reaches 0 c c :=
  ⟨[], rfl, Nat.le_refl 0, nofun⟩

theorem Reaches.trans (h : Reaches j c c') (h' : Reaches k c' c'') : Reaches (j + k) c c'' := by
  obtain ⟨pre, rfl, hj, hpre⟩ := h
  obtain ⟨mid, rfl, hk, hmid⟩ := h'
  refine ⟨pre ++ mid, behind_behind pre mid c'', ?_, forall_mem_append.mpr ⟨hpre, hmid⟩⟩
  rw [length_append]
  omega

theorem Reaches.mono (h : Reaches j c c') (hk : k ≤ j) : Reaches k c c' := by
  obtain ⟨pre, hc, hj, hpre⟩ := h
  exact ⟨pre, hc, Nat.le_trans hk hj, hpre⟩

theorem Reaches.ended (h : Reaches k c c') (hc : c.Ended) : c'.Ended := by
  obtain ⟨pre, rfl, _⟩ := h
  exact hc

theorem Reaches.length_le (h : Reaches k c c') : k + c'.ahead.length ≤ c.ahead.length := by
  obtain ⟨pre, rfl, hk, _⟩ := h
  rw [length_behind]
  omega

theorem exists_ahead (hc : c.Ended) (hk : c.kind ≠ .eof) : c = behind [c.current] c.next := by
  obtain ⟨ahead, last⟩ := c
  cases ahead with
  | nil => exact absurd hc hk
  | cons t ts => rfl

theorem reaches_next (hc : c.Ended) (hk : c.kind ≠ .eof) : Reaches 1 c c.next :=
  ⟨[c.current], exists_ahead hc hk, Nat.le_refl 1, fun _ ht => mem_singleton.mp ht ▸ hk⟩

end Cursor

namespace Parser

variable {α β : Type}
variable {p : Parser α} {c : Cursor}

/-- from a token of a kind in `S` on, a value of `p` lies further ahead -/
def Passes (S : TokenKind → Prop) (p : Parser α) : Prop :=
  ∀ (c c' : Cursor) (a : α), c.Ended → S c.kind → p c = .done a c' → c.Reaches 1 c'

theorem Passes.on (h : Passes anyKind p) : Passes S p :=
  fun c c' a hc _ => h c c' a hc trivial

theorem bind_right_congr {f g : α → Parser β}
    (h : ∀ a c', p c = .done a c' → f a c' = g a c') : (p >>= f) c = (p >>= g) c := by
  cases hp : p c with
  | done a c' => rw [bind_done hp, bind_done hp, h a c' hp]
  | failed d c' => rw [bind_failed hp, bind_failed hp]
  | exhausted c' => rw [bind_exhausted hp, bind_exhausted hp]

theorem bind_left_congr {q : Parser α} (h : p c = q c) (f : α → Parser β) : (p >>= f) c = (q >>= f) c := by
  cases hq : q c with
  | done a c' => rw [bind_done (h.trans hq), bind_done hq]
  | failed d c' => rw [bind_failed (h.trans hq), bind_failed hq]
  | exhausted c' => rw [bind_exhausted (h.trans hq), bind_exhausted hq]

theorem bind_eq_done {f : α → Parser β} (h : (p >>= f) c = .done b c') :
    ∃ a c₁, p c = .done a c₁ ∧ f a c₁ = .done b c' := by
  cases hp : p c with
  | done a c₁ => exact ⟨a, c₁, rfl, (bind_done hp).symm.trans h⟩
  | failed d c₁ =>
    rw [bind_failed hp] at h
    cases h
  | exhausted c₁ =>
    rw [bind_exhausted hp] at h
    cases h

/-! ## repetition -/

section
variable {allows : TokenKind → Bool} {i j : Nat} {c : Cursor}

variable {item : Parser α} {step : α → Parser α}

/-- both bounds are above the number of tokens ahead, and go down more slowly than it does -/
theorem manyAt_eq (h : Passes (fun κ => allows κ = true) item) (hc : c.Ended) (hi : c.ahead.length < i)
    (hj : c.ahead.length < j) : manyAt allows item i c = manyAt allows item j c := by
  induction i generalizing j c with
  | zero => exact absurd hi (Nat.not_lt_zero _)
  | succ i ih =>
    obtain ⟨j, rfl⟩ : ∃ j', j = j' + 1 := ⟨j - 1, by omega⟩
    unfold manyAt
    split
    · next hallow =>
      refine bind_right_congr fun a c' hdone => bind_left_congr ?_ _
      have hreach := h c c' a hc hallow hdone
      have := hreach.length_le
      exact ih (hreach.ended hc) (by omega) (by omega)
    · rfl

theorem many_eq (h : Passes (fun κ => allows κ = true) item) (hc : c.Ended) :
    many allows item c
      = if allows c.kind then
          (do let a ← item; let as ← many allows item; return a :: as : Parser (List α)) c
        else .done [] c := by
  show manyAt allows item (c.ahead.length + 1) c = _
  unfold manyAt
  split
  · next hallow =>
    refine bind_right_congr fun a c' hdone => bind_left_congr ?_ _
    have hreach := h c c' a hc hallow hdone
    have := hreach.length_le
    exact manyAt_eq h (hreach.ended hc) (by omega) (Nat.lt_succ_self _)
  · rfl

theorem foldAt_eq (h : ∀ a, Passes (fun κ => allows κ = true) (step a)) {a : α}
    (hc : c.Ended) (hi : c.ahead.length < i) (hj : c.ahead.length < j) :
    foldAt allows step i a c = foldAt allows step j a c := by
  induction i generalizing j a c with
  | zero => exact absurd hi (Nat.not_lt_zero _)
  | succ i ih =>
    obtain ⟨j, rfl⟩ : ∃ j', j = j' + 1 := ⟨j - 1, by omega⟩
    unfold foldAt
    split
    · next hallow =>
      refine bind_right_congr fun b c' hdone => ?_
      have hreach := h a c c' b hc hallow hdone
      have := hreach.length_le
      exact ih (hreach.ended hc) (by omega) (by omega)
    · rfl

theorem fold_eq (h : ∀ a, Passes (fun κ => allows κ = true) (step a)) (a : α)
    (hc : c.Ended) : fold allows step a c
      = if allows c.kind then (step a >>= fold allows step) c else .done a c := by
  show foldAt allows step (c.ahead.length + 1) a c = _
  unfold foldAt
  split
  · next hallow =>
    refine bind_right_congr fun b c' hdone => ?_
    have hreach := h a c c' b hc hallow hdone
    have := hreach.length_le
    exact foldAt_eq h (hreach.ended hc) (by omega) (Nat.lt_succ_self _)
  · rfl

end

/-! ## lists -/

variable {item : Parser α}

theorem comma_ne_eof (κ : TokenKind) (hκ : (κ == .mark .comma) = true) : κ ≠ .eof := by
  rw [beq_iff_eq.mp hκ]
  exact nofun

theorem passes_commaItem (h : Passes anyKind item) :
    Passes (fun κ => (κ == .mark .comma) = true) (token >>= fun _ => item) := by
  intro c c' a hc hκ hdone
  have hnext := Cursor.reaches_next hc (comma_ne_eof _ hκ)
  exact (hnext.trans (h c.next c' a (hnext.ended hc) trivial hdone)).mono (Nat.le_add_left 1 1)

/-- an item and the comma behind it, which may be missing in front of the closing token -/
theorem passes_closedItem (h : Passes anyKind item) (closing : TokenKind)
    (message : String) : Passes anyKind (do
      let a ← item
      if ← accept (.mark .comma) then return a
      if (← peek) = closing then return a
      unexpectedFor message) := by
  intro c c' a hc hκ hdone
  obtain ⟨b, c₁, hitem, hdone⟩ := bind_eq_done hdone
  have hreach := h c c₁ b hc hκ hitem
  by_cases hcomma : c₁.kind = .mark .comma
  · rw [bind_done (if_pos hcomma)] at hdone
    cases hdone
    have hnext := Cursor.reaches_next (hreach.ended hc) (by rw [hcomma]; exact nofun)
    exact (hreach.trans hnext).mono (Nat.le_add_left 1 1)
  · rw [bind_done (if_neg hcomma)] at hdone
    by_cases hclosing : c₁.kind = closing
    · rw [if_neg Bool.false_ne_true, bind_done (show peek c₁ = .done _ c₁ from rfl), if_pos hclosing]
        at hdone
      cases hdone
      exact hreach
    · rw [if_neg Bool.false_ne_true, bind_done (show peek c₁ = .done _ c₁ from rfl), if_neg hclosing]
        at hdone
      cases hdone

end Parser

end TypedScript
