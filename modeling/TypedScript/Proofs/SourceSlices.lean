import TypedScript.Proofs.Tiling

/-!
# Scanning by byte offsets

The scanner again, over a source and a byte offset: the rest of the source is cut out of it at every
turn, the value of a string is cut out of its lexeme, and offsets are kept in 32 bits.  Each of these
operations can fail; on a source below the bound none does, and the tokens are those of `scan`.
-/

namespace TypedScript

open List

namespace Text

/-! ## cuts -/

/-- the text from byte `n` on, if `n` is a character boundary of it -/
def from? : List Char → Nat → Option (List Char)
  | cs, 0 => some cs
  | [], _ + 1 => none
  | c :: cs, n + 1 => if c.utf8Size ≤ n + 1 then from? cs (n + 1 - c.utf8Size) else none

/-- the first `n` bytes of a text, if `n` is a character boundary of it -/
def upto? : List Char → Nat → Option (List Char)
  | _, 0 => some []
  | [], _ + 1 => none
  | c :: cs, n + 1 => if c.utf8Size ≤ n + 1 then (upto? cs (n + 1 - c.utf8Size)).map (c :: ·) else none

/-- the bytes of a text from `i` up to `j`, if these are boundaries in this order -/
def slice? (text : List Char) (i j : Nat) : Option (List Char) :=
  if i ≤ j then (from? text i).bind (upto? · (j - i)) else none

theorem from?_cons (c : Char) (cs : List Char) (n : Nat) :
    from? (c :: cs) (c.utf8Size + n) = from? cs n := by
  obtain ⟨k, hk⟩ : ∃ k, c.utf8Size = k + 1 := ⟨c.utf8Size - 1, by have := c.utf8Size_pos; omega⟩
  rw [hk, Nat.add_right_comm, from?, if_pos (by omega)]
  congr 1
  omega

theorem upto?_cons (c : Char) (cs : List Char) (n : Nat) :
    upto? (c :: cs) (c.utf8Size + n) = (upto? cs n).map (c :: ·) := by
  obtain ⟨k, hk⟩ : ∃ k, c.utf8Size = k + 1 := ⟨c.utf8Size - 1, by have := c.utf8Size_pos; omega⟩
  rw [hk, Nat.add_right_comm, upto?, if_pos (by omega)]
  congr 2
  omega

theorem from?_append (a b : List Char) : from? (a ++ b) (byteLength a) = some b := by
  induction a with
  | nil => cases b <;> rfl
  | cons c a ih => rw [cons_append, byteLength_cons, from?_cons, ih]

theorem upto?_append (a b : List Char) : upto? (a ++ b) (byteLength a) = some a := by
  induction a with
  | nil => cases b <;> rfl
  | cons c a ih => rw [cons_append, byteLength_cons, upto?_cons, ih, Option.map_some]

theorem byteLength_of_from? (h : from? text n = some rest) : n + byteLength rest = byteLength text := by
  fun_induction from? text n with
  | case1 cs =>
    cases h
    exact Nat.zero_add _
  | case2 => exact nomatch h
  | case3 c cs n hle ih =>
    have := ih h
    rw [byteLength_cons]
    omega
  | case4 => exact nomatch h

end Text

open Text

theorem Slice.slice?_eq (h : Slice text i j s) : slice? text i j = some s := by
  obtain ⟨before, after, rfl, rfl, rfl⟩ := h
  unfold slice?
  rw [if_pos (Nat.le_add_right _ _), from?_append, Nat.add_sub_cancel_left]
  exact upto?_append s after

/-! ## offsets -/

/-- the number of offsets of 32 bits -/
def offsetBound : Nat := 4294967296

def offset? (n : Nat) : Option Nat := if n < offsetBound then some n else none

theorem offset?_eq_some (h : n < offsetBound) : offset? n = some n := if_pos h

/-! ## lexemes -/

/-- the token that a lexeme stands for; the value of a string is cut out between its quotes -/
def Pattern.read? : Pattern → List Char → Option (Option (TokenKind × String))
  | .string, l =>
    (slice? l 1 (byteLength l - 1)).map fun inner => some (.string, String.ofList (unescape inner))
  | p, l => some (p.read l)

theorem Pattern.read?_eq_some {p : Pattern} (h : p.Matches l) : p.read? l = some (p.read l) := by
  cases p with
  | string =>
    obtain ⟨body, rfl, _⟩ := h
    have hinner : Slice ('"' :: (body ++ ['"'])) 1 (byteLength ('"' :: (body ++ ['"'])) - 1) body := by
      refine ⟨['"'], ['"'], rfl, rfl, ?_⟩
      rw [byteLength_cons, byteLength_append]
      show 1 + byteLength body = 1 + (byteLength body + 1) - 1
      omega
    rw [Pattern.read?, hinner.slice?_eq, Pattern.read, drop_one, tail_cons, dropLast_concat]
    rfl
  | _ => rfl

/-! ## scanning -/

def tokensFrom? (source : List Char) (file : String) (start : Nat) :
    Option (Except Diagnostic (List Token)) :=
  match _hrest : from? source start with
  | none => none
  | some [] => (offset? start).map fun n => .ok [.endOf ⟨n, n, file⟩]
  | some (c :: cs) =>
    match _hfirst : Pattern.first? (c :: cs) with
    | none => (offset? start).map fun n =>
      .error (.atPosition (.unrecognisedToken (String.singleton c)) ⟨n, file⟩)
    | some (p, l, _) => do
      let first ← offset? start
      let stop ← offset? (start + byteLength l)
      let lexeme ← p.read? l
      let tail ← tokensFrom? source file (start + byteLength l)
      return tail.map fun ts =>
        match lexeme with
        | none => ts
        | some (kind, value) => ⟨kind, value, ⟨first, stop, file⟩⟩ :: ts
termination_by byteLength source - start
decreasing_by
  have hend := byteLength_of_from? _hrest
  obtain ⟨happ, hne⟩ := Pattern.split?_append (Pattern.first?_split _hfirst)
  have hpos := byteLength_pos hne
  rw [← happ, byteLength_append] at hend
  omega

/-- below the bound nothing fails; `before` is what was passed -/
theorem tokensFrom?_eq_some (file : String) (before rest : List Char)
    (h : byteLength (before ++ rest) < offsetBound) :
    tokensFrom? (before ++ rest) file (byteLength before)
      = some (Reader.tokens file ⟨byteLength before, rest⟩) := by
  induction hlen : rest.length using Nat.strongRecOn generalizing before rest with
  | ind k ih =>
    have hcut := from?_append before rest
    have hstart : offset? (byteLength before) = some (byteLength before) := by
      rw [byteLength_append] at h
      exact offset?_eq_some (by omega)
    rw [tokensFrom?]
    split
    · next hnone => exact nomatch hcut.symm.trans hnone
    · next hnil =>
      cases hcut.symm.trans hnil
      rw [hstart, Reader.tokens_nil]
      rfl
    · next c cs hcons =>
      cases hcut.symm.trans hcons
      split
      · next hnone =>
        rw [hstart, Reader.tokens_none hnone]
        rfl
      · next p l tail hfirst =>
        obtain ⟨happ, hl, _⟩ := Pattern.split?_eq_some_iff.mp (Pattern.first?_split hfirst)
        have hsource : before ++ (c :: cs) = (before ++ l) ++ tail := by rw [happ, append_assoc]
        have hbound : byteLength (before ++ l) < offsetBound := by
          rw [hsource, byteLength_append] at h
          omega
        have hrest := ih _ (hlen ▸ Pattern.first?_length hfirst) (before ++ l) tail (hsource ▸ h) rfl
        rw [byteLength_append] at hbound hrest
        rw [hstart, offset?_eq_some hbound, p.read?_eq_some hl, hsource, hrest, Reader.tokens_some hfirst]
        cases p.read l <;> rfl

end TypedScript
