import TypedScript.Text.Lines

/-!
# Lines and offsets

A byte of a text lies in one line, and the lookup of its offset finds that line: its number counts the
newlines in front of the byte, and the lengths of the lines in front of it with the offset in the line
give the offset in the text back.
-/

namespace TypedScript

open Text List

/-! ## whole lines -/

/-- a line of the text `before ++ line ++ after`: it starts the text or stands behind a newline, and it
ends with its only newline or with the text -/
structure IsWholeLine (before line after : List Char) : Prop where
  start : ∀ c ∈ before.getLast?, c = '\n'
  inner : '\n' ∉ line.dropLast
  ending : line.getLast? = some '\n' ∨ line ≠ [] ∧ after = []

/-- a text cut into lines: each ends with its only newline, except that the last one may have none -/
inductive Segmented : List (List Char) → Prop
  | nil : Segmented []
  | last : s ≠ [] → '\n' ∉ s → Segmented [s]
  | cons : '\n' ∉ s → Segmented ss → Segmented ((s ++ ['\n']) :: ss)

theorem segmented_segments (text : List Char) : Segmented (segments text) := by
  induction text with
  | nil => exact .nil
  | cons c cs ih =>
    unfold segments
    split
    · next hc =>
      subst hc
      exact .cons not_mem_nil ih
    · next hc =>
      -- any other character joins the first line of the rest
      split
      · exact .last (cons_ne_nil c []) (by simp [Ne.symm hc])
      · next s ss hss =>
        rw [hss] at ih
        cases ih with
        | last hne hs => exact .last (cons_ne_nil c s) (by simp [hs, Ne.symm hc])
        | @cons s ss hs htail =>
          rw [← cons_append]
          exact .cons (by simp [hs, Ne.symm hc]) htail

theorem Segmented.isWholeLine (h : Segmented (ss₁ ++ s :: ss₂)) :
    IsWholeLine ss₁.flatten s ss₂.flatten ∧ ss₁.flatten.count '\n' = ss₁.length := by
  induction ss₁ with
  | nil =>
    cases h with
    | last hne hs => exact ⟨⟨nofun, fun hmem => hs (dropLast_subset _ hmem), .inr ⟨hne, rfl⟩⟩, rfl⟩
    | cons hs _ => exact ⟨⟨nofun, by simpa using hs, .inl (by simp)⟩, rfl⟩
  | cons t ss₁ ih =>
    rw [cons_append] at h
    cases ht : ss₁ ++ s :: ss₂ with
    | nil => exact absurd ht (append_ne_nil_of_right_ne_nil _ (cons_ne_nil _ _))
    | cons u us =>
      rw [ht] at h ih
      cases h with
      | @cons t _ hfirst htail =>
        obtain ⟨hline, hcount⟩ := ih htail
        refine ⟨⟨?_, hline.inner, hline.ending⟩, ?_⟩
        · intro c hc
          cases hflat : ss₁.flatten.getLast? with
          | none =>
            rw [flatten_cons, List.getLast?_append, hflat, Option.none_or, List.getLast?_concat] at hc
            exact (Option.some.inj hc).symm
          | some d =>
            rw [flatten_cons, List.getLast?_append, hflat, Option.some_or] at hc
            exact Option.some.inj hc ▸ hline.start d hflat
        · rw [flatten_cons, count_append, hcount, count_append,
            count_eq_zero_of_not_mem hfirst, length_cons]
          simp [Nat.add_comm]

/-! ## the segment of an offset -/

variable {offset : Nat} {ss : List (List Char)}

/-- the segment that holds a byte, and the lengths of the segments in front of it -/
theorem segmentAt?_spec (number : Nat) (h : offset < byteLength ss.flatten) :
    ∃ ss₁ s ss₂ i, ss = ss₁ ++ s :: ss₂ ∧ byteLength ss₁.flatten + i = offset ∧ i < byteLength s ∧
      segmentAt? number offset ss = some ⟨number + ss₁.length, s, i⟩ := by
  induction ss generalizing number offset with
  | nil => exact absurd h (Nat.not_lt_zero offset)
  | cons s ss ih =>
    rw [flatten_cons, byteLength_append] at h
    unfold segmentAt?
    split
    · next hs => exact ⟨[], s, ss, offset, rfl, Nat.zero_add offset, hs, rfl⟩
    · next hs =>
      obtain ⟨ss₁, t, ss₂, i, rfl, hoffset, hi, hsegment⟩ :=
        ih (number + 1) (show offset - byteLength s < byteLength ss.flatten by omega)
      refine ⟨s :: ss₁, t, ss₂, i, rfl, ?_, hi, ?_⟩
      · rw [flatten_cons, byteLength_append]
        omega
      · rw [hsegment, length_cons, Nat.add_right_comm, Nat.add_assoc]

theorem segmentAt?_eq_none (number : Nat)
    (h : byteLength ss.flatten ≤ offset) : segmentAt? number offset ss = none := by
  induction ss generalizing number offset with
  | nil => rfl
  | cons s ss ih =>
    rw [flatten_cons, byteLength_append] at h
    unfold segmentAt?
    rw [if_neg (by omega)]
    exact ih (number + 1) (by omega)

/-! ## the characters in front of an offset -/

/-- the characters that end at or before the byte `offset` -/
def charactersBefore : Nat → List Char → List Char
  | _, [] => []
  | offset, c :: cs =>
    if c.utf8Size ≤ offset then c :: charactersBefore (offset - c.utf8Size) cs else []

theorem charactersBefore_append (a b : List Char) (offset : Nat) :
    charactersBefore (byteLength a + offset) (a ++ b) = a ++ charactersBefore offset b := by
  induction a with
  | nil => rw [byteLength_nil, Nat.zero_add, nil_append, nil_append]
  | cons c a ih =>
    rw [cons_append, charactersBefore, byteLength_cons, if_pos (by omega),
      show c.utf8Size + byteLength a + offset - c.utf8Size = byteLength a + offset by omega, ih,
      cons_append]

theorem charactersBefore_zero (cs : List Char) : charactersBefore 0 cs = [] := by
  cases cs with
  | nil => rfl
  | cons c cs => rw [charactersBefore, if_neg (Nat.not_le.mpr c.utf8Size_pos)]

/-- in front of a byte of `cs` are the characters of `cs` before the one that holds it -/
theorem charactersBefore_split (after : List Char) (h : offset < byteLength cs) :
    ∃ c rest, cs = charactersBefore offset (cs ++ after) ++ c :: rest := by
  induction cs generalizing offset with
  | nil => exact absurd h (Nat.not_lt_zero offset)
  | cons c cs ih =>
    rw [byteLength_cons] at h
    rw [cons_append, charactersBefore]
    split
    · obtain ⟨d, rest, hrest⟩ := ih (show offset - c.utf8Size < byteLength cs by omega)
      exact ⟨d, rest, by rw [cons_append, ← hrest]⟩
    · exact ⟨c, cs, rfl⟩

theorem IsWholeLine.notMem_charactersBefore {before line after : List Char}
    (h : IsWholeLine before line after) (hi : i < byteLength line) :
    '\n' ∉ charactersBefore i (line ++ after) := by
  obtain ⟨c, rest, hline⟩ := charactersBefore_split after hi
  intro hmem
  apply h.inner
  rw [hline, dropLast_append_cons]
  exact mem_append_left _ hmem

/-! ## the line of an offset -/

variable {text : List Char}

theorem lineAt_of_lt (h : offset < byteLength text) :
    ∃ before line after i, text = before ++ line ++ after ∧ IsWholeLine before line after ∧
      byteLength before + i = offset ∧ i < byteLength line ∧
      before = ((segments text).take (before.count '\n')).flatten ∧
      lineAt text offset = some ⟨before.count '\n' + 1, line, i⟩ := by
  have hflat := segments_flatten text
  obtain ⟨ss₁, s, ss₂, i, hss, hoffset, hi, hsegment⟩ := segmentAt?_spec 1 (hflat.symm ▸ h)
  obtain ⟨hline, hcount⟩ := Segmented.isWholeLine (hss ▸ segmented_segments text)
  refine ⟨ss₁.flatten, s, ss₂.flatten, i, ?_, hline, hoffset, hi, ?_, ?_⟩
  · rw [← hflat, hss, flatten_append, flatten_cons, append_assoc]
  · rw [hcount, hss, take_left]
  · unfold lineAt
    rw [if_neg (Nat.not_lt.mpr (Nat.le_of_lt h)), hsegment, Option.some_or, hcount, Nat.add_comm]

/-- a line and what is shown of it at the end of the text: a newline goes, with a carriage return in
front of it -/
inductive Unterminated : List Char → List Char → Prop
  | crlf (shown : List Char) : Unterminated (shown ++ ['\r', '\n']) shown
  | newline {shown : List Char} : shown.getLast? ≠ some '\r' → Unterminated (shown ++ ['\n']) shown
  | none {shown : List Char} : shown.getLast? ≠ some '\n' → Unterminated shown shown

theorem unterminated_withoutTerminator (s : List Char) : Unterminated s (withoutTerminator s) := by
  have hreverse : ∀ {r t : List Char}, s.reverse = r ++ t → s = t.reverse ++ r.reverse := by
    intro r t h
    rw [← reverse_append, ← h, reverse_reverse]
  unfold withoutTerminator
  split
  · next r h => exact hreverse (r := ['\n', '\r']) h ▸ .crlf r.reverse
  · next r hcr h =>
    refine (hreverse (r := ['\n']) h) ▸ Unterminated.newline fun hlast => ?_
    rw [List.getLast?_reverse] at hlast
    obtain ⟨t, rfl⟩ := List.head?_eq_some_iff.mp hlast
    exact hcr t rfl
  · next hcr hnewline =>
    refine .none fun hlast => ?_
    rw [← List.head?_reverse] at hlast
    obtain ⟨t, ht⟩ := List.head?_eq_some_iff.mp hlast
    exact hnewline t ht

theorem lineAt_end (h : text ≠ []) :
    ∃ before line shown, text = before ++ line ∧ IsWholeLine before line [] ∧ Unterminated line shown ∧
      lineAt text (byteLength text) = some ⟨before.count '\n' + 1, shown, byteLength shown⟩ := by
  have hflat := segments_flatten text
  rcases eq_nil_or_concat (segments text) with hnil | ⟨ss, s, hss⟩
  · rw [hnil] at hflat
    exact absurd hflat.symm h
  · rw [concat_eq_append] at hss
    obtain ⟨hline, hcount⟩ := Segmented.isWholeLine (hss ▸ segmented_segments text)
    refine ⟨ss.flatten, s, withoutTerminator s, ?_, hline, unterminated_withoutTerminator s, ?_⟩
    · rw [← hflat, hss, flatten_append, flatten_singleton]
    · unfold lineAt lastLine?
      rw [if_neg (Nat.lt_irrefl _), segmentAt?_eq_none 1 (Nat.le_of_eq (congrArg byteLength hflat)),
        Option.none_or, hss,
        List.getLast?_concat, hcount, length_append]
      rfl

theorem lineAt_eq_none_iff : lineAt text offset = none ↔ text = [] ∨ byteLength text < offset := by
  rcases Nat.lt_trichotomy offset (byteLength text) with hlt | rfl | hgt
  · obtain ⟨_, _, _, _, _, _, _, _, _, hline⟩ := lineAt_of_lt hlt
    rw [hline]
    refine ⟨nofun, ?_⟩
    rintro (rfl | hgt)
    · exact absurd hlt (Nat.not_lt_zero offset)
    · exact absurd hlt (Nat.lt_asymm hgt)
  · by_cases hnil : text = []
    · subst hnil
      exact ⟨fun _ => .inl rfl, fun _ => rfl⟩
    · obtain ⟨_, _, _, _, _, _, hline⟩ := lineAt_end hnil
      rw [hline]
      exact ⟨nofun, fun h => absurd h (by simp [hnil])⟩
  · exact ⟨fun _ => .inr hgt, fun _ => if_pos hgt⟩

/-- The lookup of a byte gives the whole line around it.  The number of the line is one more than the
newlines in front of the byte, and the lines in front of that one and the offset in it add up to the
byte.  The end of a text is looked up in its last line, shown without its terminator.  Only the empty
text and the offsets behind the end have no line. -/
theorem lineAt_inverts_offsets (text : List Char) (offset : Nat) :
    (offset < byteLength text → ∃ before line after number i, text = before ++ line ++ after ∧
      IsWholeLine before line after ∧ lineAt text offset = some ⟨number, line, i⟩ ∧
      number = (charactersBefore offset text).count '\n' + 1 ∧
      before = ((segments text).take (number - 1)).flatten ∧
      byteLength before + i = offset ∧ i < byteLength line) ∧
    (offset = byteLength text → text ≠ [] → ∃ before line shown, text = before ++ line ∧
      IsWholeLine before line [] ∧ Unterminated line shown ∧
      lineAt text offset = some ⟨before.count '\n' + 1, shown, byteLength shown⟩) ∧
    (lineAt text offset = none ↔ text = [] ∨ byteLength text < offset) := by
  refine ⟨fun h => ?_, ?_, lineAt_eq_none_iff⟩
  · obtain ⟨before, line, after, i, htext, hline, hoffset, hi, hbefore, hlookup⟩ := lineAt_of_lt h
    have hcount : (charactersBefore offset text).count '\n' = before.count '\n' := by
      rw [htext, ← hoffset, append_assoc, charactersBefore_append, count_append,
        count_eq_zero_of_not_mem (hline.notMem_charactersBefore hi), Nat.add_zero]
    exact ⟨before, line, after, before.count '\n' + 1, i, htext, hline, hlookup, by rw [hcount],
      by rw [Nat.add_sub_cancel, ← hbefore], hoffset, hi⟩
  · rintro rfl hne
    exact lineAt_end hne

end TypedScript
