import TypedScript.Proofs.FaultTexts
import TypedScript.Proofs.LineLookup

/-!
# Where the caret of a report stands

The excerpt of a report loses the white space in front of its line.  The caret moves left by the blanks
among it only, and it counts the bytes of the line where the reader sees characters.  So the caret
stands under the character it is about exactly if the white space in front of the line is blanks and
every character before that one has one byte.
-/

namespace TypedScript

open Text List

/-! ## a text up to a character -/

section
variable {p : Char → Bool} {c : Char}

theorem takeWhile_append_cons (h : p c = false) (a b : List Char) :
    (a ++ c :: b).takeWhile p = a.takeWhile p := by
  induction a with
  | nil => simp [h]
  | cons x a ih =>
    rw [cons_append, takeWhile_cons, takeWhile_cons, ih]

theorem dropWhile_append_cons (h : p c = false) (a b : List Char) :
    (a ++ c :: b).dropWhile p = a.dropWhile p ++ c :: b := by
  induction a with
  | nil => simp [h]
  | cons x a ih =>
    rw [cons_append, dropWhile_cons, dropWhile_cons, ih]
    split <;> rfl

end

theorem trimmed_append_cons (h : isBlank c = false) (a b : List Char) :
    Diagnostic.trimmed (a ++ c :: b) = a.dropWhile isBlank ++ c :: (b.reverse.dropWhile isBlank).reverse := by
  unfold Diagnostic.trimmed
  rw [dropWhile_append_cons h, reverse_append, reverse_cons, append_assoc,
    singleton_append, dropWhile_append_cons h, reverse_append, reverse_cons,
    reverse_reverse, append_assoc, singleton_append]

theorem dropWhile_isBlank_drop (cs : List Char) :
    (cs.drop (Diagnostic.leadingBlanks cs)).dropWhile isBlank = cs.dropWhile isBlank := by
  induction cs with
  | nil => rfl
  | cons c cs ih =>
    unfold Diagnostic.leadingBlanks
    by_cases hc : c = ' '
    · subst hc
      rw [takeWhile_cons_of_pos rfl, length_cons, drop_succ_cons,
        dropWhile_cons_of_pos (by decide)]
      exact ih
    · rw [takeWhile_cons_of_neg (by simpa using hc)]
      rfl

theorem notMem_trimmed_rest {before start rest after : List Char}
    (h : IsWholeLine before (start ++ c :: rest) after) :
    '\n' ∉ (rest.reverse.dropWhile isBlank).reverse := by
  rcases eq_nil_or_concat rest with rfl | ⟨r, z, rfl⟩
  · exact not_mem_nil
  · have hr : '\n' ∉ r := by
      intro hmem
      apply h.inner
      rw [concat_eq_append, ← cons_append, ← append_assoc, dropLast_concat]
      exact mem_append_right _ (mem_cons_of_mem c hmem)
    rw [concat_eq_append, reverse_append, reverse_singleton, singleton_append,
      mem_reverse, dropWhile_cons]
    split
    · exact fun hmem => hr (mem_reverse.mp (dropWhile_subset _ hmem))
    · next hz =>
      intro hmem
      rcases mem_cons.mp hmem with rfl | hmem
      · exact hz (by decide)
      · exact hr (mem_reverse.mp hmem)

/-! ## two counts of columns -/

theorem length_le_byteLength (cs : List Char) : cs.length ≤ byteLength cs := by
  induction cs with
  | nil => exact Nat.le_refl 0
  | cons c cs ih =>
    rw [byteLength_cons, length_cons]
    have hc := c.utf8Size_pos
    omega

theorem byteLength_eq_length_iff (cs : List Char) :
    byteLength cs = cs.length ↔ ∀ x ∈ cs, x.utf8Size = 1 := by
  induction cs with
  | nil => simp [byteLength_nil]
  | cons c cs ih =>
    rw [byteLength_cons, length_cons, forall_mem_cons, ← ih]
    have hc := c.utf8Size_pos
    have hcs := length_le_byteLength cs
    omega

theorem leadingBlanks_le (cs : List Char) :
    Diagnostic.leadingBlanks cs ≤ (cs.takeWhile isBlank).length := by
  induction cs with
  | nil => exact Nat.le_refl 0
  | cons c cs ih =>
    unfold Diagnostic.leadingBlanks at ih ⊢
    by_cases hc : c = ' '
    · subst hc
      rw [takeWhile_cons_of_pos rfl, takeWhile_cons_of_pos (by decide)]
      exact Nat.succ_le_succ ih
    · rw [takeWhile_cons_of_neg (by simpa using hc)]
      exact Nat.zero_le _

theorem leadingBlanks_eq_iff (cs : List Char) :
    Diagnostic.leadingBlanks cs = (cs.takeWhile isBlank).length ↔ ∀ x ∈ cs.takeWhile isBlank, x = ' ' := by
  induction cs with
  | nil => simp [Diagnostic.leadingBlanks]
  | cons c cs ih =>
    unfold Diagnostic.leadingBlanks at ih ⊢
    by_cases hc : c = ' '
    · subst hc
      rw [takeWhile_cons_of_pos rfl, takeWhile_cons_of_pos (by decide), forall_mem_cons,
        ← ih, length_cons, length_cons]
      simp
    · rw [takeWhile_cons_of_neg (by simpa using hc), takeWhile_cons]
      split <;> simp [hc]

/-- Behind `start`, the column by bytes less blanks is the column by characters less white space. -/
theorem caretColumn_eq_iff (start : List Char) :
    byteLength start - Diagnostic.leadingBlanks start = (start.dropWhile isBlank).length ↔
      (∀ x ∈ start.takeWhile isBlank, x = ' ') ∧ ∀ x ∈ start, x.utf8Size = 1 := by
  have hsplit := congrArg List.length (takeWhile_append_dropWhile (p := isBlank) (l := start))
  rw [length_append] at hsplit
  have hblanks := leadingBlanks_le start
  have hbytes := length_le_byteLength start
  rw [← leadingBlanks_eq_iff, ← byteLength_eq_length_iff]
  omega

/-! ## the report -/

/-- A report ends with an excerpt that has `c` behind `left`, and a caret behind `margin`, each on a line
of its own. -/
def ShowsCaret (report left : List Char) (c : Char) (margin : List Char) : Prop :=
  ∃ above right, report = above ++ ['\n'] ++ (left ++ c :: right ++ ['\n']) ++ (margin ++ ['^', '\n']) ∧
    '\n' ∉ left ++ c :: right ∧ ∀ x ∈ margin, x ∈ [' ', '|', '-']

theorem gutter_toList (width : Nat) :
    (Diagnostic.gutter width).toList = List.replicate (width + 1) ' ' ++ ['|'] := by
  unfold Diagnostic.gutter
  rw [String.toList_append, String.toList_ofList]
  rfl

theorem lineAt_character (pre post : List Char) (c : Char) :
    ∃ before start rest after, pre = before ++ start ∧ IsWholeLine before (start ++ c :: rest) after ∧
      '\n' ∉ start ∧ lineAt (pre ++ c :: post) (byteLength pre)
        = some ⟨before.count '\n' + 1, start ++ c :: rest, byteLength start⟩ := by
  have hlt : byteLength pre < byteLength (pre ++ c :: post) := by
    rw [byteLength_append, byteLength_cons]
    have hc := c.utf8Size_pos
    omega
  obtain ⟨before, line, after, i, htext, hline, hoffset, hi, _, hlookup⟩ := lineAt_of_lt hlt
  obtain ⟨e, rest, hsplit⟩ := charactersBefore_split after hi
  have hnone := hline.notMem_charactersBefore hi
  -- the characters in front of the offset are `pre` on the one side, and end in the line on the other
  have hpre := charactersBefore_append pre (c :: post) 0
  rw [charactersBefore_zero, append_nil, Nat.add_zero, ← hoffset, htext, append_assoc,
    charactersBefore_append] at hpre
  generalize charactersBefore i (line ++ after) = start at hsplit hnone hpre
  subst hsplit hpre
  rw [append_assoc, append_assoc, append_assoc, append_cancel_left_eq,
    append_cancel_left_eq, cons_append] at htext
  obtain rfl := (List.cons.inj htext).1
  have hi' : i = byteLength start := by
    rw [byteLength_append] at hoffset
    omega
  exact ⟨before, start, rest, after, rfl, hline, hnone, hi' ▸ hlookup⟩

theorem excerpt_toList (file : String) (line : Line) :
    (Diagnostic.excerpt file line).toList
      = "-> ".toList ++ file.toList ++ ['\n'] ++ (Diagnostic.gutter (toString line.number).length).toList
        ++ ['\n'] ++ ((toString line.number ++ " | ").toList
        ++ Diagnostic.trimmed (line.text.drop (Diagnostic.leadingBlanks line.text)) ++ ['\n'])
        ++ ((Diagnostic.gutter (toString line.number).length).toList ++ [' ']
        ++ List.replicate (line.offset - Diagnostic.leadingBlanks line.text) '-' ++ ['^', '\n']) := by
  unfold Diagnostic.excerpt
  simp only [String.toList_append, String.toList_ofList, append_assoc]
  rfl

/-- what stands in front of the excerpt of a line -/
def Diagnostic.label (number : Nat) : List Char := (toString number ++ " | ").toList

/-- what stands in front of the caret in column `column` of the excerpt -/
def Diagnostic.margin (number column : Nat) : List Char :=
  (Diagnostic.gutter (toString number).length).toList ++ [' '] ++ List.replicate column '-'

theorem Diagnostic.length_margin (number column : Nat) :
    (margin number column).length = (label number).length + column := by
  have hbar : " | ".toList.length = 3 := rfl
  unfold margin label
  rw [gutter_toList, String.toList_append]
  simp only [length_append, length_replicate, length_singleton, String.length_toList, hbar]

theorem Diagnostic.mem_margin : ∀ x ∈ margin number column, x ∈ [' ', '|', '-'] := by
  intro x hx
  unfold margin at hx
  rw [gutter_toList] at hx
  simp only [mem_append, mem_replicate, mem_singleton] at hx
  rcases hx with ((⟨_, rfl⟩ | rfl) | rfl) | ⟨_, rfl⟩ <;> decide

theorem Diagnostic.showsCaret_excerpt {before start rest after : List Char}
    (hline : IsWholeLine before (start ++ c :: rest) after) (hstart : '\n' ∉ start) (hc : isBlank c = false)
    (header file : String) (number : Nat) :
    ShowsCaret (header ++ Diagnostic.excerpt file ⟨number, start ++ c :: rest, byteLength start⟩).toList
      (label number ++ start.dropWhile isBlank) c
      (margin number (byteLength start - Diagnostic.leadingBlanks start)) := by
  have hblanks : Diagnostic.leadingBlanks (start ++ c :: rest) = Diagnostic.leadingBlanks start := by
    unfold Diagnostic.leadingBlanks
    rw [takeWhile_append_cons]
    exact beq_eq_false_iff_ne.mpr fun h => nomatch h ▸ hc
  have htrimmed : Diagnostic.trimmed
    ((start ++ c :: rest).drop (Diagnostic.leadingBlanks (start ++ c :: rest)))
      = start.dropWhile isBlank ++ c :: (rest.reverse.dropWhile isBlank).reverse := by
    rw [← trimmed_append_cons hc]
    unfold Diagnostic.trimmed
    rw [dropWhile_isBlank_drop]
  refine ⟨header.toList ++ "-> ".toList ++ file.toList ++ ['\n']
    ++ (Diagnostic.gutter (toString number).length).toList, (rest.reverse.dropWhile isBlank).reverse, ?_, ?_,
    mem_margin⟩
  · rw [String.toList_append, excerpt_toList, htrimmed, hblanks]
    simp only [label, margin, append_assoc]
  · have hnumber := isLine_toString number
    have hright := notMem_trimmed_rest hline
    have hleft : '\n' ∉ start.dropWhile isBlank := fun hmem => hstart (dropWhile_subset _ hmem)
    have hnewline : '\n' ≠ c := fun h => nomatch h ▸ hc
    have hbar : '\n' ∉ " | ".toList := by decide
    unfold label
    simp only [String.toList_append, mem_append, mem_cons, not_or]
    exact ⟨⟨⟨hnumber, hbar⟩, hleft⟩, hnewline, hright⟩

/-- The caret of a report about a character that is not white space stands under that character in the
excerpt exactly if the white space in front of its line is blanks and every character in front of it in
the line has one byte. -/
theorem report_caret_iff {d : Diagnostic} {source file : String} {pre post : List Char} {c : Char}
    (hsource : source.toList = pre ++ c :: post) (hc : isBlank c = false)
    (hposition : d.position = some ⟨byteLength pre, file⟩) :
    ∃ before start left margin, pre = before ++ start ∧ (∀ x ∈ before.getLast?, x = '\n') ∧ '\n' ∉ start ∧
      left = (toString (before.count '\n' + 1) ++ " | ").toList ++ start.dropWhile isBlank ∧
      ShowsCaret (d.report source).toList left c margin ∧
      (margin.length = left.length ↔
        (∀ x ∈ start.takeWhile isBlank, x = ' ') ∧ ∀ x ∈ start, x.utf8Size = 1) := by
  obtain ⟨before, start, rest, after, hpre, hline, hstart, hlookup⟩ := lineAt_character pre post c
  refine ⟨before, start, Diagnostic.label (before.count '\n' + 1) ++ start.dropWhile isBlank,
    Diagnostic.margin (before.count '\n' + 1) (byteLength start - Diagnostic.leadingBlanks start),
    hpre, hline.start, hstart, rfl, ?_, ?_⟩
  · unfold Diagnostic.report
    rw [hposition]
    dsimp only
    rw [hsource, hlookup]
    exact Diagnostic.showsCaret_excerpt hline hstart hc d.header file (before.count '\n' + 1)
  · rw [Diagnostic.length_margin, length_append, ← caretColumn_eq_iff]
    exact Nat.add_left_cancel_iff

/-- in the second line, behind two blanks and a letter, the caret stands under the sign -/
theorem report_caret_iff_blanks :
    let d : Diagnostic := ⟨.unrecognisedToken "#", some ⟨4, "a.sc"⟩⟩
    scan "\n  x#" "a.sc" = .error d ∧ ∃ left margin, ShowsCaret (d.report "\n  x#").toList left '#' margin ∧
      margin.length = left.length := by
  intro d
  have hsource : "\n  x#".toList = ['\n', ' ', ' ', 'x'] ++ '#' :: [] := by decide
  have hposition : d.position = some ⟨byteLength ['\n', ' ', ' ', 'x'], "a.sc"⟩ := rfl
  obtain ⟨before, start, left, margin, hpre, _, hstart, _, hshows, hiff⟩ :=
    report_caret_iff hsource (by decide) hposition
  have hmem : ∀ x ∈ start, x ∈ ['\n', ' ', ' ', 'x'] := fun x hx => hpre ▸ mem_append_right before hx
  have hblank : ∀ x ∈ ['\n', ' ', ' ', 'x'], isBlank x → x = '\n' ∨ x = ' ' := by
    simp [show isBlank 'x' = false by decide]
  have hbyte : ∀ x ∈ ['\n', ' ', ' ', 'x'], x.utf8Size = 1 := by simp [Char.utf8Size]
  refine ⟨by cbv, left, margin, hshows, hiff.mpr ⟨fun x hx => ?_, fun x hx => hbyte x (hmem x hx)⟩⟩
  have hx' : x ∈ start := takeWhile_subset _ hx
  refine (hblank x (hmem x hx') (mem_takeWhile_imp hx)).resolve_left ?_
  rintro rfl
  exact hstart hx'

/-- a tabulator is trimmed from the excerpt, but the caret does not move with it -/
theorem report_caret_misses_behind_tab :
    let d : Diagnostic := ⟨.unrecognisedToken "#", some ⟨1, "a.sc"⟩⟩
    let left := ['1', ' ', '|', ' ']
    let margin := [' ', ' ', '|', ' ', '-']
    scan "\t#" "a.sc" = .error d ∧ ShowsCaret (d.report "\t#").toList left '#' margin ∧
      margin.length ≠ left.length := by
  intro d left margin
  refine ⟨by cbv, ⟨"Error: UnrecognisedToken\n-> a.sc\n  |".toList, [], by decide +kernel, ?_, ?_⟩, by decide⟩
  · simp [left]
  · simp [margin]

end TypedScript
