import TypedScript.Proofs.MappedScripts

/-!
# Mapping the words of a text

Words of a text are mapped by a reader that copies everything else: blanks, marks and whatever stands
between the quotes of a string.  Mapping the words of the text of a script is mapping the names of its
tree, for a map that leaves alone the words that every script may hold.
-/

namespace TypedScript.Script

open List

variable {f : String → String}

/-! ## words of a text -/

namespace Reader

/-- what is written when a character is read; a word is written where it ends -/
def write (f : String → String) : Reader → Char → List Char
  | between, c => if Text.isWordPart c then [] else [c]
  | inWord cs, c => if Text.isWordPart c then [] else (f (String.ofList cs)).toList ++ [c]
  | inString, c => [c]
  | escaped, c => [c]

/-- what is written at the end of a text -/
def rest (f : String → String) : Reader → List Char
  | inWord cs => (f (String.ofList cs)).toList
  | _ => []

def rewrite (f : String → String) : Reader → List Char → List Char
  | r, [] => r.rest f
  | r, c :: cs => r.write f c ++ (r.step c).1.rewrite f cs

end Reader

/-- a text with its words mapped; a string is not read -/
def mapWords (f : String → String) (text : String) : String :=
  String.ofList (Reader.between.rewrite f text.toList)

open TypedScript.Script.Reader (between inWord inString escaped)

/-! ## parts of a text -/

theorem rewrite_inWord (ds : List Char) (h : ∀ c ∈ cs, Text.isWordPart c = true) (rest : List Char) :
    (inWord ds).rewrite f (cs ++ rest) = (inWord (ds ++ cs)).rewrite f rest := by
  induction cs generalizing ds with
  | nil => rw [append_nil, nil_append]
  | cons c cs ih =>
    obtain ⟨hc, hcs⟩ := forall_mem_cons.mp h
    have hwrite : (inWord ds).write f c = [] := if_pos hc
    have hstep : ((inWord ds).step c).1 = inWord (ds ++ [c]) := congrArg Prod.fst (if_pos hc)
    rw [cons_append, Reader.rewrite, hwrite, hstep, ih _ hcs, append_assoc]
    rfl

theorem rewrite_inWord_apart (ds : List Char) {rest : List Char} (h : HeadApart rest) :
    (inWord ds).rewrite f rest = (f (String.ofList ds)).toList ++ between.rewrite f rest := by
  cases rest with
  | nil => exact (append_nil _).symm
  | cons c cs =>
    have hc := h c rfl
    have hword : ¬ Text.isWordPart c = true := Bool.eq_false_iff.mp hc
    have hwrite : (inWord ds).write f c = (f (String.ofList ds)).toList ++ [c] := if_neg hword
    have hwrite' : between.write f c = [c] := if_neg hword
    have hstep : ((inWord ds).step c).1 = (between.step c).1 := by
      have hstart : (inWord ds).step c = ((Reader.start c).1, _) := if_neg hword
      rw [hstart]
      rfl
    rw [Reader.rewrite, Reader.rewrite, hwrite, hwrite', hstep, append_assoc]

theorem rewrite_word (hx : IsWord x) {rest : List Char} (h : HeadApart rest) :
    between.rewrite f (x.toList ++ rest) = (f x).toList ++ between.rewrite f rest := by
  cases hlist : x.toList with
  | nil => exact absurd hlist hx.nonempty
  | cons c cs =>
    have hparts := hx.parts
    rw [hlist] at hparts
    obtain ⟨hc, hcs⟩ := forall_mem_cons.mp hparts
    have hwrite : between.write f c = [] := if_pos hc
    have hstep : (between.step c).1 = inWord [c] := congrArg Prod.fst (if_pos hc)
    rw [cons_append, Reader.rewrite, hwrite, hstep, nil_append, rewrite_inWord [c] hcs,
      singleton_append, ← hlist, rewrite_inWord_apart _ h, String.ofList_toList]

theorem rewrite_inString (h : inString.run cs = (inString, [])) (rest : List Char) :
    inString.rewrite f (cs ++ rest) = cs ++ inString.rewrite f rest := by
  -- behind a backslash one more character is copied, whatever it is
  suffices hboth : (inString.run cs = (inString, []) →
      inString.rewrite f (cs ++ rest) = cs ++ inString.rewrite f rest) ∧
      (escaped.run cs = (inString, []) → escaped.rewrite f (cs ++ rest) = cs ++ inString.rewrite f rest)
    from hboth.1 h
  clear h
  induction cs with
  | nil => exact ⟨fun _ => rfl, nofun⟩
  | cons c cs ih =>
    refine ⟨fun h => ?_, fun h => ?_⟩
    · have hout : (inString.step c).2 = [] := (append_eq_nil_iff.mp (congrArg Prod.snd h)).1
      by_cases hquote : c = '"'
      · subst hquote
        exact nomatch hout
      by_cases hbackslash : c = '\\'
      · subst hbackslash
        exact congrArg (List.cons _) (ih.2 h)
      · have hstep : (inString.step c).1 = inString :=
          congrArg Prod.fst ((if_neg hquote).trans (if_neg hbackslash))
        rw [run_inString hquote hbackslash] at h
        show [c] ++ (inString.step c).1.rewrite f (cs ++ rest) = _
        rw [hstep, ih.1 h]
        rfl
    · exact congrArg (List.cons _) (ih.1 h)

theorem rewrite_stringLiteral (s : String) (rest : List Char) :
    between.rewrite f ((stringLiteral s).toList ++ rest)
      = (stringLiteral s).toList ++ between.rewrite f rest := by
  unfold stringLiteral literalChars
  rw [String.toList_ofList, cons_append, append_assoc]
  show '"' :: inString.rewrite f (_ ++ _) = '"' :: ((_ ++ _) ++ _)
  rw [rewrite_inString (run_literalChars s.toList), append_assoc]
  rfl

/-- `f` leaves alone the words that have no underscore -/
def FixesPlain (f : String → String) : Prop := ∀ x : String, '_' ∉ x.toList → f x = x

theorem rewrite_plain (hf : FixesPlain f) (h : ∀ c ∈ cs, c ≠ '_' ∧ c ≠ '"') {rest : List Char}
    (hrest : HeadApart rest) : between.rewrite f (cs ++ rest) = cs ++ between.rewrite f rest := by
  -- in the middle of a word its first characters are still to be written
  suffices hboth : between.rewrite f (cs ++ rest) = cs ++ between.rewrite f rest ∧
      ∀ ds, '_' ∉ ds → (inWord ds).rewrite f (cs ++ rest) = ds ++ (cs ++ between.rewrite f rest)
    from hboth.1
  have hflush : ∀ ds, '_' ∉ ds → (f (String.ofList ds)).toList = ds := by
    intro ds hds
    rw [hf (String.ofList ds) (by rwa [String.toList_ofList]), String.toList_ofList]
  induction cs with
  | nil => exact ⟨rfl, fun ds hds => (rewrite_inWord_apart ds hrest).trans (by rw [hflush ds hds]; rfl)⟩
  | cons c cs ih =>
    obtain ⟨⟨hunderscore, hquote⟩, hcs⟩ := forall_mem_cons.mp h
    obtain ⟨hbetween, hword⟩ := ih hcs
    by_cases hc : Text.isWordPart c = true
    · refine ⟨?_, fun ds hds => ?_⟩
      · have hwrite : between.write f c = [] := if_pos hc
        have hstep : (between.step c).1 = inWord [c] := congrArg Prod.fst (if_pos hc)
        rw [cons_append, Reader.rewrite, hwrite, hstep, hword [c] (by simpa using hunderscore.symm)]
        rfl
      · have hwrite : (inWord ds).write f c = [] := if_pos hc
        have hstep : ((inWord ds).step c).1 = inWord (ds ++ [c]) := congrArg Prod.fst (if_pos hc)
        have hnew : '_' ∉ ds ++ [c] := by
          rw [mem_append, mem_singleton]
          exact not_or.mpr ⟨hds, hunderscore.symm⟩
        rw [cons_append, Reader.rewrite, hwrite, hstep, hword _ hnew, append_assoc]
        rfl
    · have hstart : (Reader.start c).1 = between :=
        congrArg Prod.fst ((if_neg hc).trans (if_neg hquote))
      have hbetween' : between.rewrite f (c :: (cs ++ rest)) = c :: (cs ++ between.rewrite f rest) := by
        have hwrite : between.write f c = [c] := if_neg hc
        have hstep : (between.step c).1 = between := hstart
        rw [Reader.rewrite, hwrite, hstep, hbetween]
        rfl
      refine ⟨hbetween', fun ds hds => ?_⟩
      have hapart : HeadApart (c :: (cs ++ rest)) := by
        rintro c' ⟨⟩
        exact Bool.eq_false_iff.mpr hc
      rw [cons_append, rewrite_inWord_apart ds hapart, hbetween', hflush ds hds]
      rfl

theorem rewrite_of_isLead (hf : FixesPlain f) (h : isLead t = true) (rest : List Char) :
    between.rewrite f (t.toList ++ rest) = t.toList ++ between.rewrite f rest := by
  obtain ⟨hplain, hend⟩ := Bool.and_eq_true_iff.mp h
  replace hplain := plain_chars hplain
  unfold endsApart at hend
  rcases eq_nil_or_concat t.toList with hlist | ⟨cs, c, hlist⟩
  · rw [hlist]
    rfl
  · rw [concat_eq_append] at hlist
    rw [hlist] at hplain hend ⊢
    have hc : Text.isWordPart c = false := by simpa using hend
    have hquote := (hplain c (mem_append_right _ mem_cons_self)).2
    have hapart : HeadApart ([c] ++ rest) := by
      rintro c' ⟨⟩
      exact hc
    have hwrite : between.write f c = [c] := if_neg (Bool.eq_false_iff.mp hc)
    have hstep : (between.step c).1 = between :=
      congrArg Prod.fst ((if_neg (Bool.eq_false_iff.mp hc)).trans (if_neg hquote))
    rw [append_assoc, rewrite_plain hf (fun c' hc' => hplain c' (mem_append_left _ hc')) hapart,
      singleton_append, Reader.rewrite, hwrite, hstep, append_assoc]

/-! ## scripts -/

theorem FixesPlain.scans (hf : FixesPlain f) : Scans (between.rewrite f) f id where
  lead := rewrite_of_isLead hf
  name hx _ hrest := rewrite_word hx.word hrest
  literal {v} hv rest hrest := by
    cases v with
    | string s => exact rewrite_stringLiteral s rest
    | _ => exact rewrite_plain hf (plain_chars (isPlain_literalText hv nofun)) hrest
  nil := rfl

/-- the text of a script with other names is the text of the script with its words mapped -/
theorem mapWords_layout (hf : FixesPlain f) (h : BodyLegible ss) (width : Nat) :
    layout width (bodyLines 0 (mapBody f id ss)) = mapWords f (layout width (bodyLines 0 ss)) :=
  (hf.scans.layout h width).symm

end TypedScript.Script
