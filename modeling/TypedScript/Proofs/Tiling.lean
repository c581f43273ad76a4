import TypedScript.Proofs.Lexemes

/-!
# Tokens tile the source

The tokens of a source text, with the layout between them, make up the whole text: each token has the
bytes that spell it, and no other bytes are left out than white space and comments.  If scanning stops,
it stops at the first character at which nothing starts, and what stands before that can be scanned.
-/

namespace TypedScript

open Text List

/-! ## layout -/

/-- white space and comments, each comment with the newline that ends it -/
inductive Layout : List Char → Prop
  | nil : Layout []
  | blank : isBlank c → Layout cs → Layout (c :: cs)
  | comment {body cs : List Char} :
    body.all (· != '\n') → Layout cs → Layout ('/' :: '/' :: (body ++ '\n' :: cs))

def OpenLayout (g : List Char) : Prop :=
  ∃ a body, g = a ++ '/' :: '/' :: body ∧ Layout a ∧ body.all (· != '\n')

/-- what may stand behind the last token -/
def Filler (g : List Char) : Prop := Layout g ∨ OpenLayout g

theorem Layout.append (ha : Layout a) (hb : Layout b) : Layout (a ++ b) := by
  induction ha with
  | nil => exact hb
  | blank hc _ ih => exact .blank hc ih
  | comment hbody _ ih =>
    rw [cons_append, cons_append, append_assoc, cons_append]
    exact .comment hbody ih

theorem layout_of_blanks {l : List Char} (h : l.all isBlank) : Layout l := by
  induction l with
  | nil => exact .nil
  | cons c cs ih =>
    rw [all_cons, Bool.and_eq_true] at h
    exact .blank h.1 (ih h.2)

theorem OpenLayout.close (hg : OpenLayout g) (hcs : Layout cs) : Layout (g ++ '\n' :: cs) := by
  obtain ⟨a, body, rfl, ha, hbody⟩ := hg
  rw [append_assoc, cons_append, cons_append]
  exact ha.append (.comment hbody hcs)

/-! ## slices -/

/-- the characters of a text from byte `i` up to byte `j`, both of which are character boundaries -/
def Slice (text : List Char) (i j : Nat) (s : List Char) : Prop :=
  ∃ before after, text = before ++ (s ++ after) ∧ byteLength before = i ∧ i + byteLength s = j

theorem Slice.le (h : Slice text i j s) : i ≤ j := by
  obtain ⟨_, _, _, _, hj⟩ := h
  omega

theorem byteLength_pos (h : l ≠ []) : 0 < byteLength l := by
  obtain ⟨c, cs, rfl⟩ := exists_cons_of_ne_nil h
  have := c.utf8Size_pos
  rw [byteLength_cons]
  omega

/-! ## tilings -/

variable {ts : List Token} {i : Nat} {file : String} {source : List Char}

/-- the tokens of a source from byte `i` on: layout and lexemes in turn, up to the end marker -/
inductive Tiles (source : List Char) (file : String) : Nat → List Token → Prop
  | ending {i : Nat} : Slice source i (byteLength source) g → Filler g →
    Tiles source file i [.endOf ⟨byteLength source, byteLength source, file⟩]
  | token {i : Nat} {g l : List Char} {t : Token} {ts : List Token} :
    Slice source i t.span.start g → Layout g → Slice source t.span.start t.span.stop l →
    t.span.start < t.span.stop → Spells l t.lexeme → t.span.file = file →
    Tiles source file t.span.stop ts → Tiles source file i (t :: ts)

theorem Tiles.le_start (h : Tiles source file i ts) : ∀ t ∈ ts, i ≤ t.span.start := by
  induction h with
  | ending hslice _ =>
    intro t ht
    rw [mem_singleton.mp ht]
    exact hslice.le
  | token hgap _ _ hlt _ _ _ ih =>
    intro u hu
    rcases mem_cons.mp hu with rfl | hu
    · exact hgap.le
    · have := ih u hu
      have := hgap.le
      omega

theorem Tiles.pairwise (h : Tiles source file i ts) : ts.Pairwise fun t u => t.span.stop ≤ u.span.start := by
  induction h with
  | ending _ _ => exact pairwise_singleton _ _
  | token _ _ _ _ _ _ hts ih => exact pairwise_cons.mpr ⟨hts.le_start, ih⟩

/-! ## one step of the scanner -/

namespace Reader

variable {file : String} {n : Nat} {text l rest : List Char} {p : Pattern}

theorem tokens_nil : tokens file ⟨n, []⟩ = .ok [.endOf ⟨n, n, file⟩] := by
  rw [tokens]

theorem next?_of_first? (h : Pattern.first? text = some (p, l, rest)) :
    next? ⟨n, text⟩ = some (p, l, ⟨n + byteLength l, rest⟩) := by
  unfold next?
  rw [h]
  rfl

theorem exists_cons_of_first? (h : Pattern.first? text = some (p, l, rest)) : ∃ c cs, text = c :: cs := by
  obtain ⟨happ, hne⟩ := Pattern.split?_append (Pattern.first?_split h)
  obtain ⟨c, cs, rfl⟩ := exists_cons_of_ne_nil hne
  exact ⟨c, cs ++ rest, happ.symm⟩

theorem tokens_none (h : Pattern.first? (c :: cs) = none) :
    tokens file ⟨n, c :: cs⟩ = .error (.atPosition (.unrecognisedToken (String.singleton c)) ⟨n, file⟩) := by
  have hnext : next? ⟨n, c :: cs⟩ = none := by
    unfold next?
    rw [h]
    rfl
  rw [tokens]
  split
  · next hnil => cases hnil
  · next d ds hcons =>
    cases hcons
    split
    · rfl
    · next hsome => cases hnext.symm.trans hsome

theorem tokens_some (h : Pattern.first? text = some (p, l, rest)) : tokens file ⟨n, text⟩
    = (tokens file ⟨n + byteLength l, rest⟩).map fun ts =>
        match p.read l with
        | none => ts
        | some (kind, value) => ⟨kind, value, ⟨n, n + byteLength l, file⟩⟩ :: ts := by
  obtain ⟨c, cs, rfl⟩ := exists_cons_of_first? h
  have hnext : next? ⟨n, c :: cs⟩ = _ := next?_of_first? h
  rw [tokens]
  split
  · next hnil => cases hnil
  · split
    · next hnone => cases hnext.symm.trans hnone
    · next q m r hsome =>
      cases hnext.symm.trans hsome
      cases tokens file ⟨n + byteLength l, rest⟩ with
      | error d => rfl
      | ok ts => cases p.read l <;> rfl

theorem tokens_skip (h : Pattern.first? text = some (p, l, rest)) (hread : p.read l = none) :
    tokens file ⟨n, text⟩ = tokens file ⟨n + byteLength l, rest⟩ := by
  rw [tokens_some h, hread]
  cases tokens file ⟨n + byteLength l, rest⟩ <;> rfl

theorem tokens_token (h : Pattern.first? text = some (p, l, rest)) (hread : p.read l = some x) :
    tokens file ⟨n, text⟩
      = (tokens file ⟨n + byteLength l, rest⟩).map (⟨x.1, x.2, ⟨n, n + byteLength l, file⟩⟩ :: ·) := by
  rw [tokens_some h, hread]

/-! ## whole runs -/

variable {g : List Char}

/-- the layout that was passed since the last token: an open comment ends here or at a newline -/
def Pending (g rest : List Char) : Prop := Layout g ∨ OpenLayout g ∧ StopsAt (· != '\n') rest

theorem eq_blank_of_newline (h : Pattern.first? ('\n' :: text) = some (p, l, rest)) :
    p = .blank ∧ ∃ cs, l = '\n' :: cs := by
  obtain ⟨he, hl, _⟩ := Pattern.split?_eq_some_iff.mp (Pattern.first?_split h)
  cases l with
  | nil => exact absurd hl (Pattern.not_matches_nil p)
  | cons c cs =>
    obtain rfl := (List.cons.inj he).1
    have hopens := Pattern.opens_of_matches hl
    refine ⟨?_, cs, rfl⟩
    cases p with
    | blank => rfl
    | mark m => cases m <;> exact absurd hopens (by decide)
    | _ => exact absurd hopens (by decide)

theorem Pending.skip (h : Pattern.first? text = some (p, l, rest))
    (hread : p.read l = none) (hg : Pending g text) : Pending (g ++ l) rest := by
  obtain ⟨rfl, hl, hstops⟩ := Pattern.split?_eq_some_iff.mp (Pattern.first?_split h)
  rcases hg with hg | ⟨hg, hnewline⟩
  · cases p with
    | blank => exact .inl (hg.append (layout_of_blanks hl.2))
    | comment =>
      obtain ⟨body, rfl, hbody⟩ := hl
      exact .inr ⟨⟨g, body, rfl, hg, hbody⟩, hstops⟩
    | word =>
      simp only [Pattern.read] at hread
      split at hread <;> cases hread
    | longNumber | number | string | mark m => cases hread
  · obtain ⟨c, cs, hcs⟩ := exists_cons_of_first? h
    rw [hcs] at h hnewline
    obtain rfl : c = '\n' := by simpa using hnewline c rfl
    obtain ⟨rfl, ds, rfl⟩ := eq_blank_of_newline h
    exact .inl (hg.close (layout_of_blanks (all_eq_true.mpr fun d hd =>
      all_eq_true.mp hl.2 d (mem_cons_of_mem _ hd))))

theorem Pending.layout (h : Pattern.first? text = some (p, l, rest)) (hread : p.read l = some x)
    (hg : Pending g text) : Layout g := by
  rcases hg with hg | ⟨_, hnewline⟩
  · exact hg
  · obtain ⟨c, cs, rfl⟩ := exists_cons_of_first? h
    obtain rfl : c = '\n' := by simpa using hnewline c rfl
    obtain ⟨rfl, _⟩ := eq_blank_of_newline h
    exact nomatch hread

theorem Pending.filler (h : Pending g []) : Filler g := h.imp_right And.left

/-- `before` and `g` are what was passed up to the last token and since then -/
theorem tiles (before g : List Char) (hg : Pending g text)
    (h : tokens file ⟨byteLength before + byteLength g, text⟩ = .ok ts) :
    Tiles (before ++ (g ++ text)) file (byteLength before) ts := by
  induction hlen : text.length using Nat.strongRecOn generalizing text before g ts with
  | ind k ih =>
    cases text with
    | nil =>
      rw [tokens_nil] at h
      cases h
      have hend : byteLength (before ++ (g ++ [])) = byteLength before + byteLength g := by
        rw [append_nil, byteLength_append]
      rw [← hend]
      exact .ending ⟨before, [], rfl, rfl, hend.symm⟩ hg.filler
    | cons c cs =>
      cases hfirst : Pattern.first? (c :: cs) with
      | none =>
        rw [tokens_none hfirst] at h
        exact nomatch h
      | some s =>
        obtain ⟨p, l, rest⟩ := s
        have hshort : rest.length < k := hlen ▸ Pattern.first?_length hfirst
        obtain ⟨happ, hl, _⟩ := Pattern.split?_eq_some_iff.mp (Pattern.first?_split hfirst)
        cases hread : p.read l with
        | none =>
          rw [tokens_skip hfirst hread, Nat.add_assoc, ← byteLength_append] at h
          have := ih _ hshort before (g ++ l) (hg.skip hfirst hread) h rfl
          rwa [append_assoc, ← happ] at this
        | some x =>
          rw [tokens_token hfirst hread] at h
          cases htail : tokens file ⟨byteLength before + byteLength g + byteLength l, rest⟩ with
          | error d => rw [htail] at h; exact nomatch h
          | ok us =>
            rw [htail] at h
            cases h
            have hpos := byteLength_pos (Pattern.split?_append (Pattern.first?_split hfirst)).2
            have hstop : byteLength (before ++ (g ++ l))
                = byteLength before + byteLength g + byteLength l := by
              rw [byteLength_append, byteLength_append, Nat.add_assoc]
            have hrest := ih _ hshort (before ++ (g ++ l)) [] (.inl .nil)
              (by rw [hstop]; exact htail) rfl
            rw [hstop, nil_append, append_assoc, append_assoc, ← happ] at hrest
            refine .token ⟨before, c :: cs, rfl, rfl, rfl⟩ (hg.layout hfirst hread)
              ⟨before ++ g, rest, ?_, byteLength_append before g, rfl⟩ (by simpa using hpos)
              (spells_of_read hl hread) rfl hrest
            rw [← happ, append_assoc]

/-- where scanning stops nothing starts, and the text up to there can be scanned -/
theorem stops (h : tokens file ⟨n, text⟩ = .error d) :
    ∃ before c after, text = before ++ c :: after ∧
      d = .atPosition (.unrecognisedToken (String.singleton c)) ⟨n + byteLength before, file⟩ ∧
      (∀ (p : Pattern) (l rest : List Char), c :: after = l ++ rest → ¬ p.Matches l) ∧
      ∃ ts, tokens file ⟨n, before⟩ = .ok ts := by
  induction hlen : text.length using Nat.strongRecOn generalizing text n with
  | ind k ih =>
    cases text with
    | nil =>
      rw [tokens_nil] at h
      exact nomatch h
    | cons c cs =>
      cases hfirst : Pattern.first? (c :: cs) with
      | none =>
        rw [tokens_none hfirst] at h
        cases h
        exact ⟨[], c, cs, rfl, rfl, Pattern.first?_eq_none_iff.mp hfirst, _, tokens_nil⟩
      | some s =>
        obtain ⟨p, l, rest⟩ := s
        have hshort : rest.length < k := hlen ▸ Pattern.first?_length hfirst
        have happ := (Pattern.split?_append (Pattern.first?_split hfirst)).1
        have htail : tokens file ⟨n + byteLength l, rest⟩ = .error d := by
          rw [tokens_some hfirst] at h
          cases htail : tokens file ⟨n + byteLength l, rest⟩ with
          | error e => rw [htail] at h; cases h; rfl
          | ok ts => rw [htail] at h; exact nomatch h
        obtain ⟨before, e, after, rfl, hd, hnone, ts, hts⟩ := ih _ hshort htail rfl
        have hpart : Pattern.first? (l ++ before) = some (p, l, before) :=
          Pattern.first?_of_append (happ ▸ hfirst)
        refine ⟨l ++ before, e, after, ?_, ?_, hnone, ?_⟩
        · rw [← happ, append_assoc]
        · rw [hd, byteLength_append, Nat.add_assoc]
        · rw [tokens_some hpart, hts]
          exact ⟨_, rfl⟩

end Reader

/-! ## scanning a source -/

/-- the tokens of a source tile it; a source without tokens has a first character at which nothing
starts -/
theorem scan_tiles (source file : String) :
    match scan source file with
    | .ok ts =>
      Tiles source.toList file 0 ts ∧ ts.Pairwise fun t u => t.span.stop ≤ u.span.start
    | .error d => ∃ before c after, source.toList = before ++ c :: after ∧
      d = .atPosition (.unrecognisedToken (String.singleton c)) ⟨byteLength before, file⟩ ∧
      (∀ (p : Pattern) (l rest : List Char), c :: after = l ++ rest → ¬ p.Matches l) ∧
      ∃ ts, scan (String.ofList before) file = .ok ts := by
  split
  · next ts h =>
    have htiles := Reader.tiles [] [] (.inl .nil) h
    exact ⟨htiles, htiles.pairwise⟩
  · next d h =>
    obtain ⟨before, c, after, he, hd, hnone, ts, hts⟩ := Reader.stops h
    refine ⟨before, c, after, he, ?_, hnone, ts, ?_⟩
    · rw [hd, Nat.zero_add]
    · unfold scan Reader.ofText
      rw [String.toList_ofList]
      exact hts

/-- an end marker at the end -/
def EndsWithEof (ts : List Token) : Prop := ∃ front last, ts = front ++ [last] ∧ last.kind = .eof

theorem Tiles.endsWithEof (h : Tiles source file i ts) : EndsWithEof ts := by
  induction h with
  | ending => exact ⟨[], _, rfl, rfl⟩
  | @token _ _ _ t _ _ _ _ _ _ _ _ ih =>
    obtain ⟨front, last, rfl, hlast⟩ := ih
    exact ⟨t :: front, last, rfl, hlast⟩

end TypedScript
