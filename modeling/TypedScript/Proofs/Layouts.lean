import TypedScript.Proofs.Tiling

/-!
# Tokens in any layout

Tokens can be written with any layout between them and are read as they are.  White space has to part
them, since two tokens side by side may be one.  Behind the last token nothing is needed, with one
exception: a comment right behind a slash takes the slash into the comment.
-/

namespace TypedScript

open Text List

/-! ## texts -/

/-- a token as it is written, with the layout behind it -/
structure Laid where
  lexeme : Lexeme
  text : List Char
  gap : List Char
  spells : Spells text lexeme
  layout : Layout gap

/-- the layout starts with white space -/
def Laid.Parted (i : Laid) : Prop := ∃ c cs, i.gap = c :: cs ∧ isBlank c

/-- a slash, and a comment right behind it -/
def Laid.SlashComment (i : Laid) : Prop :=
  i.lexeme = Mark.slash.lexeme ∧ i.gap.head? = some '/'

def laidText : List Laid → List Char
  | [] => []
  | i :: is => i.text ++ (i.gap ++ laidText is)

theorem laidText_append (is js : List Laid) : laidText (is ++ js) = laidText is ++ laidText js := by
  induction is with
  | nil => rfl
  | cons i is ih => simp only [cons_append, laidText, ih, append_assoc]

/-! ## passing layout -/

namespace Reader

variable {file : String} {n : Nat} {text : List Char}

/-- white space is passed in runs, but it could as well be passed one by one -/
theorem tokens_blank (hc : isBlank c = true) :
    tokens file ⟨n, c :: text⟩ = tokens file ⟨n + c.utf8Size, text⟩ := by
  have hrun : (text.takeWhile isBlank).all isBlank = true := all_takeWhile
  have hstops : StopsAt isBlank (text.dropWhile isBlank) := Pattern.stopsAt_dropWhile _ _
  have hall : (c :: text.takeWhile isBlank).all isBlank = true := by
    rw [all_cons, hc, hrun]
    rfl
  have hsplit : text = text.takeWhile isBlank ++ text.dropWhile isBlank :=
    takeWhile_append_dropWhile.symm
  have hfirst := Pattern.first?_blank (l := c :: text.takeWhile isBlank) ⟨nofun, hall⟩ hstops
  rw [cons_append, ← hsplit] at hfirst
  rw [tokens_skip hfirst rfl, byteLength_cons, ← Nat.add_assoc]
  by_cases hnil : text.takeWhile isBlank = []
  · rw [hnil, nil_append] at hsplit
    rw [hnil, ← hsplit]
    rfl
  · have hmore := Pattern.first?_blank ⟨hnil, hrun⟩ hstops
    rw [← hsplit] at hmore
    exact (tokens_skip hmore rfl).symm

theorem tokens_comment {body : List Char} (hbody : body.all (· != '\n') = true) :
    tokens file ⟨n, '/' :: '/' :: (body ++ '\n' :: text)⟩
      = tokens file ⟨n + byteLength ('/' :: '/' :: body) + '\n'.utf8Size, text⟩ := by
  have hstops : StopsAt (· != '\n') ('\n' :: text) := stopsAt_cons rfl
  have hfirst := Pattern.first?_comment ⟨body, rfl, hbody⟩ hstops
  rw [cons_append, cons_append] at hfirst
  rw [tokens_skip hfirst rfl, tokens_blank (by decide)]

theorem tokens_layout (hg : Layout g) :
    tokens file ⟨n, g ++ text⟩ = tokens file ⟨n + byteLength g, text⟩ := by
  induction hg generalizing n with
  | nil => rfl
  | blank hc _ ih => rw [cons_append, tokens_blank hc, ih, byteLength_cons, Nat.add_assoc]
  | comment hbody _ ih =>
    rw [cons_append, cons_append, append_assoc, cons_append,
      tokens_comment hbody, ih]
    simp only [byteLength_cons, byteLength_append, Nat.add_assoc]

/-! ## what is read -/

variable {xs : List Lexeme}

/-- the lexemes of the tokens that are read from a text -/
def Yields (file : String) (n : Nat) (text : List Char) (xs : List Lexeme) : Prop :=
  ∃ ts, tokens file ⟨n, text⟩ = .ok ts ∧ ts.map Token.lexeme = xs

theorem yields_nil : Yields file n [] [(.eof, "EOF")] := ⟨_, tokens_nil, rfl⟩

theorem Yields.layout (hg : Layout g) (h : Yields file (n + byteLength g) text xs) :
    Yields file n (g ++ text) xs := by
  unfold Yields
  rw [tokens_layout hg]
  exact h

theorem Yields.token {l rest : List Char} {x : Lexeme} (hl : Spells l x) (hrest : Parts l rest)
    (h : Yields file (n + byteLength l) rest xs) : Yields file n (l ++ rest) (x :: xs) := by
  obtain ⟨p, hfirst, hread⟩ := Pattern.first?_of_spells hl hrest
  obtain ⟨ts, hts, rfl⟩ := h
  refine ⟨⟨x.1, x.2, ⟨n, n + byteLength l, file⟩⟩ :: ts, ?_, rfl⟩
  rw [tokens_token hfirst hread, hts]
  rfl

end Reader

/-! ## tokens with layout behind them -/

variable {i : Laid}

theorem Spells.eq_slash (h : Spells ['/'] x) : x = Mark.slash.lexeme := by
  obtain ⟨p, hfirst, hread⟩ := Pattern.first?_of_spells h (nofun : Parts ['/'] [])
  have hslash : Pattern.first? ['/'] = some (.mark .slash, ['/'], []) := by decide
  cases hslash.symm.trans hfirst
  exact (Option.some.inj hread).symm

theorem Layout.head (hg : Layout g) : ∀ c ∈ g.head?, isBlank c = true ∨ c = '/' := by
  intro c hc
  cases hg with
  | nil => exact nomatch hc
  | blank hb _ => cases hc; exact .inl hb
  | comment _ _ => cases hc; exact .inr rfl

theorem Laid.Parted.not_slashComment (h : i.Parted) : ¬ i.SlashComment := by
  rintro ⟨_, hslash⟩
  obtain ⟨c, cs, hgap, hc⟩ := h
  rw [hgap] at hslash
  cases hslash
  exact absurd hc (by decide)

theorem Laid.parts (h : ¬ i.SlashComment) (hgap : i.gap = [] → rest = []) : Parts i.text (i.gap ++ rest) := by
  intro c hc
  have hhead : c ∈ i.gap.head? := by
    cases hg : i.gap with
    | nil => rw [hg, hgap hg] at hc; exact nomatch hc
    | cons d ds => rw [hg] at hc; exact hc
  rcases i.layout.head c hhead with hblank | rfl
  · exact .inl hblank
  · refine .inr ⟨rfl, fun htext => h ⟨?_, hhead⟩⟩
    exact (htext ▸ i.spells).eq_slash

theorem Spells.text_eq_slash (h : Spells l Mark.slash.lexeme) : l = ['/'] := by
  generalize hx : Mark.slash.lexeme = x at h
  cases h with
  | mark m =>
    obtain rfl : Mark.slash = m := TokenKind.mark.inj (congrArg Prod.fst hx)
    rfl
  | _ => exact nomatch congrArg Prod.fst hx

/-- a slash with a comment behind it is a comment as a whole -/
theorem Laid.SlashComment.layout (h : i.SlashComment) : Layout (i.text ++ i.gap) := by
  obtain ⟨hlexeme, hhead⟩ := h
  have htext : i.text = ['/'] := (hlexeme ▸ i.spells).text_eq_slash
  rw [htext]
  have hgap := i.layout
  generalize i.gap = g at hgap hhead
  cases hgap with
  | nil => exact nomatch hhead
  | blank hc _ => cases hhead; exact absurd hc (by decide)
  | @comment body cs hbody hcs =>
    have hslash : ('/' :: body).all (· != '\n') = true := by
      rw [all_cons, hbody]
      rfl
    exact .comment hslash hcs

/-! ## texts of tokens -/

variable {xs : List Lexeme} {text : List Char} {file : String}

theorem yields_laidText {is : List Laid} (hparted : ∀ i ∈ is, i.Parted)
    (h : Reader.Yields file (n + byteLength (laidText is)) text xs) :
    Reader.Yields file n (laidText is ++ text) (is.map Laid.lexeme ++ xs) := by
  induction is generalizing n with
  | nil => exact h
  | cons i is ih =>
    have hi : i.Parted := hparted i mem_cons_self
    rw [laidText, byteLength_append, byteLength_append, ← Nat.add_assoc, ← Nat.add_assoc] at h
    have htail := ih (fun j hj => hparted j (mem_cons_of_mem i hj)) h
    rw [laidText, append_assoc, append_assoc]
    refine .token i.spells (Laid.parts hi.not_slashComment ?_) (.layout i.layout htail)
    intro hnil
    obtain ⟨c, cs, hgap, _⟩ := hi
    exact nomatch hgap.symm.trans hnil

theorem scan_lexemes_iff (h : Reader.Yields file 0 text xs) (ys : List Lexeme) :
    (∃ ts, scan (String.ofList text) file = .ok ts ∧ ts.map Token.lexeme = ys) ↔ xs = ys := by
  obtain ⟨ts, hts, rfl⟩ := h
  have hscan : scan (String.ofList text) file = .ok ts := by
    unfold scan Reader.ofText
    rw [String.toList_ofList, hts]
  rw [hscan]
  constructor
  · rintro ⟨us, hus, rfl⟩
    cases hus
    rfl
  · intro he
    exact ⟨ts, rfl, he⟩

section

variable {file : String} {n : Nat} {js : List Laid} {i : Laid} (hinner : ∀ j ∈ js, j.Parted)
include hinner

theorem yields_concat (hi : ¬ i.SlashComment) : Reader.Yields file n (laidText (js ++ [i]))
    ((js ++ [i]).map Laid.lexeme ++ [(.eof, "EOF")]) := by
  rw [laidText_append, map_append, append_assoc]
  exact yields_laidText hinner
    (.token i.spells (Laid.parts hi fun _ => rfl) (.layout i.layout Reader.yields_nil))

/-- the slash is part of the comment, so that one token less is read -/
theorem yields_concat_slashComment (hi : i.SlashComment) :
    Reader.Yields file n (laidText (js ++ [i])) (js.map Laid.lexeme ++ [(.eof, "EOF")]) := by
  have htext : laidText [i] = i.text ++ i.gap ++ [] := (append_assoc _ _ _).symm
  rw [laidText_append, htext]
  exact yields_laidText hinner (.layout hi.layout Reader.yields_nil)

end

/-- tokens in layout are read as they are, unless the last one is a slash that the comment behind it
takes in -/
theorem scan_layout_iff (file : String) (lead : List Char) (is : List Laid) (hlead : Layout lead)
    (hinner : ∀ i ∈ is.dropLast, i.Parted) :
    (∃ ts, scan (String.ofList (lead ++ laidText is)) file = .ok ts ∧
      ts.map Token.lexeme = is.map Laid.lexeme ++ [(.eof, "EOF")]) ↔
    ∀ i ∈ is.getLast?, ¬ i.SlashComment := by
  rcases eq_nil_or_concat is with rfl | ⟨js, i, hjs⟩
  · refine (scan_lexemes_iff (.layout hlead Reader.yields_nil) _).trans ?_
    exact ⟨fun _ => nofun, fun _ => rfl⟩
  rw [concat_eq_append] at hjs
  rw [hjs, dropLast_concat] at hinner
  have hlast : (∀ k ∈ is.getLast?, ¬ k.SlashComment) ↔ ¬ i.SlashComment := by
    rw [hjs, List.getLast?_concat]
    exact ⟨fun h => h i rfl, fun h k hk => by cases hk; exact h⟩
  rw [hlast, hjs]
  by_cases hi : i.SlashComment
  · refine (scan_lexemes_iff (.layout hlead (yields_concat_slashComment hinner hi)) _).trans ?_
    refine ⟨fun he => ?_, fun h => absurd hi h⟩
    have hlength := congrArg List.length he
    simp at hlength
  · refine (scan_lexemes_iff (.layout hlead (yields_concat hinner hi)) _).trans ?_
    exact ⟨fun _ => hi, fun _ => rfl⟩

/-- a name with a comment behind it, a long number, and a slash at the end -/
def laidSample : List Laid :=
  [⟨nameLexeme "a", "a".toList, " //b\n".toList, .name (x := "a") (by decide),
      .blank (by decide) (@Layout.comment ['b'] [] (by decide) .nil)⟩,
   ⟨(.longNumber, "07"), "07".toList ++ ['n'], ['\t'], .long (x := "07") (by decide),
      .blank (by decide) .nil⟩,
   ⟨Mark.slash.lexeme, ['/'], [], .mark .slash, .nil⟩]

theorem scan_layout_iff_sample :
    (Layout ['\n'] ∧ ∀ i ∈ laidSample.dropLast, i.Parted) ∧
    ∃ ts, scan (String.ofList ('\n' :: laidText laidSample)) "a.sc" = .ok ts ∧
      ts.map Token.lexeme
        = [(.identifier, "a"), (.longNumber, "07"), (.mark .slash, "/"), (.eof, "EOF")] := by
  have hlead : Layout ['\n'] := .blank (by decide) .nil
  have hparted : ∀ i ∈ laidSample.dropLast, i.Parted := by
    intro i hi
    rcases mem_cons.mp hi with rfl | hi
    · exact ⟨' ', _, rfl, by decide⟩
    · obtain rfl := mem_singleton.mp hi
      exact ⟨'\t', _, rfl, by decide⟩
  refine ⟨⟨hlead, hparted⟩, (scan_layout_iff "a.sc" ['\n'] laidSample hlead hparted).mpr ?_⟩
  intro i hi hslash
  cases hi
  exact nomatch hslash.2

/-- a slash and a comment right behind it: nothing but a comment is read -/
theorem scan_layout_slash_comment :
    ∃ i : Laid, i.text = ['/'] ∧ i.gap = "//\n".toList ∧ i.lexeme = Mark.slash.lexeme ∧
      ¬ ∃ ts, scan (String.ofList (laidText [i])) "a.sc" = .ok ts ∧
        ts.map Token.lexeme = [Mark.slash.lexeme, (.eof, "EOF")] := by
  refine ⟨⟨Mark.slash.lexeme, ['/'], "//\n".toList, .mark .slash, @Layout.comment [] [] rfl .nil⟩,
    rfl, rfl, rfl, ?_⟩
  have hyields : Reader.Yields "a.sc" 0 ['/', '/', '/', '\n'] [(.eof, "EOF")] :=
    .layout (@Layout.comment ['/'] [] (by decide) .nil) Reader.yields_nil
  exact fun h => nomatch (scan_lexemes_iff hyields _).mp h

end TypedScript
