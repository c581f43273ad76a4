import TypedScript.Proofs.Writing

/-!
# The lexemes of a source text

What the patterns of the scanner look for, as classes of texts.  A pattern cuts a text of its class
from the front of a text, and it cuts nothing only if no front part is in its class.  Runs of
characters and comments are cut as far as they go; all other lexemes show by themselves where they end.
-/

namespace TypedScript

open Text List

/-- a text that does not start with a character of a class -/
def StopsAt (p : Char → Bool) (rest : List Char) : Prop := ∀ c ∈ rest.head?, p c = false

theorem stopsAt_nil (p : Char → Bool) : StopsAt p [] := nofun

theorem stopsAt_cons (h : p c = false) : StopsAt p (c :: cs) := by
  intro d hd
  cases hd
  exact h

/-! ## string literals -/

/-- a text without bare quotes, in which every backslash protects the character after it -/
inductive Protected : List Char → Prop
  | nil : Protected []
  | plain : c ≠ '"' → c ≠ '\\' → Protected cs → Protected (c :: cs)
  | escaped : c ≠ '\n' → Protected cs → Protected ('\\' :: c :: cs)

/-- what the text between the quotes of a string stands for, escape by escape -/
inductive Denotes : List Char → List Char → Prop
  | nil : Denotes [] []
  | plain : c ≠ '"' → c ≠ '\\' → Denotes cs vs → Denotes (c :: cs) (c :: vs)
  | simple : simpleEscape? c = some v → Denotes cs vs → Denotes ('\\' :: c :: cs) (v :: vs)
  | hexPair : isHexDigit a → isHexDigit b → Denotes cs vs →
    Denotes ('\\' :: 'x' :: a :: b :: cs) (Char.ofNat (16 * hexValue a + hexValue b) :: vs)
  | hexDigit : isHexDigit a → StopsAt isHexDigit cs → Denotes cs vs →
    Denotes ('\\' :: 'x' :: a :: cs) (Char.ofNat (hexValue a) :: vs)
  | noHex : StopsAt isHexDigit cs → Denotes cs vs → Denotes ('\\' :: 'x' :: cs) ('\\' :: 'x' :: vs)
  | other : simpleEscape? c = none → c ≠ 'x' → c ≠ '\n' → Denotes cs vs →
    Denotes ('\\' :: c :: cs) ('\\' :: c :: vs)

theorem ne_of_isHexDigit (ha : isHexDigit a = true) (hb : isHexDigit b = false) : a ≠ b := by
  rintro rfl
  exact absurd ha (by rw [hb]; exact Bool.false_ne_true)

theorem newline_ne_of_simpleEscape? (h : simpleEscape? c = some v) : c ≠ '\n' := by
  rintro rfl
  exact nomatch h

theorem Denotes.protected (h : Denotes cs vs) : Protected cs := by
  induction h with
  | nil => exact .nil
  | plain hq hb _ ih => exact .plain hq hb ih
  | simple hc _ ih => exact .escaped (newline_ne_of_simpleEscape? hc) ih
  | hexPair ha hb _ ih =>
    exact .escaped (by decide) (.plain (ne_of_isHexDigit ha rfl) (ne_of_isHexDigit ha rfl)
      (.plain (ne_of_isHexDigit hb rfl) (ne_of_isHexDigit hb rfl) ih))
  | hexDigit ha _ _ ih =>
    exact .escaped (by decide) (.plain (ne_of_isHexDigit ha rfl) (ne_of_isHexDigit ha rfl) ih)
  | noHex _ _ ih => exact .escaped (by decide) ih
  | other _ _ hn _ ih => exact .escaped hn ih

/-! ### reading escapes -/

variable {cs : List Char} {c : Char}

theorem simpleEscape?_x : simpleEscape? 'x' = none := rfl

theorem unescape_singleton (c : Char) : unescape [c] = [c] := by
  by_cases hc : c = '\\'
  · rw [hc]
    rfl
  · rw [unescape]
    · rfl
    all_goals grind

theorem unescape_noHex (h : StopsAt isHexDigit cs) :
    unescape ('\\' :: 'x' :: cs) = '\\' :: 'x' :: unescape cs := by
  match cs with
  | [] => rfl
  | [a] =>
    have ha : isHexDigit a = false := h a rfl
    rw [unescape_singleton, unescape.eq_def]
    simp only [simpleEscape?_x, ha, Bool.false_eq_true, if_pos, if_false]
  | a :: b :: rest =>
    have ha : isHexDigit a = false := h a rfl
    rw [unescape.eq_def]
    simp only [simpleEscape?_x, ha, Bool.false_eq_true, if_pos, if_false]

theorem unescape_hexDigit (ha : isHexDigit a = true) (h : StopsAt isHexDigit cs) :
    unescape ('\\' :: 'x' :: a :: cs) = Char.ofNat (hexValue a) :: unescape cs := by
  rw [unescape.eq_def]
  cases cs with
  | nil => simp only [simpleEscape?_x, ha, if_pos, unescape]
  | cons b rest =>
    have hb : isHexDigit b = false := h b rfl
    simp only [simpleEscape?_x, ha, hb, Bool.false_eq_true, if_pos, if_false]

theorem Denotes.unescape_eq (h : Denotes cs vs) : unescape cs = vs := by
  induction h with
  | nil => rfl
  | plain _ hb _ ih => rw [unescape_plain hb, ih]
  | simple hc _ ih =>
    rw [unescape.eq_def]
    simp only [hc, ih]
  | hexPair ha hb _ ih =>
    rw [unescape.eq_def]
    simp only [simpleEscape?_x, if_pos, ha, hb, ih]
  | hexDigit ha hn _ ih => rw [unescape_hexDigit ha hn, ih]
  | noHex hn _ ih => rw [unescape_noHex hn, ih]
  | other hc hx _ _ ih =>
    rw [unescape.eq_def]
    simp only [hc, if_neg hx, ih]

theorem Protected.tail (h : Protected (c :: cs)) (hc : c ≠ '\\') : c ≠ '"' ∧ Protected cs := by
  cases h with
  | plain hq _ hcs => exact ⟨hq, hcs⟩
  | escaped _ _ => exact absurd rfl hc

theorem Protected.escape (h : Protected ('\\' :: c :: cs)) : c ≠ '\n' ∧ Protected cs := by
  cases h with
  | plain _ hb _ => exact absurd rfl hb
  | escaped hn hcs => exact ⟨hn, hcs⟩

theorem not_protected_backslash : ¬ Protected ['\\'] := by
  intro h
  cases h with
  | plain _ hb _ => exact hb rfl

/-- every protected text stands for something: each escape takes characters that are protected -/
theorem Protected.denotes (h : Protected cs) : Denotes cs (unescape cs) := by
  fun_induction unescape cs with
  | case1 => exact .nil
  | case2 => exact absurd h not_protected_backslash
  | case3 c cs v hv ih => exact .simple hv (ih h.escape.2)
  | case4 a b rest ha hb _ ih =>
    have hab := h.escape.2.tail (ne_of_isHexDigit ha rfl)
    exact .hexPair ha hb (ih (hab.2.tail (ne_of_isHexDigit hb rfl)).2)
  | case5 a b rest ha hb _ ih =>
    refine .hexDigit ha ?_ (ih (h.escape.2.tail (ne_of_isHexDigit ha rfl)).2)
    exact stopsAt_cons (Bool.eq_false_iff.mpr hb)
  | case6 a b rest ha _ ih =>
    exact .noHex (stopsAt_cons (Bool.eq_false_iff.mpr ha)) (ih h.escape.2)
  | case7 a ha _ => exact .hexDigit ha (stopsAt_nil _) .nil
  | case8 a ha _ =>
    refine .noHex (stopsAt_cons (Bool.eq_false_iff.mpr ha)) ?_
    have hb : a ≠ '\\' := fun e => not_protected_backslash (e ▸ h.escape.2)
    exact .plain (h.escape.2.tail hb).1 hb .nil
  | case9 => exact .noHex (stopsAt_nil _) .nil
  | case10 c cs hc hx ih => exact .other hc hx h.escape.1 (ih h.escape.2)
  | case11 c cs hnil hcons ih =>
    have hb : c ≠ '\\' := by
      intro e
      cases cs with
      | nil => exact hnil e rfl
      | cons d ds => exact hcons d ds e rfl
    exact .plain (h.tail hb).1 hb (ih (h.tail hb).2)

/-! ## the classes of patterns -/

namespace Pattern

/-- the texts that a pattern looks for -/
def Matches : Pattern → List Char → Prop
  | word, l => ∃ c cs, l = c :: cs ∧ isWordStart c ∧ cs.all isWordPart
  | longNumber, l => ∃ ds, l = ds ++ ['n'] ∧ ds ≠ [] ∧ ds.all isDigit
  | number, l => l ≠ [] ∧ l.all isDigit
  | blank, l => l ≠ [] ∧ l.all isBlank
  | string, l => ∃ body, l = '"' :: (body ++ ['"']) ∧ Protected body
  | comment, l => ∃ body, l = '/' :: '/' :: body ∧ body.all (· != '\n')
  | mark m, l => l = m.spelling.toList

/-- what may follow a lexeme of a pattern: runs of characters are cut as far as they go -/
def Stops : Pattern → List Char → Prop
  | word => StopsAt isWordPart
  | number => StopsAt isDigit
  | blank => StopsAt isBlank
  | comment => StopsAt (· != '\n')
  | _ => fun _ => True

/-! ### runs of characters -/

variable {l rest text : List Char} {p : Char → Bool}

theorem stopsAt_dropWhile (p : Char → Bool) (text : List Char) : StopsAt p (text.dropWhile p) := by
  intro c hc
  have h := List.head?_dropWhile_not p text
  rw [Option.mem_def.mp hc] at h
  exact h

theorem takeWhile_of_stopsAt (hl : l.all p)
    (hrest : StopsAt p rest) : (l ++ rest).takeWhile p = l ∧ (l ++ rest).dropWhile p = rest := by
  have hall : ∀ c ∈ l, p c = true := all_eq_true.mp hl
  rw [takeWhile_append_of_pos hall, dropWhile_append_of_pos hall]
  cases rest with
  | nil => exact ⟨append_nil l, rfl⟩
  | cons c rest =>
    have hc : ¬ p c = true := Bool.eq_false_iff.mp (hrest c rfl)
    rw [takeWhile_cons_of_neg hc, dropWhile_cons_of_neg hc]
    exact ⟨append_nil l, rfl⟩

theorem run?_eq_some_iff :
    run? p text = some (l, rest) ↔ text = l ++ rest ∧ (l ≠ [] ∧ l.all p) ∧ StopsAt p rest := by
  constructor
  · intro h
    obtain ⟨happ, hne⟩ := run?_append h
    unfold run? at h
    split at h
    · exact nomatch h
    · cases h
      exact ⟨happ.symm, ⟨hne, all_takeWhile⟩, stopsAt_dropWhile p text⟩
  · rintro ⟨rfl, ⟨hne, hall⟩, hrest⟩
    obtain ⟨ht, hd⟩ := takeWhile_of_stopsAt hall hrest
    unfold run?
    rw [ht, hd, if_neg hne]

theorem run?_eq_none_iff : run? p text = none ↔ StopsAt p text := by
  unfold run?
  cases text with
  | nil => exact ⟨fun _ => nofun, fun _ => rfl⟩
  | cons c cs =>
    by_cases hc : p c = true
    · rw [takeWhile_cons_of_pos hc]
      exact ⟨nofun, fun h => absurd hc (Bool.eq_false_iff.mp (h c rfl))⟩
    · rw [takeWhile_cons_of_neg hc]
      refine ⟨fun _ d hd => ?_, fun _ => rfl⟩
      cases hd
      exact Bool.eq_false_iff.mpr hc

/-! ### strings and marks -/

theorem stringBody?_of_protected (h : Protected body) (rest : List Char) :
    stringBody? (body ++ '"' :: rest) = some (body ++ ['"'], rest) := by
  induction h with
  | nil => rfl
  | @plain c cs hq hb hcs ih =>
    rw [cons_append, stringBody?]
    · rw [ih]
      rfl
    all_goals grind
  | @escaped c cs hn hcs ih =>
    rw [cons_append, cons_append, stringBody?, if_neg hn, ih]
    rfl

theorem stringBody?_eq_some (h : stringBody? text = some (l, rest)) :
    ∃ body, l = body ++ ['"'] ∧ Protected body := by
  fun_induction stringBody? text generalizing l rest with
  | case1 | case3 | case4 => cases h
  | case2 cs => cases h; exact ⟨[], rfl, .nil⟩
  | case5 c cs hn ih =>
    obtain ⟨⟨a, b⟩, hab, he⟩ := Option.map_eq_some_iff.mp h
    cases he
    obtain ⟨body, rfl, hbody⟩ := ih hab
    exact ⟨'\\' :: c :: body, rfl, .escaped hn hbody⟩
  | case6 c cs hq hnil hcons ih =>
    obtain ⟨⟨a, b⟩, hab, he⟩ := Option.map_eq_some_iff.mp h
    cases he
    obtain ⟨body, rfl, hbody⟩ := ih hab
    have hb : c ≠ '\\' := by
      intro e
      cases cs with
      | nil => exact hnil e rfl
      | cons d ds => exact hcons d ds e rfl
    exact ⟨c :: body, rfl, .plain hq hb hbody⟩

theorem after?_eq_some_iff : after? a text = some rest ↔ text = a ++ rest := by
  refine ⟨fun h => (after?_append h).symm, ?_⟩
  rintro rfl
  induction a with
  | nil => cases rest <;> rfl
  | cons c a ih => rw [cons_append, after?, if_pos rfl, ih]

/-! ### cutting a lexeme -/

variable {p : Pattern}

theorem matches_of_split? (h : p.split? text = some (l, rest)) : p.Matches l ∧ p.Stops rest := by
  unfold split? at h
  split at h
  · next c cs =>
    split at h
    · next hc =>
      cases h
      exact ⟨⟨c, _, rfl, hc, all_takeWhile⟩, stopsAt_dropWhile _ _⟩
    · exact nomatch h
  · split at h
    · next ds tail hrun =>
      cases h
      obtain ⟨_, ⟨hne, hall⟩, _⟩ := run?_eq_some_iff.mp hrun
      exact ⟨⟨ds, rfl, hne, hall⟩, trivial⟩
    · exact nomatch h
  · exact (run?_eq_some_iff.mp h).2
  · exact (run?_eq_some_iff.mp h).2
  · obtain ⟨⟨a, b⟩, hab, he⟩ := Option.map_eq_some_iff.mp h
    cases he
    obtain ⟨body, rfl, hbody⟩ := stringBody?_eq_some hab
    exact ⟨⟨body, rfl, hbody⟩, trivial⟩
  · cases h
    exact ⟨⟨_, rfl, all_takeWhile⟩, stopsAt_dropWhile _ _⟩
  · obtain ⟨r, _, he⟩ := Option.map_eq_some_iff.mp h
    cases he
    exact ⟨rfl, trivial⟩
  · exact nomatch h

theorem split?_of_matches (hl : p.Matches l) (hrest : p.Stops rest) :
    p.split? (l ++ rest) = some (l, rest) := by
  cases p with
  | word =>
    obtain ⟨c, cs, rfl, hc, hcs⟩ := hl
    obtain ⟨ht, hd⟩ := takeWhile_of_stopsAt hcs hrest
    rw [cons_append, split?, if_pos hc, ht, hd]
  | longNumber =>
    obtain ⟨ds, rfl, hne, hds⟩ := hl
    have hrun : run? isDigit (ds ++ 'n' :: rest) = some (ds, 'n' :: rest) :=
      run?_eq_some_iff.mpr ⟨rfl, ⟨hne, hds⟩, stopsAt_cons rfl⟩
    rw [append_assoc, singleton_append, split?, hrun]
    rfl
  | number | blank => exact run?_eq_some_iff.mpr ⟨rfl, hl, hrest⟩
  | string =>
    obtain ⟨body, rfl, hbody⟩ := hl
    rw [cons_append, append_assoc, singleton_append, split?,
      stringBody?_of_protected hbody]
    rfl
  | comment =>
    obtain ⟨body, rfl, hbody⟩ := hl
    obtain ⟨ht, hd⟩ := takeWhile_of_stopsAt hbody hrest
    rw [cons_append, cons_append, split?, ht, hd]
  | mark m =>
    rw [hl, split?, after?_eq_some_iff.mpr rfl]
    rfl

/-- a pattern cuts the texts of its class, as far as they go -/
theorem split?_eq_some_iff :
    p.split? text = some (l, rest) ↔ text = l ++ rest ∧ p.Matches l ∧ p.Stops rest := by
  constructor
  · intro h
    exact ⟨(split?_append h).1.symm, matches_of_split? h⟩
  · rintro ⟨rfl, hl, hrest⟩
    exact split?_of_matches hl hrest

/-- a front part of the class is enough: what is cut may be longer -/
theorem split?_ne_none (hl : p.Matches l) (rest : List Char) : p.split? (l ++ rest) ≠ none := by
  cases p with
  | word =>
    obtain ⟨c, cs, rfl, hc, _⟩ := hl
    rw [cons_append, split?, if_pos hc]
    exact nofun
  | longNumber | string | mark m => rw [split?_of_matches hl trivial]; exact nofun
  | number | blank =>
    obtain ⟨hne, hall⟩ := hl
    obtain ⟨c, cs, rfl⟩ := exists_cons_of_ne_nil hne
    have hc := all_eq_true.mp hall c mem_cons_self
    exact fun h => absurd (run?_eq_none_iff.mp h c rfl) (by rw [hc]; exact nofun)
  | comment =>
    obtain ⟨body, rfl, _⟩ := hl
    exact nofun

theorem split?_eq_none_iff : p.split? text = none ↔ ∀ l rest, text = l ++ rest → ¬ p.Matches l := by
  constructor
  · rintro h l rest rfl hl
    exact split?_ne_none hl rest h
  · intro h
    cases hs : p.split? text with
    | none => rfl
    | some s =>
      obtain ⟨l, rest⟩ := s
      obtain ⟨rfl, hl, _⟩ := split?_eq_some_iff.mp hs
      exact absurd hl (h l rest rfl)

/-! ### the first pattern -/

variable {more : List Char}

@[simp] theorem mem_table (p : Pattern) : p ∈ table := by
  cases p with
  | mark m => exact mem_append_right _ (mem_map_of_mem (Mark.mem_all m))
  | _ => exact mem_append_left _ (by decide)

theorem first?_eq_some_iff :
    first? text = some (p, l, rest) ↔ ∃ before after, table = before ++ p :: after ∧
      p.split? text = some (l, rest) ∧ ∀ q ∈ before, q.split? text = none := by
  unfold first?
  rw [List.findSome?_eq_some_iff]
  constructor
  · rintro ⟨before, q, after, htable, hq, hbefore⟩
    obtain ⟨s, hs, he⟩ := Option.map_eq_some_iff.mp hq
    cases he
    exact ⟨before, after, htable, hs, fun r hr => Option.map_eq_none_iff.mp (hbefore r hr)⟩
  · rintro ⟨before, after, htable, hp, hbefore⟩
    refine ⟨before, p, after, htable, by rw [hp]; rfl, fun q hq => ?_⟩
    rw [hbefore q hq]
    rfl

theorem first?_eq_none_iff :
    first? text = none ↔ ∀ (p : Pattern) (l rest : List Char), text = l ++ rest → ¬ p.Matches l := by
  unfold first?
  rw [List.findSome?_eq_none_iff]
  constructor
  · intro h p
    exact split?_eq_none_iff.mp (Option.map_eq_none_iff.mp (h p (mem_table p)))
  · intro h p _
    rw [split?_eq_none_iff.mpr (h p)]
    rfl

theorem Stops.of_append (h : p.Stops (rest ++ more)) : p.Stops rest := by
  have hstops : ∀ q : Char → Bool, StopsAt q (rest ++ more) → StopsAt q rest := by
    intro q hq
    cases rest with
    | nil => exact stopsAt_nil q
    | cons c cs => exact hq
  cases p with
  | word | number | blank | comment => exact hstops _ h
  | longNumber | string | mark m => trivial

theorem first?_of_append (h : first? (l ++ (rest ++ more)) = some (p, l, rest ++ more)) :
    first? (l ++ rest) = some (p, l, rest) := by
  obtain ⟨before, after, htable, hsplit, hbefore⟩ := first?_eq_some_iff.mp h
  obtain ⟨_, hl, hstops⟩ := split?_eq_some_iff.mp hsplit
  refine first?_eq_some_iff.mpr ⟨before, after, htable, split?_of_matches hl hstops.of_append, ?_⟩
  intro q hq
  refine split?_eq_none_iff.mpr fun m tail he => ?_
  refine split?_eq_none_iff.mp (hbefore q hq) m (tail ++ more) ?_
  rw [← append_assoc, he, append_assoc]

/-! ### how lexemes start -/

/-- the characters with which the lexemes of a pattern start -/
def opens : Pattern → Char → Bool
  | word => isWordStart
  | longNumber => isDigit
  | number => isDigit
  | blank => isBlank
  | string => (· == '"')
  | comment => (· == '/')
  | mark m => fun c => m.spelling.toList.head? == some c

theorem opens_of_matches (h : p.Matches (c :: cs)) : p.opens c = true := by
  cases p with
  | word => obtain ⟨d, ds, he, hd, _⟩ := h; cases he; exact hd
  | longNumber =>
    obtain ⟨ds, he, hne, hds⟩ := h
    obtain ⟨d, ds, rfl⟩ := exists_cons_of_ne_nil hne
    cases he
    exact all_eq_true.mp hds c mem_cons_self
  | number | blank => exact all_eq_true.mp h.2 c mem_cons_self
  | string | comment => obtain ⟨body, he, _⟩ := h; cases he; rfl
  | mark m =>
    have hm : m.spelling.toList = c :: cs := h.symm
    show (m.spelling.toList.head? == some c) = true
    rw [hm]
    exact beq_self_eq_true _

theorem not_matches_nil (p : Pattern) : ¬ p.Matches [] := by
  cases p with
  | word => rintro ⟨c, cs, he, _⟩; exact nomatch he
  | longNumber => rintro ⟨ds, he, hne, _⟩; exact hne (append_eq_nil_iff.mp he.symm).1
  | number | blank => exact fun h => h.1 rfl
  | string | comment => rintro ⟨body, he, _⟩; exact nomatch he
  | mark m => exact fun h => mark_spelling_ne_nil m h.symm

theorem split?_eq_none_of_opens (cs : List Char) (h : p.opens c = false) : p.split? (c :: cs) = none := by
  refine split?_eq_none_iff.mpr fun l rest he hl => ?_
  cases l with
  | nil => exact not_matches_nil p hl
  | cons d ds =>
    cases he
    rw [opens_of_matches hl] at h
    exact nomatch h

/-! ### characters -/

theorem isDigit_iff (c : Char) : isDigit c = true ↔ 48 ≤ c.toNat ∧ c.toNat ≤ 57 := by
  simp [isDigit, Char.le_def, UInt32.le_iff_toNat_le]

theorem isWordStart_iff (c : Char) : isWordStart c = true ↔
    (97 ≤ c.toNat ∧ c.toNat ≤ 122) ∨ (65 ≤ c.toNat ∧ c.toNat ≤ 90) ∨ c.toNat = 95 := by
  have h95 : c = '_' ↔ c.toNat = 95 := ⟨fun h => by rw [h]; rfl, fun h => Char.toNat_inj.mp h⟩
  simp [isWordStart, Char.le_def, UInt32.le_iff_toNat_le, h95, or_assoc]

theorem not_isWordStart_of_isDigit (h : isDigit c = true) : isWordStart c = false := by
  rw [isDigit_iff] at h
  rw [Bool.eq_false_iff, ne_eq, isWordStart_iff]
  omega

theorem not_isWordPart_of_isBlank (h : isBlank c = true) : isWordPart c = false := by
  simp only [isBlank, blankRanges, inRanges_cons, inRanges_nil, Bool.or_eq_true, Bool.and_eq_true,
    decide_eq_true_eq, Bool.false_eq_true, or_false] at h
  rw [Bool.eq_false_iff, ne_eq, isWordPart, Bool.or_eq_true, isWordStart_iff, isDigit_iff]
  omega

end Pattern

/-! ## marks -/

namespace Mark

variable {m : Mark}

/-- the marks that are tried before a mark -/
def earlier (m : Mark) : List Mark := all.takeWhile (· != m)

theorem exists_all_eq (m : Mark) : ∃ later, all = m.earlier ++ m :: later := by
  cases m <;> exact ⟨_, rfl⟩

theorem not_prefix_of_earlier (h : n ∈ m.earlier) : ¬ n.spelling.toList <+: m.spelling.toList := by
  revert n
  cases m <;> decide

theorem of_mem_tail (h : c ∈ m.spelling.toList.tail) : isBlank c = false ∧ c ≠ '/' := by
  have hall : m.spelling.toList.tail.all (fun c => !isBlank c && c != '/') = true := by
    cases m <;> decide
  have hc := all_eq_true.mp hall c h
  rw [Bool.and_eq_true, Bool.not_eq_true', bne_iff_ne] at hc
  exact hc

theorem opens_head (m : Mark) : ∃ c cs, m.spelling.toList = c :: cs ∧
    ∀ p ∈ [Pattern.word, .longNumber, .number, .blank, .string], p.opens c = false := by
  cases m <;> exact ⟨_, _, rfl, by decide⟩

theorem eq_slash (h : m.spelling.toList = '/' :: cs) : m = slash := by
  revert cs
  cases m <;> simp [spelling]

end Mark

/-! ## tokens -/

variable {x : String}

/-- the texts that stand for a token, the token being given by its kind and value -/
inductive Spells : List Char → Lexeme → Prop
  | keyword (k : Keyword) : Spells k.spelling.toList k.lexeme
  | name {x : String} : isName x → Spells x.toList (nameLexeme x)
  | number {x : String} : isNumeral x → Spells x.toList (.number, x)
  | long {x : String} : isNumeral x → Spells (x.toList ++ ['n']) (.longNumber, x)
  | string : Denotes body value → Spells ('"' :: (body ++ ['"'])) (.string, String.ofList value)
  | mark (m : Mark) : Spells m.spelling.toList m.lexeme

theorem Keyword.spelling_of_ofSpelling? (h : Keyword.ofSpelling? word = some k) : k.spelling = word := by
  have hk : (k.spelling == word) = true := List.find?_some (p := fun j : Keyword => j.spelling == word) h
  exact beq_iff_eq.mp hk

theorem Keyword.ofSpelling?_spelling (k : Keyword) : Keyword.ofSpelling? k.spelling = some k := by
  cases k <;> decide

theorem Keyword.matches_word (k : Keyword) : Pattern.word.Matches k.spelling.toList := by
  cases k <;> exact ⟨_, _, rfl, by decide⟩

theorem matches_word_of_isName (h : isName x = true) : Pattern.word.Matches x.toList := by
  unfold isName at h
  split at h
  · cases h
  · next c cs hx =>
    rw [Bool.and_eq_true, Bool.and_eq_true] at h
    exact ⟨c, cs, hx, h.1.1, h.1.2⟩

theorem ofSpelling?_of_isName (h : isName x = true) : Keyword.ofSpelling? x = none := by
  unfold isName at h
  split at h
  · cases h
  · rw [Bool.and_eq_true] at h
    exact Option.isNone_iff_eq_none.mp h.2

theorem matches_number_iff : Pattern.number.Matches x.toList ↔ isNumeral x = true := by
  unfold isNumeral
  rw [Bool.and_eq_true, Bool.not_eq_true', isEmpty_eq_false_iff]
  exact Iff.rfl

theorem spells_of_read {p : Pattern} {x : Lexeme} (hl : p.Matches l) (h : p.read l = some x) :
    Spells l x := by
  cases p with
  | word =>
    simp only [Pattern.read] at h
    split at h
    · next k hk =>
      cases h
      have hspell : k.spelling = String.ofList l := Keyword.spelling_of_ofSpelling? hk
      have := Spells.keyword k
      rw [Keyword.lexeme, hspell, String.toList_ofList] at this
      exact this
    · next hk =>
      cases h
      obtain ⟨c, cs, rfl, hc, hcs⟩ := hl
      have hname : isName (String.ofList (c :: cs)) = true := by
        unfold isName
        rw [hk, String.toList_ofList]
        simp only [hc, hcs, Option.isNone_none, Bool.and_self]
      have := Spells.name hname
      rwa [String.toList_ofList] at this
  | longNumber =>
    cases h
    obtain ⟨ds, rfl, hne, hds⟩ := hl
    rw [dropLast_concat]
    have hnumeral : isNumeral (String.ofList ds) = true :=
      matches_number_iff.mp (by rw [String.toList_ofList]; exact ⟨hne, hds⟩)
    have := Spells.long hnumeral
    rwa [String.toList_ofList] at this
  | number =>
    cases h
    have hnumeral : isNumeral (String.ofList l) = true :=
      matches_number_iff.mp (by rw [String.toList_ofList]; exact hl)
    have := Spells.number hnumeral
    rwa [String.toList_ofList] at this
  | blank | comment => exact nomatch h
  | string =>
    cases h
    obtain ⟨body, rfl, hbody⟩ := hl
    rw [drop_one, tail_cons, dropLast_concat]
    exact .string hbody.denotes
  | mark m =>
    cases h
    rw [hl]
    exact .mark m

/-! ## tokens with something behind them -/

variable {rest : List Char}

/-- what may stand behind a token without changing it: nothing, white space, or a comment, unless the
token is a slash -/
def Parts (l rest : List Char) : Prop :=
  ∀ c ∈ rest.head?, isBlank c = true ∨ c = '/' ∧ l ≠ ['/']

theorem Parts.stopsAt (h : Parts l rest) : StopsAt isWordPart rest := by
  intro c hc
  rcases h c hc with hblank | ⟨rfl, _⟩
  · exact Pattern.not_isWordPart_of_isBlank hblank
  · rfl

theorem StopsAt.mono (h : StopsAt p rest) (hq : ∀ c, q c = true → p c = true) : StopsAt q rest := by
  intro c hc
  have hp := h c hc
  cases hqc : q c with
  | false => rfl
  | true => exact absurd (hq c hqc) (by rw [hp]; exact nofun)

namespace Pattern

variable {l : List Char} {m : Mark}

theorem first?_word (hl : word.Matches l) (h : StopsAt isWordPart rest) :
    first? (l ++ rest) = some (word, l, rest) :=
  first?_eq_some_iff.mpr ⟨[], _, rfl, split?_of_matches hl h, nofun⟩

theorem first?_longNumber (hl : longNumber.Matches l) : first? (l ++ rest) = some (longNumber, l, rest) := by
  refine first?_eq_some_iff.mpr ⟨[word], _, rfl, split?_of_matches hl trivial, ?_⟩
  intro q hq
  obtain rfl := mem_singleton.mp hq
  cases l with
  | nil => exact absurd hl (not_matches_nil _)
  | cons c cs => exact split?_eq_none_of_opens _ (not_isWordStart_of_isDigit (opens_of_matches hl))

theorem first?_number (hl : number.Matches l) (h : StopsAt isWordPart rest) :
    first? (l ++ rest) = some (number, l, rest) := by
  have hdigit : StopsAt isDigit rest :=
    h.mono fun c hc => by unfold isWordPart; rw [hc, Bool.or_true]
  refine first?_eq_some_iff.mpr ⟨[word, longNumber], _, rfl, split?_of_matches hl hdigit, ?_⟩
  have hrun : run? isDigit (l ++ rest) = some (l, rest) := run?_eq_some_iff.mpr ⟨rfl, hl, hdigit⟩
  intro q hq
  rcases mem_cons.mp hq with rfl | hq
  · cases l with
    | nil => exact absurd hl (not_matches_nil _)
    | cons c cs => exact split?_eq_none_of_opens _ (not_isWordStart_of_isDigit (opens_of_matches hl))
  · obtain rfl := mem_singleton.mp hq
    rw [split?, hrun]
    cases rest with
    | nil => rfl
    | cons c cs =>
      have hc : c ≠ 'n' := by
        rintro rfl
        exact nomatch h 'n' rfl
      split
      · next he => cases he; exact absurd rfl hc
      · rfl

theorem first?_string (hl : string.Matches l) : first? (l ++ rest) = some (string, l, rest) := by
  refine first?_eq_some_iff.mpr
    ⟨[word, longNumber, number, blank], _, rfl, split?_of_matches hl trivial, ?_⟩
  obtain ⟨body, rfl, _⟩ := hl
  intro q hq
  refine split?_eq_none_of_opens _ ?_
  revert q
  decide

theorem first?_blank (hl : blank.Matches l) (h : StopsAt isBlank rest) :
    first? (l ++ rest) = some (blank, l, rest) := by
  refine first?_eq_some_iff.mpr ⟨[word, longNumber, number], _, rfl, split?_of_matches hl h, ?_⟩
  cases l with
  | nil => exact absurd hl (not_matches_nil _)
  | cons c cs =>
    have hpart : isWordPart c = false := not_isWordPart_of_isBlank (opens_of_matches hl)
    obtain ⟨hstart, hdigit⟩ := Bool.or_eq_false_iff.mp hpart
    intro q hq
    refine split?_eq_none_of_opens _ ?_
    simp only [mem_cons, not_mem_nil, or_false] at hq
    rcases hq with rfl | rfl | rfl
    · exact hstart
    · exact hdigit
    · exact hdigit

theorem first?_comment (hl : comment.Matches l) (h : StopsAt (· != '\n') rest) :
    first? (l ++ rest) = some (comment, l, rest) := by
  refine first?_eq_some_iff.mpr
    ⟨[word, longNumber, number, blank, string], _, rfl, split?_of_matches hl h, ?_⟩
  obtain ⟨body, rfl, _⟩ := hl
  intro q hq
  refine split?_eq_none_of_opens _ ?_
  revert q
  decide

/-- a comment starts with two slashes, so that no mark starts one by itself -/
theorem split?_comment_mark (h : Parts m.spelling.toList rest) :
    comment.split? (m.spelling.toList ++ rest) = none := by
  refine split?_eq_none_iff.mpr ?_
  rintro l tail he ⟨body, rfl, _⟩
  obtain ⟨c, cs, hm, _⟩ := m.opens_head
  have hc : c = '/' := by
    rw [hm] at he
    exact (List.cons.inj he).1
  obtain rfl : m = .slash := Mark.eq_slash (hc ▸ hm)
  have hrest : rest = '/' :: (body ++ tail) := (List.cons.inj he).2
  rcases h '/' (by rw [hrest]; rfl) with hblank | ⟨_, hne⟩
  · exact absurd hblank (by decide)
  · exact hne rfl

/-- a mark that is tried before `m` is no beginning of `m`, and what is behind `m` does not go on with
a mark -/
theorem split?_earlier_mark (h : Parts m.spelling.toList rest) (hn : n ∈ m.earlier) :
    (mark n).split? (m.spelling.toList ++ rest) = none := by
  refine split?_eq_none_iff.mpr ?_
  rintro l tail he rfl
  rcases append_eq_append_iff.mp he with ⟨more, hmore, hrest⟩ | ⟨more, hmore, _⟩
  · cases more with
    | nil =>
      rw [append_nil] at hmore
      exact Mark.not_prefix_of_earlier hn (hmore ▸ prefix_refl _)
    | cons c cs =>
      obtain ⟨d, ds, hm, _⟩ := m.opens_head
      have hc : c ∈ n.spelling.toList.tail := by
        rw [hmore, hm]
        exact mem_append_right ds mem_cons_self
      obtain ⟨hblank, hslash⟩ := Mark.of_mem_tail hc
      rcases h c (by rw [hrest]; rfl) with hc | ⟨hc, _⟩
      · rw [hblank] at hc
        exact nomatch hc
      · exact hslash hc
  · exact Mark.not_prefix_of_earlier hn ⟨more, hmore.symm⟩

theorem first?_mark (h : Parts m.spelling.toList rest) :
    first? (m.spelling.toList ++ rest) = some (mark m, m.spelling.toList, rest) := by
  obtain ⟨later, hall⟩ := m.exists_all_eq
  obtain ⟨c, cs, hm, hopens⟩ := m.opens_head
  refine first?_eq_some_iff.mpr
    ⟨[word, longNumber, number, blank, string] ++ comment :: m.earlier.map mark, later.map mark, ?_,
      split?_of_matches rfl trivial, ?_⟩
  · rw [table, hall, map_append, map_cons]
    rfl
  · intro q hq
    rcases mem_append.mp hq with hq | hq
    · rw [hm]
      exact split?_eq_none_of_opens _ (hopens q hq)
    · rcases mem_cons.mp hq with rfl | hq
      · exact split?_comment_mark h
      · obtain ⟨n, hn, rfl⟩ := mem_map.mp hq
        exact split?_earlier_mark h hn

/-- a token is read as itself -/
theorem first?_of_spells {x : Lexeme} (h : Spells l x) (hrest : Parts l rest) :
    ∃ p, first? (l ++ rest) = some (p, l, rest) ∧ p.read l = some x := by
  cases h with
  | keyword k =>
    refine ⟨word, first?_word k.matches_word hrest.stopsAt, ?_⟩
    simp only [read, String.ofList_toList, Keyword.ofSpelling?_spelling]
    rfl
  | @name x hx =>
    refine ⟨word, first?_word (matches_word_of_isName hx) hrest.stopsAt, ?_⟩
    simp only [read, String.ofList_toList, ofSpelling?_of_isName hx]
    rfl
  | @number x hx =>
    refine ⟨number, first?_number (matches_number_iff.mpr hx) hrest.stopsAt, ?_⟩
    simp only [read, String.ofList_toList]
  | @long x hx =>
    obtain ⟨hne, hall⟩ := matches_number_iff.mpr hx
    refine ⟨longNumber, first?_longNumber ⟨x.toList, rfl, hne, hall⟩, ?_⟩
    simp only [read, dropLast_concat, String.ofList_toList]
  | @string body value hbody =>
    refine ⟨string, first?_string ⟨body, rfl, hbody.protected⟩, ?_⟩
    simp only [read, drop_one, tail_cons, dropLast_concat, hbody.unescape_eq]
  | mark m => exact ⟨mark m, first?_mark hrest, rfl⟩

end Pattern

end TypedScript
