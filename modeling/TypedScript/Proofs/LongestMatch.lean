import TypedScript.Proofs.Lexemes

/-!
# Longest match

The patterns are tried one after another, and the first that has a lexeme is taken.  Their order makes
that lexeme the longest one: a pattern that stands behind another and matches at the same place matches
less.  So the order says no more than "the longest match", and any other order with that rule finds the
same lexemes.
-/

namespace TypedScript

open Text List

namespace Pattern

/-! ## patterns in order -/

variable {p q : Pattern}

/-- where `p` cuts a lexeme, `q` matches nothing as long -/
structure Outreaches (p q : Pattern) : Prop where
  length_lt {l rest l' rest' : List Char} : p.split? (l ++ rest) = some (l, rest) →
    l ++ rest = l' ++ rest' → q.Matches l' → l'.length < l.length

theorem opens_both (hp : p.Matches l) (h : l ++ rest = l' ++ rest') (hq : q.Matches l') :
    ∃ c, p.opens c = true ∧ q.opens c = true := by
  cases l with
  | nil => exact absurd hp (not_matches_nil p)
  | cons c l =>
    cases l' with
    | nil => exact absurd hq (not_matches_nil q)
    | cons d l' =>
      obtain rfl := (List.cons.inj h).1
      exact ⟨c, opens_of_matches hp, opens_of_matches hq⟩

theorem outreaches_of_opens (h : ∀ c, p.opens c = true → q.opens c = false) : p.Outreaches q := by
  constructor
  intro l rest l' rest' hsplit heq hq
  obtain ⟨c, hpc, hqc⟩ := opens_both (split?_eq_some_iff.mp hsplit).2.1 heq hq
  rw [h c hpc] at hqc
  exact nomatch hqc

theorem outreaches_of_char (d : Char) (hq : ∀ c, q.opens c = true → c = d)
    (hp : p.opens d = false) : p.Outreaches q := by
  refine outreaches_of_opens fun c hc => ?_
  cases hqc : q.opens c with
  | false => rfl
  | true =>
    rw [hq c hqc, hp] at hc
    exact nomatch hc

theorem longNumber_outreaches_number : longNumber.Outreaches number := by
  constructor
  rintro l rest l' rest' hsplit heq ⟨_, hdigits⟩
  obtain ⟨_, ⟨ds, rfl, _, hds⟩, _⟩ := split?_eq_some_iff.mp hsplit
  rw [append_assoc, singleton_append] at heq
  have hletter : StopsAt isDigit ('n' :: rest) := stopsAt_cons rfl
  have hl := (takeWhile_of_stopsAt hds hletter).1
  rw [heq, takeWhile_append_of_pos (all_eq_true.mp hdigits)] at hl
  have hlength := congrArg List.length hl
  rw [length_append] at hlength
  rw [length_append, length_singleton]
  omega

theorem comment_outreaches_mark (m : Mark) : comment.Outreaches (mark m) := by
  constructor
  rintro l rest l' rest' hsplit heq rfl
  obtain ⟨_, ⟨body, rfl, _⟩, _⟩ := split?_eq_some_iff.mp hsplit
  obtain ⟨c, cs, hm, _⟩ := m.opens_head
  rw [hm] at heq
  obtain rfl := (List.cons.inj heq).1
  obtain rfl := Mark.eq_slash hm
  exact Nat.le_add_left 2 body.length

theorem mark_outreaches_mark {m n : Mark} (h : ¬ m.spelling.toList <+: n.spelling.toList) :
    (mark m).Outreaches (mark n) := by
  constructor
  rintro l rest l' rest' hsplit heq rfl
  obtain ⟨_, hl, _⟩ := split?_eq_some_iff.mp hsplit
  obtain rfl : l = m.spelling.toList := hl
  refine Nat.not_le.mp fun hlength => ?_
  exact h (prefix_of_prefix_length_le ⟨rest, heq⟩ (prefix_append _ _) hlength)

theorem pairwise_marks : Mark.all.Pairwise fun m n => ¬ m.spelling.toList <+: n.spelling.toList := by
  decide

theorem outreaches_mark (h : p ∈ [word, longNumber, number, blank, string]) (m : Mark) :
    p.Outreaches (mark m) := by
  obtain ⟨c, cs, hm, hopens⟩ := m.opens_head
  refine outreaches_of_char c (fun d hd => ?_) (hopens p h)
  simp only [opens, hm, List.head?_cons, beq_iff_eq, Option.some.injEq] at hd
  exact hd.symm

theorem outreaches_blank (h : ∀ c, p.opens c = true → isWordPart c = true) : p.Outreaches blank := by
  refine outreaches_of_opens fun c hc => ?_
  cases hblank : isBlank c with
  | false => exact hblank
  | true =>
    have hpart := h c hc
    rw [not_isWordPart_of_isBlank hblank] at hpart
    exact nomatch hpart

/-- every pattern of the table outreaches those behind it -/
theorem pairwise_outreaches : table.Pairwise Outreaches := by
  have hdigit : ∀ c, isDigit c = true → isWordPart c = true := fun c hc => by
    unfold isWordPart
    rw [hc, Bool.or_true]
  have hword : ∀ c, isWordStart c = true → isWordPart c = true := fun c hc => by
    unfold isWordPart
    rw [hc, Bool.true_or]
  have hnumber : ∀ c, isWordStart c = true → isDigit c = false := fun c hc => by
    cases hd : isDigit c with
    | false => rfl
    | true => exact absurd hc (by rw [not_isWordStart_of_isDigit hd]; exact nofun)
  have hstring : ∀ p ∈ [word, longNumber, number, blank], p.Outreaches string := fun p hp =>
    outreaches_of_char '"' (fun c hc => beq_iff_eq.mp hc) (by revert p; decide)
  have hcomment : ∀ p ∈ [word, longNumber, number, blank, string], p.Outreaches comment := fun p hp =>
    outreaches_of_char '/' (fun c hc => beq_iff_eq.mp hc) (by revert p; decide)
  unfold table
  rw [pairwise_append]
  refine ⟨?_, pairwise_map.mpr (pairwise_marks.imp mark_outreaches_mark), ?_⟩
  · simp only [pairwise_cons, forall_mem_cons, not_mem_nil, false_imp_iff, implies_true,
      List.Pairwise.nil, and_true]
    exact ⟨⟨outreaches_of_opens hnumber, outreaches_of_opens hnumber, outreaches_blank hword,
        hstring word (by decide), hcomment word (by decide)⟩,
      ⟨longNumber_outreaches_number, outreaches_blank hdigit, hstring longNumber (by decide),
        hcomment longNumber (by decide)⟩,
      ⟨outreaches_blank hdigit, hstring number (by decide), hcomment number (by decide)⟩,
      ⟨hstring blank (by decide), hcomment blank (by decide)⟩, hcomment string (by decide)⟩
  · intro p hp q hq
    obtain ⟨m, _, rfl⟩ := mem_map.mp hq
    rcases mem_append.mp (show p ∈ [word, longNumber, number, blank, string] ++ [comment] from hp) with
      hp | hp
    · exact outreaches_mark hp m
    · exact mem_singleton.mp hp ▸ comment_outreaches_mark m

/-! ## the longest lexeme -/

variable {l rest l' rest' : List Char}

theorem length_le_of_stopsAt {p : Char → Bool} (hrest : StopsAt p rest)
    (heq : l ++ rest = l' ++ rest') (hl' : ∀ c ∈ l'.drop l.length, p c = true) : l'.length ≤ l.length := by
  rcases append_eq_append_iff.mp heq with ⟨more, rfl, hmore⟩ | ⟨more, rfl, _⟩
  · rw [drop_left] at hl'
    cases more with
    | nil => exact Nat.le_of_eq (congrArg List.length (append_nil l))
    | cons c more =>
      have hc := hrest c (by rw [hmore]; rfl)
      rw [hl' c mem_cons_self] at hc
      exact nomatch hc
  · rw [length_append]
    exact Nat.le_add_right _ _

/-- a pattern cuts the longest of its matches -/
theorem length_le_of_split? (h : p.split? (l ++ rest) = some (l, rest)) (heq : l ++ rest = l' ++ rest')
    (hl' : p.Matches l') : l'.length ≤ l.length := by
  obtain ⟨_, hl, hstops⟩ := split?_eq_some_iff.mp h
  cases p with
  | longNumber | string | mark m =>
    -- these show by themselves where they end
    have hsplit := h.symm.trans (heq ▸ split?_of_matches hl' trivial)
    cases hsplit
    exact Nat.le_refl _
  | number | blank =>
    exact length_le_of_stopsAt hstops heq fun c hc => all_eq_true.mp hl'.2 c (mem_of_mem_drop hc)
  | word =>
    obtain ⟨c, cs, rfl, _, _⟩ := hl
    obtain ⟨c', cs', rfl, _, hcs'⟩ := hl'
    exact length_le_of_stopsAt hstops heq fun d hd => all_eq_true.mp hcs' d (mem_of_mem_drop hd)
  | comment =>
    obtain ⟨body, rfl, _⟩ := hl
    obtain ⟨body', rfl, hbody'⟩ := hl'
    exact length_le_of_stopsAt hstops heq fun d hd => all_eq_true.mp hbody' d (mem_of_mem_drop hd)

/-- the first lexeme is the longest, and its pattern the only one with a lexeme of that length -/
theorem first?_longest {text : List Char} (h : first? text = some (p, l, rest)) (htext : text = l' ++ rest')
    (hq : q.Matches l') : l'.length ≤ l.length ∧ (l'.length = l.length → q = p) := by
  obtain ⟨before, after, htable, hsplit, hbefore⟩ := first?_eq_some_iff.mp h
  obtain ⟨rfl, _, _⟩ := split?_eq_some_iff.mp hsplit
  have hpairs := pairwise_outreaches
  rw [htable, pairwise_append, pairwise_cons] at hpairs
  have hmem := mem_table q
  rw [htable, mem_append, mem_cons] at hmem
  rcases hmem with hmem | rfl | hmem
  · exact absurd hq (split?_eq_none_iff.mp (hbefore q hmem) l' rest' htext)
  · exact ⟨length_le_of_split? hsplit htext hq, fun _ => rfl⟩
  · have hlt := (hpairs.2.1.1 q hmem).length_lt hsplit htext hq
    exact ⟨Nat.le_of_lt hlt, fun heq => absurd heq (Nat.ne_of_lt hlt)⟩

/-! ## any order -/

variable {s : List Char × List Char} {ps : List Pattern} {text : List Char}

/-- the longest lexeme that a pattern of the list has at the front of a text -/
def longest? (text : List Char) : List Pattern → Option (Pattern × List Char × List Char)
  | [] => none
  | p :: ps =>
    match p.split? text, longest? text ps with
    | none, best => best
    | some s, none => some (p, s)
    | some s, some (q, t) => if s.1.length < t.1.length then some (q, t) else some (p, s)

theorem length_le_longest? (hp : p ∈ ps) (hsplit : p.split? text = some s) :
    ∃ q t, longest? text ps = some (q, t) ∧ s.1.length ≤ t.1.length := by
  induction ps with
  | nil => exact absurd hp not_mem_nil
  | cons r ps ih =>
    rw [longest?]
    rcases mem_cons.mp hp with rfl | hp
    · rw [hsplit]
      cases longest? text ps with
      | none => exact ⟨p, s, rfl, Nat.le_refl _⟩
      | some best =>
        dsimp only
        split
        · next hlt => exact ⟨_, _, rfl, Nat.le_of_lt hlt⟩
        · exact ⟨p, s, rfl, Nat.le_refl _⟩
    · obtain ⟨q, t, hbest, hlength⟩ := ih hp
      rw [hbest]
      cases r.split? text with
      | none => exact ⟨q, t, rfl, hlength⟩
      | some u =>
        dsimp only
        split
        · exact ⟨q, t, rfl, hlength⟩
        · next hlt => exact ⟨r, u, rfl, Nat.le_trans hlength (Nat.not_lt.mp hlt)⟩

theorem split?_of_longest? (h : longest? text ps = some (q, s)) : q.split? text = some s := by
  induction ps with
  | nil => exact nomatch h
  | cons p ps ih =>
    rw [longest?] at h
    split at h
    · exact ih h
    · next hsplit _ => cases h; exact hsplit
    · next hsplit hbest =>
      split at h
      · cases h; exact ih hbest
      · cases h; exact hsplit

/-- the order of the patterns does not matter if the longest lexeme is taken -/
theorem longest?_eq_first? (h : ps.Perm table) (text : List Char) : longest? text ps = first? text := by
  cases hfirst : first? text with
  | none =>
    cases hlongest : longest? text ps with
    | none => rfl
    | some best =>
      obtain ⟨htext, hl, _⟩ := split?_eq_some_iff.mp (split?_of_longest? hlongest)
      exact absurd hl (first?_eq_none_iff.mp hfirst _ _ _ htext)
  | some best =>
    obtain ⟨p, l, rest⟩ := best
    have hsplit := first?_split hfirst
    obtain ⟨q, ⟨l', rest'⟩, hlongest, hlength⟩ := length_le_longest? (h.mem_iff.mpr (mem_table p)) hsplit
    have hsplit' := split?_of_longest? hlongest
    obtain ⟨htext, hl', _⟩ := split?_eq_some_iff.mp hsplit'
    obtain ⟨hle, hunique⟩ := first?_longest hfirst htext hl'
    obtain rfl := hunique (Nat.le_antisymm hle hlength)
    rw [hlongest, ← Option.some.inj (hsplit'.symm.trans hsplit)]

end Pattern

/-! ## steps of the scanner -/

/-- A step of the scanner takes the longest lexeme: no front part of the text that is left which a pattern
matches is longer, and no other pattern matches one as long.  So the step is the longest match over the
patterns in any order. -/
theorem next?_takes_longest (r : Reader) :
    (∀ p l r', r.next? = some (p, l, r') → r.rest = l ++ r'.rest ∧ p.Matches l ∧
      ∀ q l' rest', r.rest = l' ++ rest' → q.Matches l' →
        l'.length ≤ l.length ∧ (l'.length = l.length → q = p)) ∧
    ∀ ps, ps.Perm Pattern.table → r.next? =
      (Pattern.longest? r.rest ps).map fun (p, l, rest) => (p, l, ⟨r.offset + byteLength l, rest⟩) := by
  refine ⟨?_, fun ps hps => ?_⟩
  · intro p l r' h
    obtain ⟨⟨p, l, rest⟩, hfirst, he⟩ := Option.map_eq_some_iff.mp h
    cases he
    obtain ⟨htext, hl, _⟩ := Pattern.split?_eq_some_iff.mp (Pattern.first?_split hfirst)
    exact ⟨htext, hl, fun q l' rest' htext' hq => Pattern.first?_longest hfirst htext' hq⟩
  · rw [Pattern.longest?_eq_first? hps]
    rfl

end TypedScript
