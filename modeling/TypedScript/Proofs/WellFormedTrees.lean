import TypedScript.Proofs.TokenUse

/-!
# What is read is well formed

The scanner only makes names that are not reserved and numerals that are runs of digits; from such
tokens the parser only makes well-formed trees.  So the trees that are read are those that can be written.
-/

namespace TypedScript

open TypedScript.Parser List

/-! ## scanned tokens -/

theorem isNumeral_of_run? (h : Pattern.run? Text.isDigit text = some (ds, rest)) :
    isNumeral (String.ofList ds) := by
  have hne := (Pattern.run?_append h).2
  unfold Pattern.run? at h
  split at h
  · exact nomatch h
  · cases h
    have hall : (text.takeWhile Text.isDigit).all Text.isDigit = true := all_takeWhile
    unfold isNumeral
    rw [String.toList_ofList, hall, isEmpty_eq_false_iff.mpr hne]
    rfl

theorem isName_of_split? (h : Pattern.word.split? text = some (l, rest))
    (hk : Keyword.ofSpelling? (String.ofList l) = none) : isName (String.ofList l) := by
  cases text with
  | nil => cases h
  | cons c cs =>
    simp only [Pattern.split?] at h
    split at h
    · next hc =>
      cases h
      have hall : (cs.takeWhile Text.isWordPart).all Text.isWordPart = true := all_takeWhile
      unfold isName
      rw [String.toList_ofList, hk]
      simp only [hc, hall, Option.isNone_none, Bool.and_self]
    · cases h

theorem scanned_of_read {p : Pattern} (hsplit : p.split? text = some (l, rest))
    (hread : p.read l = some (kind, value)) (span : Span) : Token.Scanned ⟨kind, value, span⟩ := by
  cases p with
  | word =>
    simp only [Pattern.read] at hread
    split at hread
    · cases hread
      refine ⟨?_, ?_, ?_⟩ <;> (intro h; cases h)
    · next hk =>
      cases hread
      refine ⟨fun _ => isName_of_split? hsplit hk, ?_, ?_⟩ <;> (intro h; cases h)
  | longNumber =>
    cases hread
    simp only [Pattern.split?] at hsplit
    split at hsplit
    · next ds tail hrun =>
      cases hsplit
      refine ⟨?_, ?_, fun _ => ?_⟩
      · intro h
        cases h
      · intro h
        cases h
      · rw [dropLast_concat]
        exact isNumeral_of_run? hrun
    · cases hsplit
  | number =>
    cases hread
    simp only [Pattern.split?] at hsplit
    refine ⟨?_, fun _ => isNumeral_of_run? hsplit, ?_⟩ <;> (intro h; cases h)
  | blank | comment => cases hread
  | string | mark m =>
    cases hread
    refine ⟨?_, ?_, ?_⟩ <;> (intro h; cases h)

/-- every token that a reader makes, by induction on the text that is left -/
theorem Reader.scanned_of_tokens {r : Reader} (h : r.tokens file = .ok ts) : ∀ t ∈ ts, t.Scanned := by
  fun_induction Reader.tokens file r generalizing ts with
  | case1 r hrest =>
    cases h
    intro t ht
    rw [mem_singleton.mp ht]
    exact Token.scanned_of_eof rfl
  | case2 => exact nomatch h
  | case3 r c cs hrest p l r' hnext ih =>
    obtain ⟨⟨q, m, rest⟩, hfirst, he⟩ := Option.map_eq_some_iff.mp hnext
    cases he
    have hsplit := Pattern.first?_split hfirst
    cases htail : Reader.tokens file ⟨r.offset + Text.byteLength l, rest⟩ with
    | error d => rw [htail] at h; exact nomatch h
    | ok tail =>
      rw [htail] at h
      have htokens := ih htail
      cases hread : p.read l with
      | none =>
        rw [hread] at h
        cases h
        exact htokens
      | some kv =>
        obtain ⟨kind, value⟩ := kv
        rw [hread] at h
        cases h
        intro t ht
        rcases mem_cons.mp ht with rfl | ht
        · exact scanned_of_read hsplit hread _
        · exact htokens t ht

theorem scanned_of_scan (h : scan source file = .ok ts) : ∀ t ∈ ts, t.Scanned :=
  Reader.scanned_of_tokens h

/-! ## reading and writing -/

/-- the well-formed programs are those that are read, and each is read from what is written for it -/
theorem parse_undoes_writing :
    (∀ p : Program, p.WellFormed → ∀ (ts : List Token) (last : Token) (file : String),
      ts.map Token.lexeme = p.lexemes → last.kind = .eof → parse (ts ++ [last]) file = .ok p) ∧
    (∀ (source file file' : String) (ts : List Token) (p : Program),
      scan source file = .ok ts → parse ts file' = .ok p → p.WellFormed) := by
  constructor
  · intro p hp ts last file hts hlast
    exact parse_of_lexemes hp hts hlast file
  · intro source file file' ts p hscan hparse
    exact wellFormed_of_parse (scanned_of_scan hscan) hparse

/-- `(a ^ b) ^ -c;` keeps its parentheses and the operand `-c` gets none; `({ a }.b);` gets a pair
around the statement -/
theorem parse_undoes_writing_power_set :
    let a := Expr.name (.ofName "a") none
    let b := Expr.name (.ofName "b") none
    let c := Expr.name (.ofName "c") none
    let p : Program :=
      [.expression (.binary .power (.binary .power a b none) (.unary .negate c none) none),
       .expression (.member (.collection .set [a] none) (.ofName "b") none)]
    let ts := ([Mark.openParen.lexeme, nameLexeme "a", Mark.caret.lexeme, nameLexeme "b",
      Mark.closeParen.lexeme, Mark.caret.lexeme, Mark.dash.lexeme, nameLexeme "c",
      Mark.semicolon.lexeme, Mark.openParen.lexeme, Mark.openCurly.lexeme, nameLexeme "a",
      Mark.closeCurly.lexeme, Mark.dot.lexeme, nameLexeme "b", Mark.closeParen.lexeme,
      Mark.semicolon.lexeme] : List Lexeme).map fun l => (⟨l.1, l.2, ⟨0, 0, ""⟩⟩ : Token)
    p.WellFormed ∧ parse (ts ++ [.endOf ⟨0, 0, ""⟩]) "" = .ok p := by
  intro a b c p ts
  have ha : a.WellFormed := .name (by decide)
  have hb : b.WellFormed := .name (by decide)
  have hc : c.WellFormed := .name (by decide)
  have hset : ∀ e ∈ [a], e.WellFormed := fun e he => mem_singleton.mp he ▸ ha
  have hp : p.WellFormed := by
    intro s hs
    rcases mem_cons.mp hs with rfl | hs
    · exact .expression (.binary (.binary ha hb) (.unary hc))
    · rw [mem_singleton.mp hs]
      exact .expression (.member (.collection (fun _ => cons_ne_nil _ _) hset) (by decide))
  exact ⟨hp, parse_undoes_writing.1 p hp ts (.endOf ⟨0, 0, ""⟩) "" rfl rfl⟩

end TypedScript
