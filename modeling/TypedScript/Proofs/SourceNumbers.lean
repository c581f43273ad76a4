import TypedScript.Proofs.OutputNumbers

/-!
# Numbers from the source to the output

A number without `n` is accepted if its value is below `2^63`, whatever zeros it starts with, and is printed
in its canonical form; a number with `n` is always accepted, and is printed with the digits it is written
with.  The target language takes the digits of the first ones for their value, which it then rounds to a
double.  It has no big integers with a superfluous zero in front, so the second ones are read as they are
meant only if they do not start with one.
-/

namespace TypedScript

open List

/-! ## values -/

theorem signed64?_numeral (h : isNumeral x = true) :
    Text.signed64? x.toList
      = if Text.digitsValue x.toList < Text.signBound then some ↑(Text.digitsValue x.toList) else none := by
  obtain ⟨hne, hdigits⟩ := Bool.and_eq_true_iff.mp h
  have hnatural : Text.natural? x.toList = some (Text.digitsValue x.toList) := by
    refine if_pos ⟨fun hnil => ?_, hdigits⟩
    rw [hnil] at hne
    cases hne
  have hdigit := all_eq_true.mp hdigits
  -- a sign is no digit
  unfold Text.signed64?
  split
  · next cs hcs => exact absurd (hdigit '-' (by rw [hcs]; exact mem_cons_self)) (by decide)
  · next cs hcs => exact absurd (hdigit '+' (by rw [hcs]; exact mem_cons_self)) (by decide)
  · unfold Text.nonnegative64?
    rw [hnatural, Option.bind_some]

theorem head?_toDigits (h : 0 < n) : (Nat.toDigits 10 n).head? ≠ some '0' := by
  induction n using Nat.strongRecOn with
  | ind n ih =>
    by_cases hn : n < 10
    · have hdigits : ∀ m < 10, 0 < m → Nat.digitChar m ≠ '0' := by decide
      rw [Nat.toDigits_of_lt_base hn]
      exact fun hzero => hdigits n hn h (Option.some.inj hzero)
    · rw [Nat.toDigits_of_base_le (by decide) (by omega), List.head?_append_of_ne_nil _ Nat.toDigits_ne_nil]
      exact ih (n / 10) (by omega) (by omega)

/-! ## numbers of the target language -/

namespace Script

/-- a number, or a big integer -/
inductive Number where
  | plain (value : Nat)
  | big (value : Nat)
  deriving DecidableEq, Repr

/-- digits without a zero in front of others -/
def isDecimal (cs : List Char) : Bool :=
  cs == ['0'] || (!cs.isEmpty && cs.all Text.isDigit && cs.head? != some '0')

/-- what a word stands for as a decimal number; a big integer ends with `n` -/
def numberValue? (w : String) : Option Number :=
  if isDecimal w.toList then some (.plain (Text.digitsValue w.toList))
  else if w.toList.getLast? = some 'n' ∧ isDecimal w.toList.dropLast then
    some (.big (Text.digitsValue w.toList.dropLast))
  else none

theorem isDecimal_toDigits (n : Nat) : isDecimal (Nat.toDigits 10 n) = true := by
  unfold isDecimal
  rcases Nat.eq_zero_or_pos n with rfl | hn
  · rfl
  · have hhead : ((Nat.toDigits 10 n).head? != some '0') = true := bne_iff_ne.mpr (head?_toDigits hn)
    have hdigits : (Nat.toDigits 10 n).all Text.isDigit = true :=
      all_eq_true.mpr fun c => isDigit_of_mem_toDigits
    have hne : (Nat.toDigits 10 n).isEmpty = false := isEmpty_eq_false_iff.mpr Nat.toDigits_ne_nil
    rw [hhead, hdigits, hne]
    exact Bool.or_true _

theorem numberValue?_toString (n : Nat) : numberValue? (toString n) = some (.plain n) := by
  have hlist : (toString n).toList = Nat.toDigits 10 n := Nat.toList_repr
  unfold numberValue?
  rw [hlist, if_pos (isDecimal_toDigits n), digitsValue_toDigits]

theorem isDecimal_numeral (h : isNumeral x = true) :
    isDecimal x.toList = true ↔ x = "0" ∨ x.toList.head? ≠ some '0' := by
  obtain ⟨hne, hdigits⟩ := Bool.and_eq_true_iff.mp h
  have hzero : x.toList = "0".toList ↔ x = "0" := String.toList_inj
  unfold isDecimal
  rw [Bool.or_eq_true, Bool.and_eq_true, Bool.and_eq_true, beq_iff_eq, bne_iff_ne]
  exact or_congr hzero (and_iff_right ⟨hne, hdigits⟩)

/-- digits with `n` are a big integer, unless they start with a superfluous zero -/
theorem numberValue?_long (h : isNumeral x = true) : numberValue? (x ++ "n")
    = if x = "0" ∨ x.toList.head? ≠ some '0' then some (.big (Text.digitsValue x.toList)) else none := by
  have hlist : (x ++ "n").toList = x.toList ++ ['n'] := String.toList_append
  have hletter : isDecimal (x.toList ++ ['n']) = false := by
    have hne : (x.toList ++ ['n'] == ['0']) = false := by
      refine beq_eq_false_iff_ne.mpr fun heq => ?_
      have hlast := congrArg List.getLast? heq
      rw [List.getLast?_concat] at hlast
      exact absurd (Option.some.inj hlast) (by decide)
    have hdigits : (x.toList ++ ['n']).all Text.isDigit = false := by
      rw [all_append]
      exact Bool.and_false _
    unfold isDecimal
    rw [hne, hdigits, Bool.and_false]
    rfl
  unfold numberValue?
  rw [hlist, hletter, if_neg Bool.false_ne_true, dropLast_concat, List.getLast?_concat]
  exact if_congr ((and_iff_right rfl).trans (isDecimal_numeral h)) rfl rfl

end Script

/-! ## numbers of a source -/

theorem Spells.kind_ne_eof (h : Spells l x) : x.1 ≠ .eof := by
  cases h <;> exact nofun

theorem Spells.number_eq (h : Spells l x) (hkind : x.1 = .number) :
    isNumeral x.2 = true ∧ l = x.2.toList := by
  cases h with
  | number hx => exact ⟨hx, rfl⟩
  | _ => cases hkind

theorem Spells.long_eq (h : Spells l x) (hkind : x.1 = .longNumber) :
    isNumeral x.2 = true ∧ l = x.2.toList ++ ['n'] := by
  cases h with
  | long hx => exact ⟨hx, rfl⟩
  | _ => cases hkind

namespace Token

/-- digits, if the token is a number, where the source has them -/
def Written (source : List Char) (t : Token) : Prop :=
  (t.kind = .number → isNumeral t.value ∧ Slice source t.span.start t.span.stop t.value.toList) ∧
  (t.kind = .longNumber →
    isNumeral t.value ∧ Slice source t.span.start t.span.stop (t.value.toList ++ ['n']))

/-- if the token is a number without `n`, it is at most `2^63 - 1` -/
def Within (t : Token) : Prop := t.kind = .number → Text.digitsValue t.value.toList ≤ 2 ^ 63 - 1

def literal? (t : Token) : Option Literal :=
  match t.kind with
  | .number => some (.integer (Text.digitsValue t.value.toList))
  | .longNumber => some (.long t.value)
  | _ => none

/-- a number as it is printed -/
def word? (t : Token) : Option String := t.literal?.bind Literal.word?

def number? (t : Token) : Option Script.Number :=
  match t.kind with
  | .number => some (.plain (Text.digitsValue t.value.toList))
  | .longNumber => some (.big (Text.digitsValue t.value.toList))
  | _ => none

/-- if the token is a number with `n`, it does not start with a zero in front of other digits -/
def Plain (t : Token) : Prop := t.kind = .longNumber → t.value = "0" ∨ t.value.toList.head? ≠ some '0'

instance (t : Token) : Decidable t.Within := inferInstanceAs (Decidable (_ → _))

instance (t : Token) : Decidable t.Plain := inferInstanceAs (Decidable (_ → _))

variable {t : Token} {source : List Char}

theorem inRange_iff (h : t.Written source) : t.InRange ↔ t.Within := by
  refine forall_congr' fun hk => ?_
  rw [signed64?_numeral (h.1 hk).1]
  have hbound : Text.signBound = 2 ^ 63 := rfl
  split <;> simp <;> omega

theorem numeral?_eq (h : t.Written source) (hwithin : t.Within) : t.numeral? = t.literal? := by
  unfold numeral? literal?
  cases hk : t.kind with
  | number =>
    have hvalue : Text.digitsValue t.value.toList < Text.signBound := by
      have := hwithin hk
      unfold Text.signBound
      omega
    show Option.map Literal.integer (Text.signed64? t.value.toList) = _
    rw [signed64?_numeral (h.1 hk).1, if_pos hvalue]
    rfl
  | _ => rfl

theorem numberValue?_word (h : t.Written source) (hw : t.word? = some w) :
    Script.numberValue? w = if t.Plain then t.number? else none := by
  obtain ⟨kind, value, span⟩ := t
  cases kind with
  | number =>
    cases hw
    exact (Script.numberValue?_toString _).trans (if_pos nofun).symm
  | longNumber =>
    cases hw
    have hplain : (value = "0" ∨ value.toList.head? ≠ some '0') ↔ Plain ⟨.longNumber, value, span⟩ :=
      ⟨fun hzero _ => hzero, fun hplain => hplain rfl⟩
    exact (Script.numberValue?_long (h.2 rfl).1).trans (if_congr hplain rfl rfl)
  | _ => cases hw

theorem not_within_of_find? {ts : List Token} (h : ts.find? (¬ ·.Within) = some t) : t ∈ ts ∧ ¬ t.Within :=
  ⟨mem_of_find?_eq_some h, by simpa using List.find?_some h⟩

end Token

theorem Tiles.numbers (h : Tiles source file i ts) :
    ∃ (front : List Token) (last : Token), ts = front ++ [last] ∧
      last.kind = .eof ∧ (∀ t ∈ front, t.kind ≠ .eof) ∧ ∀ t ∈ ts, t.Written source := by
  induction h with
  | ending =>
    refine ⟨[], _, rfl, rfl, fun _ ht => absurd ht not_mem_nil, fun t ht => ?_⟩
    rw [mem_singleton.mp ht]
    exact ⟨nofun, nofun⟩
  | @token _ _ l t ts _ _ hslice _ hspells _ _ ih =>
    obtain ⟨front, last, hts, hlast, hfree, hwritten⟩ := ih
    refine ⟨t :: front, last, by rw [hts, cons_append], hlast,
      forall_mem_cons.mpr ⟨hspells.kind_ne_eof, hfree⟩, forall_mem_cons.mpr ⟨⟨?_, ?_⟩, hwritten⟩⟩
    · intro hk
      obtain ⟨hnumeral, rfl⟩ := hspells.number_eq hk
      exact ⟨hnumeral, hslice⟩
    · intro hk
      obtain ⟨hnumeral, rfl⟩ := hspells.long_eq hk
      exact ⟨hnumeral, hslice⟩

section

variable {source file : String} {ts : List Token} (hscan : scan source file = .ok ts)

include hscan

theorem written_of_scan : ∀ t ∈ ts, t.Written source.toList := by
  obtain ⟨_, _, _, _, _, hwritten⟩ := (Reader.tiles [] [] (.inl .nil) hscan).numbers
  exact hwritten

theorem parseSource_of_scan : parseSource source file = parse ts file := by
  unfold parseSource
  rw [hscan]
  rfl

/-- reading the tokens of a source, compared with reading them without their digits -/
theorem parse_scan : match parse ts file with
    | .ok p => (∃ q, parse (ts.map Token.zeroed) file = .ok q) ∧ (∀ t ∈ ts, t.Within) ∧
        numerals (bodyLiterals p) = ts.filterMap Token.literal?
    | .error d => (∃ e, parse (ts.map Token.zeroed) file = .error e) ∨
        ∃ t, ts.find? (¬ ·.Within) = some t ∧
          d = .atPosition (.numberOutOfRange t.value) t.span.position := by
  obtain ⟨front, last, rfl, hlast, hfree, hwritten⟩ := (Reader.tiles [] [] (.inl .nil) hscan).numbers
  have hfront : ∀ t ∈ front, t.Written source.toList := fun t ht =>
    hwritten t (mem_append_left [last] ht)
  have hrange : ∀ t ∈ front, (t.InRange ↔ t.Within) := fun t ht => Token.inRange_iff (hfront t ht)
  have hparse := parse_zeroed hlast hfree file
  cases hread : parse (front ++ [last]) file with
  | ok p =>
    rw [hread] at hparse
    obtain ⟨hzeroed, hall, hnumerals⟩ := hparse
    have hlastWithin : last.Within := fun hk => nomatch hk.symm.trans hlast
    have hlastNone : last.literal? = none := by
      unfold Token.literal?
      rw [hlast]
    have hliterals : front.filterMap Token.numeral? = front.filterMap Token.literal? :=
      filterMap_congr fun t ht => Token.numeral?_eq (hfront t ht) ((hrange t ht).mp (hall t ht))
    refine ⟨hzeroed, fun t ht => ?_, ?_⟩
    · rcases mem_append.mp ht with ht | ht
      · exact (hrange t ht).mp (hall t ht)
      · exact mem_singleton.mp ht ▸ hlastWithin
    · rw [hnumerals, hliterals, filterMap_append, filterMap_cons_none hlastNone, filterMap_nil,
        append_nil]
  | error d =>
    rw [hread] at hparse
    refine hparse.imp_right fun ⟨pre, t, post, hpost, hpre, ht, hd⟩ => ⟨t, ?_, hd⟩
    subst hpost
    rw [List.find?_eq_some_iff_append]
    have hmem : ∀ u ∈ pre, u ∈ pre ++ t :: post := fun u hu => mem_append_left _ hu
    refine ⟨decide_eq_true ?_, pre, post ++ [last], append_assoc _ _ _, fun u hu => ?_⟩
    · exact fun hwithin => ht ((hrange t (mem_append_right pre mem_cons_self)).mpr hwithin)
    · simpa using (hrange u (hmem u hu)).mp (hpre u hu)

theorem exists_parse_iff : (∃ p, parse ts file = .ok p) ↔
    (∃ q, parse (ts.map Token.zeroed) file = .ok q) ∧ ∀ t ∈ ts, t.Within := by
  have hparse := parse_scan hscan
  cases hread : parse ts file with
  | ok p =>
    rw [hread] at hparse
    exact iff_of_true ⟨p, rfl⟩ ⟨hparse.1, hparse.2.1⟩
  | error d =>
    rw [hread] at hparse
    refine iff_of_false nofun ?_
    rintro ⟨⟨q, hq⟩, hwithin⟩
    rcases hparse with ⟨e, he⟩ | ⟨t, ht, -⟩
    · rw [hq] at he
      cases he
    · exact (Token.not_within_of_find? ht).2 (hwithin t (Token.not_within_of_find? ht).1)

theorem parse_of_out_of_range (ht : ts.find? (¬ ·.Within) = some t)
    (hzeroed : ∃ q, parse (ts.map Token.zeroed) file = .ok q) :
    parse ts file = .error (.atPosition (.numberOutOfRange t.value) t.span.position) := by
  have hparse := parse_scan hscan
  obtain ⟨hmem, hout⟩ := Token.not_within_of_find? ht
  cases hread : parse ts file with
  | ok p =>
    rw [hread] at hparse
    exact absurd (hparse.2.1 t hmem) hout
  | error d =>
    rw [hread, ht] at hparse
    obtain ⟨q, hq⟩ := hzeroed
    rcases hparse with ⟨e, he⟩ | ⟨u, hu, rfl⟩
    · rw [hq] at he
      cases he
    · cases hu
      rfl

theorem numerals_of_analyseSource (h : analyseSource root source file = .ok q) :
    numerals (bodyLiterals q) = ts.filterMap Token.literal? := by
  have hparse := parse_scan hscan
  unfold analyseSource at h
  rw [parseSource_of_scan hscan] at h
  cases hread : parse ts file with
  | error d => rw [hread] at h; cases h
  | ok p =>
    rw [hread] at h hparse
    obtain ⟨c, hbody⟩ := accepted_of_analyse h
    rw [hbody.spelling.literals, hparse.2.2]

end

/-! ## numbers of the output -/

theorem filterMap_word?_numerals (vs : List Literal) :
    (numerals vs).filterMap Literal.word? = vs.filterMap Literal.word? := by
  unfold numerals
  rw [filterMap_filter]
  refine filterMap_congr fun v _ => ?_
  cases v <;> rfl

theorem numbers_of_compileSource (h : analyseSource Scope.root source file = .ok q)
    (hcompile : compile options q = .ok text) :
    Script.numbers text = (bodyPrinted q).filterMap Literal.word? := by
  obtain ⟨p, hp, hanalyse⟩ := analyseSource_eq_ok h
  obtain ⟨ν, hlowers, hlegible⟩ := exists_naming hp hanalyse
  rw [scriptText_of_compile hcompile]
  exact numbers_layout hlowers hlegible options.indent

/-- The numbers of a source.  The source has the digits of each of them where its token is.  It is read if
and only if it is read with `0` for each number and those without `n` are at most `2^63 - 1`; if only these
are too large, the first one that is too large is reported at its position.  The words of the output that
start with a digit are the numbers of the source, but for those that a switch switches on, and those without
`n` are in their canonical form.  The digits of a word are those of the number that it stands for, before the
target language rounds it; a long with a superfluous zero is no number there. -/
theorem compile_keeps_numbers {source file : String} {ts : List Token} (hscan : scan source file = .ok ts) :
    (∀ t ∈ ts, t.Written source.toList) ∧
    ((∃ p, parseSource source file = .ok p) ↔
      (∃ q, parse (ts.map Token.zeroed) file = .ok q) ∧ ∀ t ∈ ts, t.Within) ∧
    (∀ t, ts.find? (¬ ·.Within) = some t → (∃ q, parse (ts.map Token.zeroed) file = .ok q) →
      parseSource source file = .error (.atPosition (.numberOutOfRange t.value) t.span.position)) ∧
    (∀ options text, compileSource Scope.root source file options = .ok text →
      ∃ q, analyseSource Scope.root source file = .ok q ∧
        numerals (bodyLiterals q) = ts.filterMap Token.literal? ∧
        Script.numbers text = (bodyPrinted q).filterMap Literal.word? ∧
        (Script.numbers text ++ (bodySilent q).filterMap Literal.word?).Perm (ts.filterMap Token.word?)) ∧
    ∀ t ∈ ts, ∀ w, t.word? = some w → Script.numberValue? w = if t.Plain then t.number? else none := by
  have hwritten := written_of_scan hscan
  rw [parseSource_of_scan hscan]
  refine ⟨hwritten, exists_parse_iff hscan, fun t => parse_of_out_of_range hscan,
    fun options text hcompiled => ?_, fun t ht w => Token.numberValue?_word (hwritten t ht)⟩
  obtain ⟨q, h, hcompile⟩ := compileSource_eq_ok hcompiled
  have hnumerals := numerals_of_analyseSource hscan h
  have hnumbers := numbers_of_compileSource h hcompile
  have hwords : (bodyLiterals q).filterMap Literal.word? = ts.filterMap Token.word? := by
    rw [← filterMap_word?_numerals, hnumerals, filterMap_filterMap]
    rfl
  refine ⟨q, h, hnumerals, hnumbers, ?_⟩
  rw [hnumbers, ← filterMap_append, ← hwords]
  exact (perm_bodyPrinted q).filterMap Literal.word?

/-- the default starts with zeros, and the number in the last source is the first that is out of range -/
theorem compile_keeps_numbers_bounds :
    let source := "fn f(x: int = 007) \x7b let b = 10n; switch (3) " ++
      "\x7b case true: x = 9223372036854775807; \x7d \x7d"
    let text := "function f_1(x_2 = 7) \x7b\n    let b_3 = 10n;\n    switch (true) \x7b\n" ++
      "        case true:\n            x_2 = 9223372036854775807;\n            break;\n    \x7d\n\x7d\n"
    let large := "let a = 00; let b = 9223372036854775808;"
    (∃ ts q, scan source "" = .ok ts ∧ compileSource Scope.root source "" Options.standard = .ok text ∧
      analyseSource Scope.root source "" = .ok q ∧
      ts.filterMap Token.word? = ["7", "10n", "3", "9223372036854775807"] ∧
      (bodyPrinted q).filterMap Literal.word? = ["7", "10n", "9223372036854775807"] ∧
      ∀ t ∈ ts, ∀ w, t.word? = some w → Script.numberValue? w = t.number?) ∧
    parseSource large "" = .error (.atPosition (.numberOutOfRange "9223372036854775808") ⟨20, ""⟩) := by
  intro source text large
  have htokens : (scan source "").toOption.map (fun ts => (ts.filterMap Token.word?, ts.all (·.Plain)))
      = some (["7", "10n", "3", "9223372036854775807"], true) := by decide +kernel
  have hfound : (scan large "").toOption.map (·.find? (¬ ·.Within))
      = some (some ⟨.number, "9223372036854775808", ⟨20, 39, ""⟩⟩) := by decide +kernel
  have hzeroed : (scan large "").toOption.map (fun us => (parse (us.map Token.zeroed) "").toOption.isSome)
      = some true := by decide +kernel
  have hcompiled : compileSource Scope.root source "" Options.standard = .ok text :=
    eq_ok_of_toOption (by decide +kernel)
  have hprinted : Script.numbers text = ["7", "10n", "9223372036854775807"] := by decide +kernel
  obtain ⟨ts, hts, htokens⟩ := Option.map_eq_some_iff.mp htokens
  obtain ⟨us, hus, hfound⟩ := Option.map_eq_some_iff.mp hfound
  constructor
  · have hscan := eq_ok_of_toOption hts
    obtain ⟨-, -, -, hnumbers, hread⟩ := compile_keeps_numbers hscan
    obtain ⟨q, hanalysed, -, hq, -⟩ := hnumbers _ _ hcompiled
    obtain ⟨hwords, hplain⟩ := Prod.mk.inj htokens
    refine ⟨ts, q, hscan, hcompiled, hanalysed, hwords, hq.symm.trans hprinted, fun t ht w hw => ?_⟩
    rw [hread t ht w hw, if_pos (of_decide_eq_true (all_eq_true.mp hplain t ht))]
  · obtain ⟨-, -, hout, -⟩ := compile_keeps_numbers (eq_ok_of_toOption hus)
    rw [hus] at hzeroed
    obtain ⟨q, hq⟩ := Option.isSome_iff_exists.mp (Option.some.inj hzeroed)
    exact hout _ hfound ⟨q, eq_ok_of_toOption hq⟩

/-- A big integer with zeros in front is printed as it is written, and is no number. -/
theorem compile_long_keeps_zeros :
    compileSource Scope.root "let a = 007n;" "" Options.standard = .ok "let a_1 = 007n;\n" ∧
      Script.numbers "let a_1 = 007n;\n" = ["007n"] ∧ Script.numberValue? "007n" = none :=
  ⟨eq_ok_of_toOption (by decide +kernel), by decide +kernel, by decide⟩

end TypedScript
