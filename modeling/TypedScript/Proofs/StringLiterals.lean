import TypedScript.Proofs.Tiling
import TypedScript.Script.Text

/-!
# Reading string literals back

A string of a script is written between double quotes, each character by itself or by an escape.  Two
readers take such a literal apart again: the scanner of the language, which gives back the string that
was written, and the target language, whose strings are sequences of UTF-16 code units.

The two differ in one escape.  The scanner ends `\0` after its zero.  In the target language the octal
digits behind the zero belong to the escape, so a NUL in front of an octal digit is not read back.
-/

namespace TypedScript

open Text List

/-! ## written characters -/

namespace Script

theorem isHexDigit_hexDigit : ∀ n < 16, isHexDigit (hexDigit n) = true := by decide

theorem hexValue_hexDigit : ∀ n < 16, hexValue (hexDigit n) = n := by decide

/-- as itself, by an escape with one letter, or by its two hexadecimal digits -/
theorem literalChar_cases (c : Char) :
    literalChar c = [c] ∧ c ≠ '"' ∧ c ≠ '\\' ∧ c ≠ '\n' ∧ c ≠ '\r' ∨
    (∃ e, literalChar c = ['\\', e] ∧ simpleEscape? e = some c) ∨
    ∃ a b, literalChar c = ['\\', 'x', a, b] ∧ isHexDigit a ∧ isHexDigit b ∧
      16 * hexValue a + hexValue b = c.toNat ∧ c.toNat < 256 := by
  unfold literalChar
  split
  · next h => exact .inr (.inl ⟨'"', rfl, by rw [h]; rfl⟩)
  next hquote =>
  split
  · next h => exact .inr (.inl ⟨'\\', rfl, by rw [h]; rfl⟩)
  next hbackslash =>
  split
  · next h => exact .inr (.inl ⟨'n', rfl, by rw [h]; rfl⟩)
  next hnewline =>
  split
  · next h => exact .inr (.inl ⟨'t', rfl, by rw [h]; rfl⟩)
  split
  · next h => exact .inr (.inl ⟨'r', rfl, by rw [h]; rfl⟩)
  next hreturn =>
  split
  · next h => exact .inr (.inl ⟨'0', rfl, by rw [h]; rfl⟩)
  split
  · next hcontrol =>
    have hsmall : c.toNat < 256 := by
      rw [Bool.or_eq_true, decide_eq_true_iff, decide_eq_true_iff] at hcontrol
      omega
    have hhigh : c.toNat / 16 < 16 := Nat.div_lt_of_lt_mul hsmall
    have hlow : c.toNat % 16 < 16 := Nat.mod_lt _ (by decide)
    refine .inr (.inr ⟨_, _, rfl, isHexDigit_hexDigit _ hhigh, isHexDigit_hexDigit _ hlow, ?_, hsmall⟩)
    rw [hexValue_hexDigit _ hhigh, hexValue_hexDigit _ hlow]
    exact Nat.div_add_mod _ _
  · exact .inl ⟨rfl, hquote, hbackslash, hnewline, hreturn⟩

/-! ## the scanner -/

/-- the text between the quotes stands for the string that was written -/
theorem denotes_literal (cs : List Char) : Denotes (cs.flatMap literalChar) cs := by
  induction cs with
  | nil => exact .nil
  | cons c cs ih =>
    rw [flatMap_cons]
    rcases literalChar_cases c with ⟨h, hquote, hbackslash, _⟩ | ⟨e, h, he⟩ | ⟨a, b, h, ha, hb, hvalue, _⟩
    · rw [h]
      exact .plain hquote hbackslash ih
    · rw [h]
      exact .simple he ih
    · have hpair := Denotes.hexPair ha hb ih
      rw [hvalue, Char.ofNat_toNat] at hpair
      rw [h]
      exact hpair

theorem toList_stringLiteral (v : String) :
    (stringLiteral v).toList = '"' :: (v.toList.flatMap literalChar ++ ['"']) :=
  String.toList_ofList

theorem matches_stringLiteral (v : String) : Pattern.string.Matches (stringLiteral v).toList :=
  ⟨v.toList.flatMap literalChar, toList_stringLiteral v, (denotes_literal v.toList).protected⟩

theorem read_stringLiteral (v : String) :
    Pattern.string.read (stringLiteral v).toList = some (.string, v) := by
  show some (TokenKind.string, String.ofList (unescape ((stringLiteral v).toList.drop 1).dropLast)) = _
  rw [toList_stringLiteral, drop_one, tail_cons, dropLast_concat,
    (denotes_literal v.toList).unescape_eq, String.ofList_toList]

end Script

open Script (stringLiteral)

/-- The scanner reads a string literal as one token that stands for the string and covers the literal.
What follows the literal makes no difference to that token: it is read as if it stood alone. -/
theorem scan_stringLiteral (v rest file : String) : let size := byteLength (stringLiteral v).toList
    let token : Token := ⟨.string, v, ⟨0, size, file⟩⟩
    scan (stringLiteral v) file = .ok [token, .endOf ⟨size, size, file⟩] ∧
      (Reader.ofText (stringLiteral v ++ rest)).next?
        = some (.string, (stringLiteral v).toList, ⟨size, rest.toList⟩) ∧
      scan (stringLiteral v ++ rest) file
        = (Reader.tokens file ⟨size, rest.toList⟩).map (token :: ·) := by
  intro size token
  have hfirst : ∀ text, Pattern.first? ((stringLiteral v).toList ++ text)
      = some (.string, (stringLiteral v).toList, text) :=
    fun text => Pattern.first?_string (Script.matches_stringLiteral v)
  have hsize : 0 + size = size := Nat.zero_add size
  have hscan : ∀ text, Reader.tokens file ⟨0, (stringLiteral v).toList ++ text⟩
      = (Reader.tokens file ⟨size, text⟩).map (token :: ·) := by
    intro text
    have htokens : Reader.tokens file ⟨0, (stringLiteral v).toList ++ text⟩
        = (Reader.tokens file ⟨0 + size, text⟩).map (⟨.string, v, ⟨0, 0 + size, file⟩⟩ :: ·) :=
      Reader.tokens_token (hfirst text) (Script.read_stringLiteral v)
    rwa [hsize] at htokens
  refine ⟨?_, ?_, ?_⟩
  · have halone := hscan []
    rw [append_nil, Reader.tokens_nil] at halone
    exact halone
  · have hnext := Reader.next?_of_first? (n := 0) (hfirst rest.toList)
    rw [hsize, ← String.toList_append] at hnext
    exact hnext
  · have hrest := hscan rest.toList
    rw [← String.toList_append] at hrest
    exact hrest

/-! ## the target language -/

namespace Script

variable {us : List Nat} {cs rest : List Char}

/-- a code point as UTF-16 code units -/
def unitsOf (n : Nat) : List Nat :=
  if n < 0x10000 then [n] else [0xD800 + (n - 0x10000) / 0x400, 0xDC00 + (n - 0x10000) % 0x400]

/-- a string of the target language -/
def utf16 (cs : List Char) : List Nat := cs.flatMap fun c => unitsOf c.toNat

def isOctalDigit (c : Char) : Bool := '0' ≤ c && c ≤ '7'

def isLineTerminator (c : Char) : Bool :=
  c == '\n' || c == '\r' || c == '\u2028' || c == '\u2029'

/-- what a character behind a backslash stands for: a control character, or itself -/
def singleEscape : Char → Nat
  | 'b' => 0x08
  | 't' => 0x09
  | 'n' => 0x0A
  | 'v' => 0x0B
  | 'f' => 0x0C
  | 'r' => 0x0D
  | c => c.toNat

/-- at most `k` further octal digits of a number that starts with `n` -/
def octalDigits : Nat → Nat → List Char → Nat × List Char
  | k + 1, n, c :: cs =>
    if isOctalDigit c then octalDigits k (8 * n + (c.toNat - '0'.toNat)) cs else (n, c :: cs)
  | _, n, cs => (n, cs)

def hexNumber (ds : List Char) : Nat := ds.foldl (fun n d => 16 * n + hexValue d) 0

def codePointUnits? (ds : List Char) : Option (List Nat) :=
  if ds ≠ [] ∧ hexNumber ds ≤ 0x10FFFF then some (unitsOf (hexNumber ds)) else none

/-- what follows `\u`: a code point between curly brackets, or a code unit with four digits -/
def unicodeEscape? : List Char → Option (List Nat × List Char)
  | '\x7b' :: cs =>
    match cs.dropWhile isHexDigit with
    | '\x7d' :: rest => (codePointUnits? (cs.takeWhile isHexDigit)).map fun us => (us, rest)
    | _ => none
  | a :: b :: c :: d :: rest =>
    if [a, b, c, d].all isHexDigit then some ([hexNumber [a, b, c, d]], rest) else none
  | _ => none

/-- an escape without its backslash.  It starts with an octal digit, which up to two more may follow;
with `x` and two hexadecimal digits; with `u`; or with any other character, where the end of a line
stands for nothing and a character without a meaning of its own for itself. -/
def escape? : List Char → Option (List Nat × List Char)
  | [] => none
  | 'x' :: cs =>
    match cs with
    | a :: b :: rest =>
      if isHexDigit a && isHexDigit b then some ([16 * hexValue a + hexValue b], rest) else none
    | _ => none
  | 'u' :: cs => unicodeEscape? cs
  | '\r' :: '\n' :: cs => some ([], cs)
  | c :: cs =>
    if isOctalDigit c then
      some ((octalDigits (if c ≤ '3' then 2 else 1) (c.toNat - '0'.toNat) cs).map (fun n => [n]) id)
    else if isLineTerminator c then some ([], cs)
    else some (unitsOf (singleEscape c), cs)

theorem length_octalDigits (k n : Nat) (cs : List Char) : (octalDigits k n cs).2.length ≤ cs.length := by
  fun_induction octalDigits k n cs with
  | case1 k n c cs _ ih => exact Nat.le_succ_of_le ih
  | case2 => exact Nat.le_refl _
  | case3 => exact Nat.le_refl _

theorem length_unicodeEscape? (h : unicodeEscape? cs = some (us, rest)) : rest.length < cs.length := by
  unfold unicodeEscape? at h
  split at h
  · next cs =>
    split at h
    · next tail hdrop =>
      obtain ⟨_, _, he⟩ := Option.map_eq_some_iff.mp h
      cases he
      have hle := (dropWhile_sublist (l := cs) isHexDigit).length_le
      rw [hdrop, length_cons] at hle
      exact Nat.lt_succ_of_lt (Nat.lt_of_succ_le hle)
    · cases h
  · split at h
    · cases h
      simp only [length_cons]
      omega
    · cases h
  · cases h

theorem length_escape? (h : escape? cs = some (us, rest)) : rest.length < cs.length := by
  unfold escape? at h
  split at h
  · cases h
  · split at h
    · split at h
      · cases h
        simp only [length_cons]
        omega
      · cases h
    · cases h
  · exact Nat.lt_succ_of_lt (length_unicodeEscape? h)
  · cases h
    simp only [length_cons]
    omega
  · split at h
    · cases h
      exact Nat.lt_succ_of_le (length_octalDigits _ _ _)
    split at h
    · cases h
      exact Nat.lt_succ_self _
    · cases h
      exact Nat.lt_succ_self _

/-- the code units of a literal up to its closing quote, and the text behind it -/
def stringUnits? (text : List Char) : Option (List Nat × List Char) :=
  match text with
  | [] => none
  | '"' :: cs => some ([], cs)
  | '\\' :: cs =>
    match _h : escape? cs with
    | none => none
    | some (us, rest) => (stringUnits? rest).map fun (vs, after) => (us ++ vs, after)
  | c :: cs =>
    if c = '\n' ∨ c = '\r' then none
    else (stringUnits? cs).map fun (vs, after) => (unitsOf c.toNat ++ vs, after)
termination_by text.length
decreasing_by
  · exact Nat.lt_succ_of_lt (length_escape? _h)
  · exact Nat.lt_succ_self _

/-- the string that a whole text stands for, if it is a literal -/
def stringValue? (text : String) : Option (List Nat) :=
  match text.toList with
  | '"' :: cs =>
    match stringUnits? cs with
    | some (us, []) => some us
    | _ => none
  | _ => none

/-! ### reading what is written -/

variable {c : Char}

theorem stringUnits?_plain (hquote : c ≠ '"') (hbackslash : c ≠ '\\') (hnewline : c ≠ '\n')
    (hreturn : c ≠ '\r') (cs : List Char) :
    stringUnits? (c :: cs) = (stringUnits? cs).map fun (vs, after) => (unitsOf c.toNat ++ vs, after) := by
  rw [stringUnits?, if_neg (not_or.mpr ⟨hnewline, hreturn⟩)]
  · exact hquote
  · exact hbackslash

theorem stringUnits?_escape (h : escape? cs = some (us, rest)) :
    stringUnits? ('\\' :: cs) = (stringUnits? rest).map fun (vs, after) => (us ++ vs, after) := by
  rw [stringUnits?]
  split
  · next hnone => cases h.symm.trans hnone
  · next hsome =>
    cases h.symm.trans hsome
    rfl

theorem escape?_of_simpleEscape? (h : simpleEscape? e = some c) (hnul : c ≠ '\x00') (cs : List Char) :
    escape? (e :: cs) = some (unitsOf c.toNat, cs) := by
  unfold simpleEscape? at h
  split at h
  case h_6 =>
    cases h
    exact absurd rfl hnul
  case h_7 => cases h
  all_goals
    cases h
    rfl

theorem octalDigits_of_stopsAt (h : StopsAt isOctalDigit cs) (k n : Nat) : octalDigits k n cs = (n, cs) := by
  fun_cases octalDigits k n cs with
  | case1 _ _ _ _ hc => exact absurd hc (Bool.eq_false_iff.mp (h _ rfl))
  | case2 => rfl
  | case3 => rfl

/-- a character of a string is read back; a NUL only if its escape does not go on -/
theorem stringUnits?_literalChar (h : c = '\x00' → StopsAt isOctalDigit text) :
    stringUnits? (literalChar c ++ text)
      = (stringUnits? text).map fun (vs, after) => (unitsOf c.toNat ++ vs, after) := by
  by_cases hnul : c = '\x00'
  · subst hnul
    have hzero : escape? ('0' :: text) = some ([0], text) := by
      show some ((octalDigits 2 0 text).map (fun n => [n]) id) = some ([0], text)
      rw [octalDigits_of_stopsAt (h rfl)]
      rfl
    exact stringUnits?_escape hzero
  rcases literalChar_cases c with ⟨hc, hquote, hbackslash, hnewline, hreturn⟩ | ⟨e, hc, he⟩ |
      ⟨a, b, hc, ha, hb, hvalue, hsmall⟩
  · rw [hc]
    exact stringUnits?_plain hquote hbackslash hnewline hreturn text
  · rw [hc]
    exact stringUnits?_escape (escape?_of_simpleEscape? he hnul text)
  · have hpair : escape? ('x' :: a :: b :: text) = some (unitsOf c.toNat, text) := by
      have hunits : unitsOf c.toNat = [c.toNat] := if_pos (Nat.lt_trans hsmall (by decide))
      rw [escape?, ha, hb, hvalue, hunits]
      rfl
    rw [hc]
    exact stringUnits?_escape hpair

/-- the rest of a literal: characters of the string, the closing quote, and what follows it -/
def remainder (cs rest : List Char) : List Char := cs.flatMap literalChar ++ '"' :: rest

theorem remainder_cons (c : Char) (cs rest : List Char) :
    remainder (c :: cs) rest = literalChar c ++ remainder cs rest := by
  rw [remainder, flatMap_cons, append_assoc]
  rfl

theorem literalChar_of_isOctalDigit (h : isOctalDigit d = true) : literalChar d = [d] := by
  have hrange : 48 ≤ d.toNat ∧ d.toNat ≤ 55 := by
    simpa [isOctalDigit, Char.le_def, UInt32.le_iff_toNat_le] using h
  have hne : ∀ c : Char, isOctalDigit c = false → d ≠ c := by
    rintro c hc rfl
    exact absurd h (Bool.eq_false_iff.mp hc)
  have hcontrol : ¬ (d.toNat < 0x20 || d.toNat = 0x7F) = true := by
    rw [Bool.or_eq_true, decide_eq_true_iff, decide_eq_true_iff]
    omega
  rw [literalChar, if_neg (hne _ rfl), if_neg (hne _ rfl), if_neg (hne _ rfl), if_neg (hne _ rfl),
    if_neg (hne _ rfl), if_neg (hne _ rfl), if_neg hcontrol]

theorem stopsAt_remainder (h : StopsAt isOctalDigit cs) (rest : List Char) :
    StopsAt isOctalDigit (remainder cs rest) := by
  cases cs with
  | nil => exact stopsAt_cons rfl
  | cons c cs =>
    rw [remainder_cons]
    rcases literalChar_cases c with ⟨hc, _⟩ | ⟨e, hc, _⟩ | ⟨a, b, hc, _⟩
    · rw [hc]
      exact stopsAt_cons (h c rfl)
    · rw [hc]
      exact stopsAt_cons rfl
    · rw [hc]
      exact stopsAt_cons rfl

/-- octal digits are written as themselves, so an escape in front of them takes them from the string -/
theorem octalDigits_remainder (k n : Nat) (cs rest : List Char) : ∃ ds tail m, cs = ds ++ tail ∧
    octalDigits k n (remainder cs rest) = (m, remainder tail rest) ∧
    (ds = [] → k = 0 ∨ StopsAt isOctalDigit cs) := by
  induction k generalizing n cs with
  | zero => exact ⟨[], cs, n, rfl, rfl, fun _ => .inl rfl⟩
  | succ k ih =>
    by_cases hstop : StopsAt isOctalDigit cs
    · exact ⟨[], cs, n, rfl, octalDigits_of_stopsAt (stopsAt_remainder hstop rest) _ _, fun _ => .inr hstop⟩
    cases cs with
    | nil => exact absurd (stopsAt_nil _) hstop
    | cons d cs =>
      have hd : isOctalDigit d = true :=
        Bool.of_not_eq_false fun hd => hstop (stopsAt_cons hd)
      obtain ⟨ds, tail, m, rfl, hm, _⟩ := ih (8 * n + (d.toNat - '0'.toNat)) cs
      refine ⟨d :: ds, tail, m, rfl, ?_, nofun⟩
      rw [remainder_cons, literalChar_of_isOctalDigit hd, singleton_append, octalDigits, if_pos hd, hm]

/-- no octal digit follows a NUL -/
def NulsApart (cs : List Char) : Prop := ∀ a b, cs = a ++ '\x00' :: b → StopsAt isOctalDigit b

theorem nulsApart_cons : NulsApart (c :: cs) ↔ (c = '\x00' → StopsAt isOctalDigit cs) ∧ NulsApart cs := by
  constructor
  · intro h
    refine ⟨fun hc => h [] cs (by rw [hc]; rfl), fun a b hcs => h (c :: a) b (by rw [hcs]; rfl)⟩
  · rintro ⟨hhead, htail⟩ a b hcs
    cases a with
    | nil =>
      cases hcs
      exact hhead rfl
    | cons d a =>
      cases hcs
      exact htail a b rfl

theorem length_unitsOf_pos (n : Nat) : 0 < (unitsOf n).length := by
  unfold unitsOf
  split <;> exact Nat.succ_pos _

theorem utf16_cons (c : Char) (cs : List Char) : utf16 (c :: cs) = unitsOf c.toNat ++ utf16 cs :=
  flatMap_cons

theorem length_utf16_append (cs ds : List Char) :
    (utf16 (cs ++ ds)).length = (utf16 cs).length + (utf16 ds).length := by
  rw [utf16, flatMap_append, length_append]
  rfl

theorem length_utf16_pos (h : cs ≠ []) : 0 < (utf16 cs).length := by
  obtain ⟨c, cs, rfl⟩ := exists_cons_of_ne_nil h
  rw [utf16_cons, length_append]
  exact Nat.add_pos_left (length_unitsOf_pos _) _

/-- A literal is read up to its closing quote, and each escape gives one character.  The string comes
back if no NUL takes digits from it; otherwise fewer characters come back than were written. -/
theorem stringUnits?_remainder (cs rest : List Char) :
    ∃ us, stringUnits? (remainder cs rest) = some (us, rest) ∧
    us.length ≤ (utf16 cs).length ∧ (NulsApart cs → us = utf16 cs) ∧
    (us.length = (utf16 cs).length → NulsApart cs) := by
  match cs with
  | [] =>
    refine ⟨[], by rw [remainder, flatMap_nil, nil_append, stringUnits?], Nat.le_refl _,
      fun _ => rfl, fun _ a b h => ?_⟩
    exact absurd h (append_ne_nil_of_right_ne_nil a (cons_ne_nil _ b)).symm
  | c :: cs =>
    by_cases hnul : c = '\x00' → StopsAt isOctalDigit cs
    · obtain ⟨us, hread, hle, hkept, hlost⟩ := stringUnits?_remainder cs rest
      refine ⟨unitsOf c.toNat ++ us, ?_, ?_, fun h => ?_, fun h => ?_⟩
      · rw [remainder_cons, stringUnits?_literalChar fun hc => stopsAt_remainder (hnul hc) rest, hread]
        rfl
      · rw [utf16_cons, length_append, length_append]
        exact Nat.add_le_add_left hle _
      · rw [utf16_cons, hkept (nulsApart_cons.mp h).2]
      · rw [utf16_cons, length_append, length_append] at h
        exact nulsApart_cons.mpr ⟨hnul, hlost (Nat.add_left_cancel h)⟩
    · obtain ⟨rfl, hstop⟩ := Classical.not_imp.mp hnul
      obtain ⟨ds, tail, m, hcs, hm, hds⟩ := octalDigits_remainder 2 0 cs rest
      have hne : ds ≠ [] := fun h => hstop ((hds h).resolve_left (by decide))
      have htail : tail.length ≤ cs.length := by
        rw [hcs, length_append]
        exact Nat.le_add_left _ _
      obtain ⟨us, hread, hle, _⟩ := stringUnits?_remainder tail rest
      subst hcs
      have hshort : (m :: us).length < (utf16 ('\x00' :: (ds ++ tail))).length := by
        have hpos := length_utf16_pos hne
        rw [utf16_cons, length_append, length_utf16_append, length_cons]
        show us.length + 1 < 1 + _
        omega
      have hescape : escape? ('0' :: remainder (ds ++ tail) rest) = some ([m], remainder tail rest) := by
        show some ((octalDigits 2 0 (remainder (ds ++ tail) rest)).map (fun n => [n]) id) = _
        rw [hm]
        rfl
      refine ⟨m :: us, ?_, Nat.le_of_lt hshort, fun h => ?_, fun h => ?_⟩
      · rw [remainder_cons]
        exact (stringUnits?_escape hescape).trans (by rw [hread]; rfl)
      · exact absurd ((nulsApart_cons.mp h).1 rfl) hstop
      · exact absurd h (Nat.ne_of_lt hshort)
termination_by cs.length
decreasing_by
  · exact Nat.lt_succ_self _
  · exact Nat.lt_succ_of_le htail

theorem stringValue?_of_units {v : String} (h : stringUnits? (remainder v.toList []) = some (us, [])) :
    stringValue? (stringLiteral v) = some us := by
  have htext : (stringLiteral v).toList = '"' :: remainder v.toList [] := toList_stringLiteral v
  unfold stringValue?
  rw [htext]
  simp only [h]

/-- The target language reads every string literal, and reads the string that was written if and only
if no octal digit follows a NUL in it. -/
theorem stringValue?_stringLiteral_iff (v : String) :
    (∃ us, stringValue? (stringLiteral v) = some us) ∧
      (stringValue? (stringLiteral v) = some (utf16 v.toList) ↔
        ∀ a b, v.toList = a ++ '\x00' :: b → StopsAt isOctalDigit b) := by
  obtain ⟨us, hread, _, hkept, hlost⟩ := stringUnits?_remainder v.toList []
  have hvalue := stringValue?_of_units hread
  refine ⟨⟨us, hvalue⟩, fun h => ?_, fun h => ?_⟩
  · rw [hvalue] at h
    exact hlost (congrArg List.length (Option.some.inj h))
  · rw [hvalue, hkept h]

/-- a NUL and the digit one are written as the escape of another character -/
theorem stringValue?_nul_one : stringLiteral "\x001" = "\"\\01\"" ∧
    stringValue? (stringLiteral "\x001") = some [1] ∧ utf16 "\x001".toList = [0, 49] ∧
    stringValue? (stringLiteral "\x001") ≠ some (utf16 "\x001".toList) := by
  decide +kernel

end Script

end TypedScript
