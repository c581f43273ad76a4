import TypedScript.Proofs.NodeParts
import TypedScript.Proofs.SourceNumbers
import TypedScript.Proofs.StringLiterals

/-!
# The keys of dicts

A dict is printed as an object, and its keys like any other expression.  In an object the target language
does not read an expression in front of a colon but the name of a property: a word or a string that names
it, a number, or an expression between square brackets that computes it.  So a literal is read as the key
that it stands for, and a variable as its own name.

A number without `n` names the property of the double that is nearest to it, so whole numbers of more than
53 significant bits are not told apart from their neighbours.
-/

namespace TypedScript

open List

namespace Script

/-! ## reading keys -/

inductive PropertyKey where
  /-- a string, as its code units -/
  | named (units : List Nat)
  | number (value : Number)
  /-- the prototype of the object, which is no property -/
  | prototype
  /-- the value of an expression -/
  | computed (text : String)
  deriving DecidableEq

/-- the nearest whole number of 53 significant bits, the even one of two (for a number in the range of a
double) -/
def rounded (n : Nat) : Nat :=
  let unit := 2 ^ (n.log2 - 52)
  let quotient := n / unit
  let rest := n % unit
  (if unit < 2 * rest ∨ (unit = 2 * rest ∧ quotient % 2 = 1) then quotient + 1 else quotient) * unit

theorem rounded_eq_self_iff (n : Nat) : rounded n = n ↔ 2 ^ (n.log2 - 52) ∣ n := by
  unfold rounded
  dsimp only
  have hunit : 0 < 2 ^ (n.log2 - 52) := Nat.two_pow_pos _
  constructor
  · intro h
    exact ⟨_, by rw [Nat.mul_comm]; exact h.symm⟩
  · intro h
    rw [Nat.mod_eq_zero_of_dvd h, if_neg (by omega), Nat.div_mul_cancel h]

example : rounded (2 ^ 53 + 1) = 2 ^ 53 ∧ rounded (2 ^ 53 + 3) = 2 ^ 53 + 4 := by decide

/-- the value that a number has as a key -/
def Number.asKey : Number → Number
  | .plain n => .plain (rounded n)
  | .big n => .big n

/-- what a name stands for if it is not computed -/
def PropertyKey.ofName (units : List Nat) : PropertyKey :=
  if units = utf16 "__proto__".toList then .prototype else .named units

/-- the number of open brackets behind some atoms, if none is closed that was not open -/
def depthAfter : Nat → List Atom → Option Nat
  | depth, [] => some depth
  | depth, .opening _ :: as => depthAfter (depth + 1) as
  | 0, .closing _ :: _ => none
  | depth + 1, .closing _ :: as => depthAfter depth as
  | depth, .word _ :: as => depthAfter depth as
  | depth, .quoted :: as => depthAfter depth as
  | depth, .mark _ :: as => depthAfter depth as

/-- the text up to the bracket that closes what is open in front of it, and the rest -/
def untilClosed (r : Reader) (depth : Nat) : List Char → Option (List Char × List Char)
  | [] => none
  | c :: cs =>
    match depthAfter depth (r.step c).2 with
    | none => some ([], c :: cs)
    | some depth => (untilClosed (r.step c).1 depth cs).map fun (inner, rest) => (c :: inner, rest)

/-- a text that holds something, but no list -/
def isSingle (text : String) : Bool :=
  (nest (atoms text)).any fun ns => !ns.isEmpty && ns.all fun n => !n.isComma

def wordKey? (w : String) : Option PropertyKey :=
  if w = "" then none
  else if isNumber w then (numberValue? w).map fun value => .number value.asKey
  else some (.ofName (utf16 w.toList))

/-- the key at the start of a text, and the rest -/
def propertyKey? : List Char → Option (PropertyKey × List Char)
  | '"' :: cs => (stringUnits? cs).map fun (units, rest) => (.ofName units, rest)
  | '[' :: cs =>
    match untilClosed .between 0 cs with
    | some (inner, ']' :: rest) =>
      if isSingle (String.ofList inner) then some (.computed (String.ofList inner), rest) else none
    | _ => none
  | cs => (wordKey? (String.ofList (cs.takeWhile Text.isWordPart))).map
      fun key => (key, cs.dropWhile Text.isWordPart)

def colonFollows (rest : List Char) : Bool := (rest.dropWhile (· = ' ')).head? = some ':'

/-- the key of an entry of an object; without a colon behind it there is none -/
def entryKey? (entry : String) : Option PropertyKey :=
  (propertyKey? entry.toList).bind fun (key, rest) => if colonFollows rest then some key else none

/-! ## words as keys -/

theorem propertyKey?_of_head (hquote : c ≠ '"') (hbracket : c ≠ '[') (cs : List Char) :
    propertyKey? (c :: cs) = (wordKey? (String.ofList ((c :: cs).takeWhile Text.isWordPart))).map
      fun key => (key, (c :: cs).dropWhile Text.isWordPart) := by
  rw [propertyKey?]
  · exact fun ds h => hquote (List.cons.inj h).1
  · exact fun ds h => hbracket (List.cons.inj h).1

theorem propertyKey?_word (hw : IsWord w) (hrest : StopsAt Text.isWordPart rest) :
    propertyKey? (w.toList ++ rest) = (wordKey? w).map fun key => (key, rest) := by
  obtain ⟨c, cs, hlist⟩ := exists_cons_of_ne_nil hw.nonempty
  have hc : Text.isWordPart c = true := hw.parts c (hlist ▸ mem_cons_self)
  have hne : ∀ d, Text.isWordPart d = false → c ≠ d := by
    rintro d hd rfl
    exact Bool.false_ne_true (hd.symm.trans hc)
  have hsplit : (w.toList ++ rest).takeWhile Text.isWordPart = w.toList ∧
      (w.toList ++ rest).dropWhile Text.isWordPart = rest := by
    rw [takeWhile_append_of_pos hw.parts, dropWhile_append_of_pos hw.parts]
    cases rest with
    | nil => simp
    | cons d ds => simp [hrest d rfl]
  have hcons : w.toList ++ rest = c :: (cs ++ rest) := by rw [hlist, cons_append]
  rw [hcons, propertyKey?_of_head (hne _ (by decide)) (hne _ (by decide)), ← hcons, hsplit.1, hsplit.2,
    String.ofList_toList]

/-! ## keys in front of a colon -/

theorem entryKey?_append (t value : String) : entryKey? (t ++ ": " ++ value)
    = (propertyKey? (t.toList ++ ':' :: ' ' :: value.toList)).bind
        fun (key, after) => if colonFollows after then some key else none := by
  unfold entryKey?
  congr 2
  simp

theorem stopsAt_colon (cs : List Char) : StopsAt Text.isWordPart (':' :: cs) := stopsAt_cons (by decide)

theorem entryKey?_of_key {t : String} {value : String}
    (h : propertyKey? (t.toList ++ ':' :: ' ' :: value.toList) = some (key, ':' :: ' ' :: value.toList)) :
    entryKey? (t ++ ": " ++ value) = some key := by
  rw [entryKey?_append, h]
  rfl

theorem entryKey?_word (hw : IsWord w) (value : String) : entryKey? (w ++ ": " ++ value) = wordKey? w := by
  rw [entryKey?_append, propertyKey?_word hw (stopsAt_colon _)]
  cases wordKey? w <;> rfl

/-! ## names of properties -/

theorem utf16_inj_of_plain (hds : ∀ d ∈ ds, d.toNat < 0xD800) (h : utf16 cs = utf16 ds) : cs = ds := by
  induction ds generalizing cs with
  | nil =>
    cases cs with
    | nil => rfl
    | cons c cs =>
      have hpos := length_utf16_pos (cons_ne_nil c cs)
      rw [h] at hpos
      exact absurd hpos (Nat.lt_irrefl 0)
  | cons d ds ih =>
    obtain ⟨hd, hds⟩ := forall_mem_cons.mp hds
    have hunits : unitsOf d.toNat = [d.toNat] := if_pos (by omega)
    cases cs with
    | nil =>
      rw [utf16_cons, hunits] at h
      cases h
    | cons c cs =>
      rw [utf16_cons, utf16_cons, hunits] at h
      by_cases hc : c.toNat < 0x10000
      · have hplain : unitsOf c.toNat = [c.toNat] := if_pos hc
        rw [hplain] at h
        obtain ⟨hhead, htail⟩ := List.cons.inj h
        rw [Char.toNat_inj.mp hhead, ih hds htail]
      · -- the first unit of a pair is no character
        have hpair : unitsOf c.toNat = [0xD800 + (c.toNat - 0x10000) / 0x400,
            0xDC00 + (c.toNat - 0x10000) % 0x400] := if_neg hc
        rw [hpair] at h
        have hhead := (List.cons.inj h).1
        omega

theorem ofName_utf16 (h : x ≠ "__proto__") :
    PropertyKey.ofName (utf16 x.toList) = .named (utf16 x.toList) := by
  refine if_neg fun heq => h ?_
  exact String.toList_inj.mp (utf16_inj_of_plain (by simp) heq)

theorem wordKey?_name (hx : IsName x) (h : x ≠ "__proto__") :
    wordKey? x = some (.named (utf16 x.toList)) := by
  have hne : x ≠ "" := by
    rintro rfl
    exact hx.word.nonempty rfl
  rw [wordKey?, if_neg hne, hx.notNumber, if_neg Bool.false_ne_true, ofName_utf16 h]

theorem wordKey?_number (hw : isNumber w = true) :
    wordKey? w = (numberValue? w).map fun value => .number value.asKey := by
  have hne : w ≠ "" := by
    rintro rfl
    exact absurd hw (by decide)
  rw [wordKey?, if_neg hne, hw, if_pos rfl]

end Script

open Script (PropertyKey IsName NulsApart entryKey? utf16)

/-! ## literals -/

def Literal.key : Literal → PropertyKey
  | .integer n => .number (.plain n.toNat)
  | .long digits => .number (.big (Text.digitsValue digits.toList))
  | .string s => .named (utf16 s.toList)
  | .boolean b => .named (utf16 (if b then "true" else "false").toList)
  | .null => .named (utf16 "null".toList)

/-- the literals that are read as the key that they stand for -/
def Literal.KeepsKey : Literal → Prop
  | .integer n => 2 ^ (n.toNat.log2 - 52) ∣ n.toNat
  | .long digits => digits = "0" ∨ digits.toList.head? ≠ some '0'
  | .string s => s ≠ "__proto__" ∧ NulsApart s.toList
  | _ => True

theorem Literal.entryKey?_string (s value : String) :
    entryKey? (Script.stringLiteral s ++ ": " ++ value) = some (key (.string s)) ↔
      KeepsKey (.string s) := by
  obtain ⟨us, hread, _, hkept, hlost⟩ := Script.stringUnits?_remainder s.toList (':' :: ' ' :: value.toList)
  have hkey : entryKey? (Script.stringLiteral s ++ ": " ++ value) = some (.ofName us) := by
    refine Script.entryKey?_of_key ?_
    have htext : (Script.stringLiteral s).toList ++ ':' :: ' ' :: value.toList
        = '"' :: Script.remainder s.toList (':' :: ' ' :: value.toList) := by
      simp [Script.toList_stringLiteral, Script.remainder]
    rw [htext, Script.propertyKey?, hread]
    rfl
  rw [hkey]
  constructor
  · intro h
    have hname : PropertyKey.ofName us = .named (utf16 s.toList) := Option.some.inj h
    unfold PropertyKey.ofName at hname
    split at hname
    · cases hname
    · next hproto =>
      have hus : us = utf16 s.toList := PropertyKey.named.inj hname
      refine ⟨?_, hlost (by rw [hus])⟩
      rintro rfl
      exact hproto hus
  · rintro ⟨hproto, hapart⟩
    rw [hkept hapart, Script.ofName_utf16 hproto]
    rfl

/-- a literal is read as the key that it stands for, with four exceptions -/
theorem Literal.entryKey?_iff {v : Literal} (hv : v.WellFormed) (value : String) :
    entryKey? (Script.literalText v ++ ": " ++ value) = some v.key ↔ v.KeepsKey := by
  cases v with
  | integer n =>
    obtain ⟨m, rfl⟩ := Int.eq_ofNat_of_zero_le hv.1
    have hword := Script.entryKey?_word (Script.isWord_toString m) value
    rw [Script.wordKey?_number (Script.isNumber_toString m), Script.numberValue?_toString] at hword
    have hread : entryKey? (toString m ++ ": " ++ value) = some (.number (.plain (Script.rounded m))) := hword
    show entryKey? (toString m ++ ": " ++ value) = some (.number (.plain m)) ↔ 2 ^ (m.log2 - 52) ∣ m
    rw [hread, ← Script.rounded_eq_self_iff]
    simp
  | long digits =>
    have hword := Script.entryKey?_word (Script.isWord_long hv) value
    rw [Script.wordKey?_number (Script.isNumber_of_isNumeral hv "n"), Script.numberValue?_long hv] at hword
    show entryKey? (digits ++ "n" ++ ": " ++ value) = some (key (.long digits)) ↔
      digits = "0" ∨ digits.toList.head? ≠ some '0'
    rw [hword]
    split
    · next hplain => exact iff_of_true rfl hplain
    · next hplain => exact iff_of_false nofun hplain
  | string s => exact entryKey?_string s value
  | boolean b =>
    refine iff_of_true ?_ trivial
    cases b <;>
      exact (Script.entryKey?_word (Script.isWord_of_all (by decide) (by decide)) value).trans (by decide)
  | null =>
    refine iff_of_true ?_ trivial
    exact (Script.entryKey?_word (Script.isWord_of_all (by decide) (by decide)) value).trans (by decide)

/-! ## compiled programs -/

theorem Expr.drawn_of_mem_entries {es : List (Expr × Expr)} {key value : Expr} (h : (key, value) ∈ es) :
    key.DrawnFrom (Expr.entryLiterals es) (Expr.entryUses es) := by
  induction es with
  | nil => exact nomatch h
  | cons entry es ih =>
    rcases mem_cons.mp h with rfl | h
    · exact ((Expr.DrawnFrom.refl key).left _ _).left _ _
    · exact (ih h).right _ _

/-- The keys of the dicts of a compiled program, as the target language reads them.  A literal is read as the
value that it stands for, except the string `__proto__`, a string with an octal digit behind a NUL, a long
with a superfluous zero, and an integer of more than 53 significant bits that no double holds.  A variable is
read as the name of a property. -/
theorem compile_prints_bare_keys {p q : Program} (hp : p.WellFormed) (h : analyse Scope.root p = .ok q) :
    BodyLowers (naming q) q (script q) ∧
    ∀ P ∈ placesOf Scope.root q, ∀ entries t, .dict entries t ∈ P.nodes → ∀ entry ∈ entries,
      let printed := (entry.1.named (naming q)).text ++ ": " ++ (entry.2.named (naming q)).text
      (∀ v u, entry.1 = .literal v u → (entryKey? printed = some v.key ↔ v.KeepsKey)) ∧
      ∀ x u, entry.1 = .name x u → entryKey? printed = some (.named (utf16 (x.label (naming q)).toList)) := by
  refine ⟨lowers_naming q, fun P hP entries t hdict entry hentry => ?_⟩
  have hdrawn := (Expr.drawn_of_mem_entries hentry).mono (drawn_bodyPlaces _ [] q P hP _ hdict).literals
    (drawn_bodyPlaces _ [] q P hP _ hdict).uses
  have hlabelled := hdrawn.labelled (labelled_naming hp h)
  refine ⟨fun v u hv => ?_, fun x u hx => ?_⟩
  · rw [hv] at hlabelled ⊢
    exact Literal.entryKey?_iff (hlabelled.literals v mem_cons_self) _
  · rw [hx] at hlabelled hdrawn ⊢
    have hname : IsName (x.label (naming q)) := Expr.legible (.name x u) hlabelled
    have hproto : x.label (naming q) ≠ "__proto__" := by
      refine fun hproto => label_not_mem_fixedWords h (serves_lowerBody h) (hdrawn.uses mem_cons_self) ?_
      exact hproto.symm ▸ (by decide : "__proto__" ∈ fixedWords)
    exact (Script.entryKey?_word hname.word _).trans (Script.wordKey?_name hname hproto)

/-- `let a = "x"; let d = {"k": 1, a: 2};`, before and behind the check -/
def keyedDict (typed : Ty → Option Ty) (a d : Option DeclId) (use : Option Resolution) : Program :=
  [.declare false [⟨"a", none, a, typed .string⟩] [.literal (.string "x") (typed .string)],
   .declare false [⟨"d", none, d, typed (.dict .string .int)⟩]
    [.dict [(.literal (.string "k") (typed .string), .literal (.integer 1) (typed .int)),
        (.name ⟨"a", use⟩ (typed .string), .literal (.integer 2) (typed .int))]
      (typed (.dict .string .int))]]

theorem wellFormed_keyedDict : (keyedDict (fun _ => none) none none none).WellFormed := by
  have hnumber : ∀ n : Int, 0 ≤ n ∧ n < Text.signBound → Expr.WellFormed (.literal (.integer n) none) :=
    fun n hn => .literal hn
  have hdict : Expr.WellFormed (.dict [(.literal (.string "k") none, .literal (.integer 1) none),
      (.name ⟨"a", none⟩ none, .literal (.integer 2) none)] none) := by
    refine .dict ?_ ?_
    · simpa using ⟨Expr.WellFormed.literal trivial, Expr.WellFormed.name (by decide)⟩
    · simpa using ⟨hnumber 1 (by decide), hnumber 2 (by decide)⟩
  intro s hs
  rcases mem_cons.mp hs with rfl | hs
  · refine .declare (cons_ne_nil _ _) (fun d hd => ?_) fun e he => ?_
    · rw [mem_singleton.mp hd]
      exact ⟨by decide, nofun, rfl, rfl⟩
    · exact mem_singleton.mp he ▸ .literal trivial
  · rw [mem_singleton.mp hs]
    refine .declare (cons_ne_nil _ _) (fun d hd => ?_) fun e he => mem_singleton.mp he ▸ hdict
    rw [mem_singleton.mp hd]
    exact ⟨by decide, nofun, rfl, rfl⟩

/-- the first key is read as it is meant, the second as the name of its variable -/
theorem compile_prints_bare_keys_variable :
    let p := keyedDict (fun _ => none) none none none
    let q := keyedDict some (some 1) (some 2) (some (.declared 1))
    p.WellFormed ∧ analyse Scope.root p = .ok q ∧
      entryKey? "\"k\": 1" = some (.named (utf16 "k".toList)) ∧
      entryKey? "a_1: 2" = some (.named (utf16 "a_1".toList)) := by
  intro p q
  have h : analyse Scope.root p = .ok q := by cbv
  have hP : ⟨Scope.root.sight, [q[0]], q[1]⟩ ∈ placesOf Scope.root q :=
    mem_of_getElem? (show (placesOf Scope.root q)[1]? = _ from rfl)
  have hkeys := (compile_prints_bare_keys wellFormed_keyedDict h).2 _ hP _ _ mem_cons_self
  have hstring := (hkeys _ mem_cons_self).1 _ _ rfl
  have hvariable := (hkeys _ (mem_cons_of_mem _ mem_cons_self)).2 _ _ rfl
  refine ⟨wellFormed_keyedDict, h, ?_, ?_⟩
  · refine hstring.mpr ⟨by decide, ?_⟩
    exact Script.nulsApart_cons.mpr ⟨fun _ => stopsAt_nil _, fun a b hnil => by simp at hnil⟩
  · exact hvariable

/-- A variable is not evaluated where it is a key: the key is its name with its number, and changes with
another declaration in front of it. -/
theorem compile_prints_variable_as_key :
    compileSource Scope.root "let a = \"x\"; let d = \x7ba: 1\x7d;" "" Options.standard
      = .ok "let a_1 = \"x\";\nlet d_2 = \x7b a_1: 1 \x7d;\n" ∧
    compileSource Scope.root "let b = 1; let a = \"x\"; let d = \x7ba: 1\x7d;" "" Options.standard
      = .ok "let b_1 = 1;\nlet a_2 = \"x\";\nlet d_3 = \x7b a_2: 1 \x7d;\n" ∧
    entryKey? "a_1: 1" = some (.named (utf16 "a_1".toList)) ∧ entryKey? "a_1: 1" ≠ entryKey? "a_2: 1" ∧
    entryKey? "[a_1]: 1" = some (.computed "a_1") :=
  ⟨eq_ok_of_toOption (by decide +kernel), eq_ok_of_toOption (by decide +kernel), by decide +kernel,
    by decide +kernel, by decide +kernel⟩

end TypedScript
