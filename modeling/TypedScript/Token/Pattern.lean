import TypedScript.Text.Classes
import TypedScript.Token.Basic

/-!
# Lexemes

A source text falls into lexemes.  Each kind of lexeme is a `Pattern`; `Pattern.split?` cuts the
lexeme of that kind from the front of a text, and `Pattern.read` says which token a lexeme stands
for.  White space and comments stand for none.

The patterns are tried in the order of `Pattern.table`, so that a longer mark comes before its
beginnings, a long number before a number and a comment before a slash.

* `stringBody?`   finds the closing quote: a backslash protects the character after it, which must
                  not be a newline;
* `unescape`      the value of the text between the quotes.
-/

namespace TypedScript

open Text

/-! ## string literals -/

/-- cuts a text after its first unprotected quote; the first part ends with that quote -/
def stringBody? : List Char → Option (List Char × List Char)
  | [] => none
  | '"' :: cs => some (['"'], cs)
  | ['\\'] => none
  | '\\' :: c :: cs =>
    if c = '\n' then none else (stringBody? cs).map fun (a, b) => ('\\' :: c :: a, b)
  | c :: cs => (stringBody? cs).map fun (a, b) => (c :: a, b)

/-- the value of an escape with one letter -/
def simpleEscape? : Char → Option Char
  | 'n' => some '\n'
  | 't' => some '\t'
  | '\\' => some '\\'
  | 'r' => some '\r'
  | '"' => some '"'
  | '0' => some '\x00'
  | _ => none

/-- the value of the text between the quotes: `\x` takes one or two hexadecimal digits, and a
backslash before any other character stands for itself -/
def unescape : List Char → List Char
  | [] => []
  | ['\\'] => ['\\']
  | '\\' :: c :: cs =>
    match simpleEscape? c with
    | some v => v :: unescape cs
    | none =>
      if c = 'x' then
        match cs with
        | a :: b :: rest =>
          if isHexDigit a then
            if isHexDigit b then Char.ofNat (16 * hexValue a + hexValue b) :: unescape rest
            else Char.ofNat (hexValue a) :: unescape (b :: rest)
          else '\\' :: 'x' :: unescape (a :: b :: rest)
        | [a] => if isHexDigit a then [Char.ofNat (hexValue a)] else ['\\', 'x', a]
        | [] => ['\\', 'x']
      else '\\' :: c :: unescape cs
  | c :: cs => c :: unescape cs

theorem unescape_plain {c : Char} (hc : c ≠ '\\') (cs : List Char) :
    unescape (c :: cs) = c :: unescape cs := by
  rw [unescape]
  all_goals grind

/-! ## patterns -/

inductive Pattern where
  | word
  | longNumber
  | number
  | blank
  | string
  | comment
  | mark (m : Mark)
  deriving DecidableEq, Repr, Inhabited

namespace Pattern

/-- all patterns, in the order in which they are tried -/
def table : List Pattern :=
  [word, longNumber, number, blank, string, comment] ++ Mark.all.map mark

/-- the maximal run of characters of a class, if it is not empty, and the rest -/
def run? (p : Char → Bool) (text : List Char) : Option (List Char × List Char) :=
  if text.takeWhile p = [] then none else some (text.takeWhile p, text.dropWhile p)

/-- what is left of a text after a given beginning -/
def after? : List Char → List Char → Option (List Char)
  | [], text => some text
  | _ :: _, [] => none
  | c :: cs, d :: text => if c = d then after? cs text else none

/-- the lexeme at the front of a text and the rest -/
def split? : Pattern → List Char → Option (List Char × List Char)
  | word, c :: cs =>
    if isWordStart c then some (c :: cs.takeWhile isWordPart, cs.dropWhile isWordPart) else none
  | longNumber, text =>
    match run? isDigit text with
    | some (ds, 'n' :: rest) => some (ds ++ ['n'], rest)
    | _ => none
  | number, text => run? isDigit text
  | blank, text => run? isBlank text
  | string, '"' :: cs => (stringBody? cs).map fun (a, b) => ('"' :: a, b)
  | comment, '/' :: '/' :: cs =>
    some ('/' :: '/' :: cs.takeWhile (· != '\n'), cs.dropWhile (· != '\n'))
  | mark m, text => (after? m.spelling.toList text).map fun rest => (m.spelling.toList, rest)
  | _, _ => none

/-- the token that a lexeme stands for -/
def read : Pattern → List Char → Option (TokenKind × String)
  | word, l =>
    match Keyword.ofSpelling? (String.ofList l) with
    | some k => some (.keyword k, String.ofList l)
    | none => some (.identifier, String.ofList l)
  | longNumber, l => some (.longNumber, String.ofList l.dropLast)
  | number, l => some (.number, String.ofList l)
  | string, l => some (.string, String.ofList (unescape (l.drop 1).dropLast))
  | mark m, _ => some (.mark m, m.spelling)
  | blank, _ => none
  | comment, _ => none

/-- the first pattern that has a lexeme at the front of a text, with the lexeme and the rest -/
def first? (text : List Char) : Option (Pattern × List Char × List Char) :=
  table.findSome? fun p => (p.split? text).map fun s => (p, s)

/-! ## a lexeme is a non-empty front part -/

theorem run?_append {p : Char → Bool} {text l rest : List Char}
    (h : run? p text = some (l, rest)) : l ++ rest = text ∧ l ≠ [] := by
  unfold run? at h
  split at h
  · simp at h
  · next hne =>
    cases h
    exact ⟨List.takeWhile_append_dropWhile, hne⟩

theorem stringBody?_append : ∀ {text l rest : List Char},
    stringBody? text = some (l, rest) → l ++ rest = text := by
  intro text
  fun_induction stringBody? text with
  | case1 => intro l rest h; simp at h
  | case2 cs => intro l rest h; cases h; rfl
  | case3 => intro l rest h; simp at h
  | case4 c => intro l rest h; simp at h
  | case5 c cs hc ih =>
    intro l rest h
    obtain ⟨⟨a, b⟩, hab, he⟩ := Option.map_eq_some_iff.mp h
    cases he
    simp [ih hab]
  | case6 c cs _ _ _ ih =>
    intro l rest h
    obtain ⟨⟨a, b⟩, hab, he⟩ := Option.map_eq_some_iff.mp h
    cases he
    simp [ih hab]

theorem after?_append {a text rest : List Char} (h : after? a text = some rest) :
    a ++ rest = text := by
  fun_induction after? a text with
  | case1 text => simpa using h.symm
  | case2 => simp at h
  | case3 a text d ih => simp [ih h]
  | case4 => simp at h

theorem mark_spelling_ne_nil (m : Mark) : m.spelling.toList ≠ [] := by cases m <;> decide

theorem split?_append {p : Pattern} {text l rest : List Char} (h : p.split? text = some (l, rest)) :
    l ++ rest = text ∧ l ≠ [] := by
  unfold split? at h
  split at h
  · split at h
    · cases h
      exact ⟨by simp [List.takeWhile_append_dropWhile], by simp⟩
    · simp at h
  · split at h
    · next ds tail hrun =>
      cases h
      exact ⟨by simpa using (run?_append hrun).1, by simp⟩
    · simp at h
  · exact run?_append h
  · exact run?_append h
  · obtain ⟨⟨a, b⟩, hab, he⟩ := Option.map_eq_some_iff.mp h
    cases he
    exact ⟨by simp [stringBody?_append hab], by simp⟩
  · cases h
    exact ⟨by simp [List.takeWhile_append_dropWhile], by simp⟩
  · obtain ⟨r, hr, he⟩ := Option.map_eq_some_iff.mp h
    cases he
    exact ⟨after?_append hr, mark_spelling_ne_nil _⟩
  · simp at h

theorem first?_split {text l rest : List Char} {p : Pattern}
    (h : first? text = some (p, l, rest)) : p.split? text = some (l, rest) := by
  obtain ⟨q, _, hq⟩ := List.exists_of_findSome?_eq_some h
  obtain ⟨s, hs, he⟩ := Option.map_eq_some_iff.mp hq
  cases he
  exact hs

theorem first?_length {text l rest : List Char} {p : Pattern}
    (h : first? text = some (p, l, rest)) : rest.length < text.length := by
  obtain ⟨happ, hne⟩ := split?_append (first?_split h)
  have hpos : 0 < l.length := List.length_pos_iff.mpr hne
  rw [← happ, List.length_append]
  omega

end Pattern

end TypedScript
