
/-!
# Character classes

The classes that decide how a source text falls into tokens.  Words, numbers and escapes are made
of ASCII characters only; white space is the Unicode property `White_Space`, which has 25 members,
so a no-break space separates tokens as well as a blank does.

* `inRanges t c`   `c` lies in one of the closed code point ranges of `t`;
* `inRuns t n`     `n` lies in one of the runs that `t` gives by their lengths;
* `isBlank`        white space;
* `isDigit`, `isHexDigit`, `isWordStart`, `isWordPart`   the ASCII classes;
* `byteLength`     the length of a text in UTF-8 bytes, the unit of all offsets.
-/

namespace TypedScript.Text

/-! ## code point ranges -/

def inRanges (ranges : List (Nat × Nat)) (c : Char) : Bool :=
  ranges.any fun r => r.1 ≤ c.toNat && c.toNat ≤ r.2

theorem inRanges_nil (c : Char) : inRanges [] c = false := rfl

theorem inRanges_cons (r : Nat × Nat) (ranges : List (Nat × Nat)) (c : Char) :
    inRanges (r :: ranges) c = (r.1 ≤ c.toNat && c.toNat ≤ r.2 || inRanges ranges c) := rfl

/-- a large class is a list of lengths: code points outside of it, inside, outside, and so on -/
def inRuns : List Nat → Nat → Bool
  | outside :: inside :: runs, n =>
    outside ≤ n && (n < outside + inside || inRuns runs (n - (outside + inside)))
  | _, _ => false

/-- the ranges of the property `White_Space` -/
def blankRanges : List (Nat × Nat) :=
  [(0x09, 0x0D), (0x20, 0x20), (0x85, 0x85), (0xA0, 0xA0), (0x1680, 0x1680), (0x2000, 0x200A),
   (0x2028, 0x2029), (0x202F, 0x202F), (0x205F, 0x205F), (0x3000, 0x3000)]

/-- white space: it separates tokens and is trimmed from an excerpt -/
def isBlank (c : Char) : Bool := inRanges blankRanges c

/-! ## ASCII classes -/

def isDigit (c : Char) : Bool := '0' ≤ c && c ≤ '9'

def isHexDigit (c : Char) : Bool :=
  isDigit c || ('a' ≤ c && c ≤ 'f') || ('A' ≤ c && c ≤ 'F')

def isWordStart (c : Char) : Bool :=
  ('a' ≤ c && c ≤ 'z') || ('A' ≤ c && c ≤ 'Z') || c == '_'

def isWordPart (c : Char) : Bool := isWordStart c || isDigit c

/-- the value of a hexadecimal digit, in either case -/
def hexValue (c : Char) : Nat :=
  if isDigit c then c.toNat - '0'.toNat
  else if 'a' ≤ c && c ≤ 'f' then c.toNat - 'a'.toNat + 10
  else c.toNat - 'A'.toNat + 10

/-! ## lengths in bytes -/

def byteLength : List Char → Nat
  | [] => 0
  | c :: cs => c.utf8Size + byteLength cs

theorem byteLength_nil : byteLength [] = 0 := rfl

theorem byteLength_cons (c : Char) (cs : List Char) :
    byteLength (c :: cs) = c.utf8Size + byteLength cs := rfl

theorem byteLength_append (a b : List Char) :
    byteLength (a ++ b) = byteLength a + byteLength b := by
  induction a with
  | nil => simp [byteLength_nil]
  | cons c a ih => simp [byteLength_cons, ih, Nat.add_assoc]

/-- the text after its first `n` bytes; a character that starts before byte `n` goes as a whole -/
def dropBytes : Nat → List Char → List Char
  | 0, cs => cs
  | _ + 1, [] => []
  | n + 1, c :: cs => dropBytes (n + 1 - c.utf8Size) cs

end TypedScript.Text
