import TypedScript.Text.Classes

/-!
# Decimal numbers

Reading of decimal numerals into bounded integers.  Only ASCII digits count, leading zeros are
allowed, and a sign stands directly before the digits; anything else, and any value out of range,
is no number.

* `natural?`   a non-empty run of digits;
* `signed64?`  an optional sign and digits, between `-2^63` and `2^63 - 1`;
* `word64?`    an optional plus sign and digits, below `2^64`.
-/

namespace TypedScript.Text

/-- the value of a run of digits -/
def digitsValue (ds : List Char) : Nat :=
  ds.foldl (fun n d => 10 * n + (d.toNat - '0'.toNat)) 0

theorem digitsValue_nil : digitsValue [] = 0 := rfl

theorem digitsValue_concat (ds : List Char) (d : Char) :
    digitsValue (ds ++ [d]) = 10 * digitsValue ds + (d.toNat - '0'.toNat) := by
  simp [digitsValue]

def natural? (cs : List Char) : Option Nat :=
  if cs ≠ [] ∧ cs.all isDigit then some (digitsValue cs) else none

/-- `2^63`, the number of values without a sign bit -/
def signBound : Nat := 9223372036854775808

/-- `2^64`, the number of all values -/
def wordBound : Nat := 18446744073709551616

/-- a magnitude of at most `2^63 - 1` -/
def nonnegative64? (cs : List Char) : Option Int :=
  (natural? cs).bind fun n => if n < signBound then some (n : Int) else none

def signed64? : List Char → Option Int
  | '-' :: cs => (natural? cs).bind fun n => if n ≤ signBound then some (-(n : Int)) else none
  | '+' :: cs => nonnegative64? cs
  | cs => nonnegative64? cs

/-- a magnitude of at most `2^64 - 1` -/
def unsigned64? (cs : List Char) : Option Nat :=
  (natural? cs).bind fun n => if n < wordBound then some n else none

def word64? : List Char → Option Nat
  | '+' :: cs => unsigned64? cs
  | cs => unsigned64? cs

end TypedScript.Text
