import TypedScript.Text.Hidden
import TypedScript.Text.Extender

/-!
# Texts quoted in messages

A message shows a text between double quotes.  Quotes, backslashes and the usual control characters
are written with a backslash, a hidden character by its code point (`\u{200d}`), and everything
else, the apostrophe included, as it is.

A character that joins the one before it is written by its code point only where it has nothing to
join: at the start of the text and after a character that is not shown as itself.  So an accent
never lands on the opening quote or on the end of an escape.

* `quotedChar joins c`   one character; `joins` says that the one before is shown as itself;
* `quotedChars joins`    the characters of a text from there on;
* `quoted`               the whole text with its quotes.
-/

namespace TypedScript.Text

/-- a code point in lower case hexadecimal, without padding -/
def codePoint (c : Char) : List Char :=
  '\\' :: 'u' :: '\x7b' :: (Nat.toDigits 16 c.toNat ++ ['\x7d'])

def quotedChar (joins : Bool) (c : Char) : List Char :=
  if c = '\x00' then ['\\', '0']
  else if c = '\t' then ['\\', 't']
  else if c = '\r' then ['\\', 'r']
  else if c = '\n' then ['\\', 'n']
  else if c = '\\' then ['\\', '\\']
  else if c = '"' then ['\\', '"']
  else if isHidden c || (!joins && isExtender c) then codePoint c
  else [c]

/-- the characters of a quoted text, each beside the way the one before it is shown -/
def quotedChars : Bool → List Char → List Char
  | _, [] => []
  | joins, c :: cs => quotedChar joins c ++ quotedChars (quotedChar joins c == [c]) cs

theorem quotedChars_nil (joins : Bool) : quotedChars joins [] = [] := rfl

theorem quotedChars_cons (joins : Bool) (c : Char) (cs : List Char) :
    quotedChars joins (c :: cs) =
      quotedChar joins c ++ quotedChars (quotedChar joins c == [c]) cs := rfl

/-- a text as messages show it -/
def quoted (s : String) : String :=
  String.ofList ('"' :: (quotedChars false s.toList ++ ['"']))

end TypedScript.Text
