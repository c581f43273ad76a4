import TypedScript.Token.Pattern
import TypedScript.Diagnostic.Report

/-!
# Scanning

A `Reader` is a place in a source text: the byte offset and the text that is left.  `scan` reads
lexemes from the start to the end of a text and gives the tokens they stand for, followed by the end
marker.  It stops at the first character at which no lexeme starts.
-/

namespace TypedScript

open Text

/-! ## readers -/

structure Reader where
  offset : Nat
  rest : List Char

namespace Reader

def ofText (text : String) : Reader := ⟨0, text.toList⟩

/-- the reader `n` bytes further on -/
def advance (r : Reader) (n : Nat) : Reader := ⟨r.offset + n, dropBytes n r.rest⟩

def atEnd (r : Reader) : Bool := r.rest.isEmpty

/-- the next lexeme with its pattern, and the reader after it -/
def next? (r : Reader) : Option (Pattern × List Char × Reader) :=
  (Pattern.first? r.rest).map fun (p, l, rest) => (p, l, ⟨r.offset + byteLength l, rest⟩)

theorem next?_length {r r' : Reader} {p : Pattern} {l : List Char}
    (h : r.next? = some (p, l, r')) : r'.rest.length < r.rest.length := by
  obtain ⟨⟨q, m, rest⟩, hfirst, he⟩ := Option.map_eq_some_iff.mp h
  cases he
  exact Pattern.first?_length hfirst

end Reader

/-! ## token lists -/

/-- the tokens from a place to the end of the text -/
def Reader.tokens (file : String) (r : Reader) : Except Diagnostic (List Token) :=
  match r.rest with
  | [] => .ok [.endOf ⟨r.offset, r.offset, file⟩]
  | c :: _ =>
    match _h : r.next? with
    | none => .error (.atPosition (.unrecognisedToken (String.singleton c)) ⟨r.offset, file⟩)
    | some (p, l, r') => do
      let tokens ← r'.tokens file
      match p.read l with
      | none => return tokens
      | some (kind, value) => return ⟨kind, value, ⟨r.offset, r'.offset, file⟩⟩ :: tokens
termination_by r.rest.length
decreasing_by exact Reader.next?_length _h

/-- the tokens of a source text -/
def scan (source file : String) : Except Diagnostic (List Token) :=
  (Reader.ofText source).tokens file

/-- the file name of a source that is not in a file -/
def interactiveFile : String := "shell"

end TypedScript
