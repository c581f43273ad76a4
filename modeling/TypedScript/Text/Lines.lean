import TypedScript.Text.Classes

/-!
# Lines of a text

A text is cut into segments, each ending with its newline; only the last one may lack it.  `lineAt`
finds the segment that holds a byte offset.  The offset just past the text stands for its end, and
then the last line is given without its line terminator.
-/

namespace TypedScript.Text

/-! ## segments -/

/-- the lines of a text, each with its newline -/
def segments : List Char → List (List Char)
  | [] => []
  | c :: cs =>
    if c = '\n' then [c] :: segments cs
    else match segments cs with
      | [] => [[c]]
      | s :: ss => (c :: s) :: ss

theorem segments_nil : segments [] = [] := rfl

/-- nothing is lost: the segments in order are the text -/
theorem segments_flatten (cs : List Char) : (segments cs).flatten = cs := by
  induction cs with
  | nil => rfl
  | cons c cs ih =>
    unfold segments
    split
    · simp [ih]
    · split
      · next h => rw [h] at ih; simp_all
      · next h => rw [h] at ih; simp_all

/-- a segment without its line terminator, which is a newline or a carriage return and a newline -/
def withoutTerminator (s : List Char) : List Char :=
  match s.reverse with
  | '\n' :: '\r' :: r => r.reverse
  | '\n' :: r => r.reverse
  | _ => s

/-! ## the line at an offset -/

/-- a line, its number counted from one, and an offset in it -/
structure Line where
  number : Nat
  text : List Char
  offset : Nat

/-- the first segment that holds the byte `offset`, the segments being numbered from `number` -/
def segmentAt? (number offset : Nat) : List (List Char) → Option Line
  | [] => none
  | s :: ss =>
    if offset < byteLength s then some ⟨number, s, offset⟩
    else segmentAt? (number + 1) (offset - byteLength s) ss

/-- the last line, at its end -/
def lastLine? (ss : List (List Char)) : Option Line :=
  ss.getLast?.map fun s => ⟨ss.length, withoutTerminator s, byteLength (withoutTerminator s)⟩

/-- the line that holds the byte `offset`; none if the text is shorter or empty -/
def lineAt (text : List Char) (offset : Nat) : Option Line :=
  if byteLength text < offset then none
  else (segmentAt? 1 offset (segments text)).or (lastLine? (segments text))

end TypedScript.Text
