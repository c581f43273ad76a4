import TypedScript.Diagnostic.Report
import TypedScript.Token.Basic

/-!
# Reading a token list

A `Cursor` is a place in a token list: the tokens ahead, and the end marker, which is never passed.
A `Parser` reads from a cursor and replies with a value or a diagnostic; either way the reply holds
the cursor at which reading stopped, so that a caller can go on after a failure.

Repetition is bounded by the tokens that are left, and so is nesting.  A reader that reaches its bound
would go on for ever without it, and has a reply of its own, `exhausted`.  What is repeated or nested
passes at least one token, so no phrase of the language is ever answered in this way.

* `token`, `expect`, `expectOr`, `accept`   single tokens;
* `unexpected`, `unexpectedFor`             failures at the current token;
* `many`                                    a phrase repeated while a token kind allows it;
* `fold`                                    a phrase that grows a value, likewise.
-/

namespace TypedScript

/-! ## cursors -/

structure Cursor where
  ahead : List Token
  last : Token
  deriving Inhabited

namespace Cursor

/-- the start of a token list.  A list that does not end with an end marker gets one, just after its
last token -/
def ofTokens (tokens : List Token) (file : String) : Cursor :=
  match tokens.getLast? with
  | none => ⟨[], .endOf ⟨0, 0, file⟩⟩
  | some t =>
    if t.kind = .eof then ⟨tokens.dropLast, t⟩ else ⟨tokens, .endOf t.span.after⟩

def current (c : Cursor) : Token :=
  match c.ahead with
  | [] => c.last
  | t :: _ => t

def kind (c : Cursor) : TokenKind := c.current.kind

def position (c : Cursor) : Position := c.current.span.position

/-- the cursor after the current token; the end marker is not passed -/
def next (c : Cursor) : Cursor := { c with ahead := c.ahead.tail }

def hasTokens (c : Cursor) : Bool := c.kind != .eof

/-- how often a phrase can be repeated from here -/
def bound (c : Cursor) : Nat := c.ahead.length + 1

end Cursor

/-! ## parsers -/

inductive Reply (α : Type) where
  | done (value : α) (rest : Cursor)
  | failed (fault : Diagnostic) (rest : Cursor)
  /-- a bound was reached -/
  | exhausted (rest : Cursor)
  deriving Inhabited

def Reply.rest {α : Type} : Reply α → Cursor
  | .done _ c => c
  | .failed _ c => c
  | .exhausted c => c

def Reply.result {α : Type} : Reply α → Except Diagnostic α
  | .done a _ => .ok a
  | .failed d _ => .error d
  | .exhausted c => .error (.atPosition (.unexpectedToken c.current.value) c.position)

def Parser (α : Type) : Type := Cursor → Reply α

namespace Parser

variable {α β : Type}

instance : Monad Parser where
  pure a := fun c => .done a c
  bind p f := fun c =>
    match p c with
    | .done a c' => f a c'
    | .failed d c' => .failed d c'
    | .exhausted c' => .exhausted c'

theorem pure_apply (a : α) (c : Cursor) : (pure a : Parser α) c = .done a c := rfl

theorem bind_done {p : Parser α} {f : α → Parser β} {c c' : Cursor} {a : α}
    (h : p c = .done a c') : (p >>= f) c = f a c' := by
  show (match p c with
    | .done a c' => f a c' | .failed d c' => .failed d c' | .exhausted c' => .exhausted c') = f a c'
  rw [h]

theorem bind_failed {p : Parser α} {f : α → Parser β} {c c' : Cursor} {d : Diagnostic}
    (h : p c = .failed d c') : (p >>= f) c = .failed d c' := by
  show (match p c with
    | .done a c' => f a c' | .failed d c' => .failed d c' | .exhausted c' => .exhausted c') = .failed d c'
  rw [h]

theorem bind_exhausted {p : Parser α} {f : α → Parser β} {c c' : Cursor} (h : p c = .exhausted c') :
    (p >>= f) c = .exhausted c' := by
  show (match p c with
    | .done a c' => f a c' | .failed d c' => .failed d c' | .exhausted c' => .exhausted c') = .exhausted c'
  rw [h]

/-! ## single tokens -/

/-- the kind of the current token -/
def peek : Parser TokenKind := fun c => .done c.kind c

/-- the place of the current token -/
def here : Parser Position := fun c => .done c.position c

def token : Parser Token := fun c => .done c.current c.next

def failAt (cause : Cause) (p : Position) : Parser α := fun c => .failed (.atPosition cause p) c

def unexpected : Parser α := fun c =>
  .failed (.atPosition (.unexpectedToken c.current.value) c.position) c

/-- the current token cannot stand here, for a stated reason -/
def unexpectedFor (message : String) : Parser α := fun c =>
  .failed (.atPosition (.unexpectedTokenDetailed c.current.value message) c.position) c

def expect (kind : TokenKind) : Parser Token := fun c =>
  if c.kind = kind then token c else unexpected c

/-- passes a token of the given kind, or fails for the stated reason -/
def expectOr (kind : TokenKind) (message : String) : Parser Token := fun c =>
  if c.kind = kind then token c else unexpectedFor message c

def accept (kind : TokenKind) : Parser Bool := fun c =>
  if c.kind = kind then .done true c.next else .done false c

/-! ## repetition -/

def exhausted : Parser α := fun c => .exhausted c

/-- less than `n` times `item`, while the current token's kind allows it -/
def manyAt (allows : TokenKind → Bool) (item : Parser α) : Nat → Parser (List α)
  | 0 => exhausted
  | n + 1 => fun c =>
    if allows c.kind then
      (do
        let a ← item
        let as ← manyAt allows item n
        return a :: as : Parser (List α)) c
    else .done [] c

/-- `item` again and again, while the current token's kind allows it -/
def many (allows : TokenKind → Bool) (item : Parser α) : Parser (List α) := fun c =>
  manyAt allows item c.bound c

/-- less than `n` times `step`, while the current token's kind allows it -/
def foldAt (allows : TokenKind → Bool) (step : α → Parser α) : Nat → α → Parser α
  | 0, _ => exhausted
  | n + 1, a => fun c =>
    if allows c.kind then
      (do
        let b ← step a
        foldAt allows step n b : Parser α) c
    else .done a c

/-- grows a value by `step`, while the current token's kind allows it -/
def fold (allows : TokenKind → Bool) (step : α → Parser α) (a : α) : Parser α := fun c =>
  foldAt allows step c.bound a c

/-- one or more times `item`, with commas between -/
def commaSeparated (item : Parser α) : Parser (List α) := do
  let a ← item
  let as ← many (· == .mark .comma) (do let _ ← token; item)
  return a :: as

/-- `item` with a comma after each, up to `closing`; after the last item the comma may be missing,
and any other token there fails for the stated reason -/
def commaTerminated (item : Parser α) (closing : TokenKind) (message : String) :
    Parser (List α) :=
  many (· != closing) do
    let a ← item
    if ← accept (.mark .comma) then return a
    if (← peek) = closing then return a
    unexpectedFor message

end Parser

end TypedScript
