import TypedScript.Grammar.Cursor
import TypedScript.Grammar.Rules
import TypedScript.Text.Number
import TypedScript.Tree.Basic

/-!
# Reading written types and expressions

Both are read by binding powers: a leading rule reads the first operand, and trailing rules extend
it as long as they bind more tightly than the power asked for.

Every rule is written over a reader for the phrases inside it, and the readers `typeTermAt` and
`exprAt` tie the knot by the depth of nesting.  A phrase inside another one starts after at least one
token, so the number of tokens ahead bounds that depth; `typeTerm` and `expression` start from it.
-/

namespace TypedScript

open TypedScript.Parser

/-! ## written types -/

/-- a type name, with its arguments if there are any -/
def namedType (inner : Power → Parser TypeTerm) : Parser TypeTerm := do
  let name ← expect .identifier
  if ← accept (.mark .less) then
    let arguments ← commaSeparated (inner .base)
    let _ ← expectOr (.mark .greater) "expected `>` to close the type arguments"
    return .generic name.value arguments
  return .named name.value

/-- `T[]` is `array<T>`, and `T?` is nullable -/
def SuffixRule.read (left : TypeTerm) : SuffixRule → Parser TypeTerm
  | .array => do
    let _ ← expect (.mark .openBracket)
    let _ ← expect (.mark .closeBracket)
    return .generic "array" [left]
  | .nullable => do
    let _ ← expect (.mark .question)
    return .nullable left

/-- a written type, given a reader for the types inside it -/
def typeTermStep (g : Grammar) (inner : Power → Parser TypeTerm) (power : Power) :
    Parser TypeTerm := do
  if g.typeName (← peek) then
    let left ← namedType inner
    fold (g.typeExtends? · power) (fun left => do
      match g.typeSuffix (← peek) with
      | some (_, rule) => rule.read left
      | none => return left) left
  else unexpectedFor "expected a type"

/-- a written type nested to a depth below `n` -/
def typeTermAt (g : Grammar) : Nat → Power → Parser TypeTerm
  | 0 => fun _ => exhausted
  | n + 1 => typeTermStep g (typeTermAt g n)

/-- a written type whose suffixes bind above `power` -/
def typeTerm (g : Grammar) (power : Power) : Parser TypeTerm := fun c =>
  typeTermAt g c.bound power c

/-! ## operands -/

/-- expressions with commas between, up to `closing` -/
def expressionList (inner : Power → Parser Expr) (closing : TokenKind) : Parser (List Expr) :=
  commaTerminated (inner .base) closing ("expected `,` or closing `" ++ closing.name ++ "`")

/-- a literal or a name -/
def primary : Parser Expr := do
  let place ← here
  let t ← token
  match t.kind with
  | .number =>
    match Text.signed64? t.value.toList with
    | some n => return .literal (.integer n) none
    | none => failAt (.numberOutOfRange t.value) place
  | .longNumber => return .literal (.long t.value) none
  | .string => return .literal (.string t.value) none
  | .keyword .kwTrue => return .literal (.boolean true) none
  | .keyword .kwFalse => return .literal (.boolean false) none
  | .keyword .kwNull => return .literal .null none
  | .identifier => return .name (.ofName t.value) none
  | _ => failAt (.unexpectedToken t.value) place

/-- an operator before its operand -/
def unaryOperation (inner : Power → Parser Expr) : Parser Expr := do
  let place ← here
  let t ← token
  match UnaryOp.ofKind? t.kind with
  | some op => return .unary op (← inner .unary) none
  | none => failAt (.unexpectedToken t.value) place

/-- `await` before a call -/
def awaitedCall (inner : Power → Parser Expr) : Parser Expr := do
  let _ ← expect (.keyword .kwAwait)
  let place ← here
  match ← inner .unary with
  | .call callee arguments _ constructs type => return .call callee arguments true constructs type
  | _ => failAt (.unexpectedTokenDetailed "await" "`await` must be applied to a call") place

/-- `(e)` is `e`; with a comma, or with nothing inside, it is a tuple -/
def grouping (inner : Power → Parser Expr) : Parser Expr := do
  let _ ← expect (.mark .openParen)
  if ← accept (.mark .closeParen) then return .collection .tuple [] none
  let first ← inner .base
  if ← accept (.mark .comma) then
    let others ← expressionList inner (.mark .closeParen)
    let _ ← expect (.mark .closeParen)
    return .collection .tuple (first :: others) none
  let _ ← expect (.mark .closeParen)
  return first

def arrayLiteral (inner : Power → Parser Expr) : Parser Expr := do
  let _ ← expect (.mark .openBracket)
  let elements ← expressionList inner (.mark .closeBracket)
  let _ ← expect (.mark .closeBracket)
  return .collection .array elements none

/-- a further entry of a dict, after its comma; none after the last comma -/
def furtherEntry (inner : Power → Parser Expr) : Parser (Option (Expr × Expr)) := do
  let _ ← token
  if (← peek) = .mark .closeCurly then return none
  let key ← inner .base
  let _ ← expect (.mark .colon)
  let value ← inner .base
  return some (key, value)

/-- between curly brackets, `k: v` makes a dict and `e` a set; nothing makes an empty dict -/
def curlyLiteral (inner : Power → Parser Expr) : Parser Expr := do
  let _ ← expect (.mark .openCurly)
  if ← accept (.mark .closeCurly) then return .dict [] none
  let first ← inner .base
  if ← accept (.mark .colon) then
    let value ← inner .base
    let others ← many (· == .mark .comma) (furtherEntry inner)
    let _ ← expect (.mark .closeCurly)
    return .dict ((first, value) :: others.filterMap id) none
  let others ← if ← accept (.mark .comma) then expressionList inner (.mark .closeCurly) else pure []
  let _ ← expect (.mark .closeCurly)
  return .collection .set (first :: others) none

/-- the first operand of an expression -/
def LeadingRule.read (inner : Power → Parser Expr) : LeadingRule → Parser Expr
  | .primary => TypedScript.primary
  | .unary => unaryOperation inner
  | .await => awaitedCall inner
  | .grouping => TypedScript.grouping inner
  | .array => arrayLiteral inner
  | .curly => curlyLiteral inner

/-! ## operations -/

/-- a left associative operator and its right operand -/
def binaryOperation (inner : Power → Parser Expr) (left : Expr) (power : Power) : Parser Expr := do
  let place ← here
  let t ← token
  match BinaryOp.ofKind? t.kind with
  | some op => return .binary op left (← inner power) none
  | none => failAt (.unexpectedToken t.value) place

/-- `^` associates to the right -/
def powerOperation (inner : Power → Parser Expr) (left : Expr) : Parser Expr := do
  let _ ← expect (.mark .caret)
  return .binary .power left (← inner .multiplicative) none

def callOperation (inner : Power → Parser Expr) (left : Expr) : Parser Expr := do
  let _ ← expect (.mark .openParen)
  let arguments ← expressionList inner (.mark .closeParen)
  let _ ← expect (.mark .closeParen)
  return .call left arguments false false none

def subscriptOperation (inner : Power → Parser Expr) (left : Expr) : Parser Expr := do
  let _ ← expect (.mark .openBracket)
  let index ← inner .base
  let _ ← expect (.mark .closeBracket)
  return .subscript left index none

def memberOperation (left : Expr) : Parser Expr := do
  let _ ← expect (.mark .dot)
  let name ← expectOr .identifier "expected member name after `.`"
  return .member left (.ofName name.value) none

/-- extends `left` by what the current token announces; `power` is the power of that token -/
def TrailingRule.read (inner : Power → Parser Expr) (left : Expr) (power : Power) :
    TrailingRule → Parser Expr
  | .binary => binaryOperation inner left power
  | .power => powerOperation inner left
  | .call => callOperation inner left
  | .subscript => subscriptOperation inner left
  | .member => memberOperation left

/-! ## expressions -/

/-- an expression, given a reader for the expressions inside it -/
def exprStep (g : Grammar) (inner : Power → Parser Expr) (power : Power) : Parser Expr := do
  match g.leading (← peek) with
  | none => unexpected
  | some rule =>
    let left ← rule.read inner
    fold (g.extends? · power) (fun left => do
      match g.trailing (← peek) with
      | some (p, rule) => rule.read inner left p
      | none => return left) left

/-- an expression nested to a depth below `n` -/
def exprAt (g : Grammar) : Nat → Power → Parser Expr
  | 0 => fun _ => exhausted
  | n + 1 => exprStep g (exprAt g n)

/-- an expression whose operators bind above `power` -/
def expression (g : Grammar) (power : Power) : Parser Expr := fun c => exprAt g c.bound power c

end TypedScript
