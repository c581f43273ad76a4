import TypedScript.Grammar.Expressions
import TypedScript.Token.Scan

/-!
# Reading statements

A statement is read by the rule that its first token selects; without such a rule it is an
assignment or an expression.  As for expressions, the rules are written over a reader for the
statements inside, and `statementAt` ties the knot by the depth of nesting.

* `block`      statements between curly brackets;
* `statement`  one statement;
* `program`    statements up to the end marker.
-/

namespace TypedScript

open TypedScript.Parser

section

variable (g : Grammar)

/-! ## parts of declarations -/

/-- a type after a mark, if the mark is there -/
def typeAfter (m : Mark) : Parser (Option TypeTerm) := do
  if ← accept (.mark m) then return some (← typeTerm g .base)
  return none

/-- a name with an optional type -/
def declarator : Parser Declarator := do
  let name ← expectOr .identifier "expected identifier during variable declaration"
  return ⟨name.value, ← typeAfter g .colon, none, none⟩

/-- a name with a type and an optional default -/
def parameter : Parser Parameter := do
  let name ← expectOr .identifier "expected parameter name"
  let _ ← expectOr (.mark .colon) "parameters require a type annotation"
  let type ← typeTerm g .base
  let default ← if ← accept (.mark .assignment) then some <$> expression g .base else pure none
  return ⟨name.value, type, default, none, none⟩

def parameters : Parser (List Parameter) := do
  let _ ← expect (.mark .openParen)
  let ps ← commaTerminated (parameter g) (.mark .closeParen) "expected `,` or `)` after parameter"
  let _ ← expect (.mark .closeParen)
  return ps

/-! ## bodies -/

def block (inner : Parser Stmt) : Parser (List Stmt) := do
  let _ ← expectOr (.mark .openCurly) "expected `\x7b` to open a block"
  let body ← many (· != .mark .closeCurly) do
    if (← peek) = .eof then unexpectedFor "expected `\x7d` to close the block"
    inner
  let _ ← expect (.mark .closeCurly)
  return body

/-- the statements of a case go on up to the next case, the default or the end -/
def inCase : TokenKind → Bool
  | .keyword .kwCase | .keyword .kwDefault | .mark .closeCurly | .eof => false
  | _ => true

def caseBody (inner : Parser Stmt) : Parser (List Stmt) := many inCase inner

/-! ## statements -/

def declaration : Parser Stmt := do
  let first ← token
  let declarators ← commaSeparated (declarator g)
  let values ← if ← accept (.mark .assignment) then commaSeparated (expression g .base)
    else pure []
  let _ ← expect (.mark .semicolon)
  return .declare (first.kind == .keyword .kwConst) declarators values

def functionDeclaration (inner : Parser Stmt) : Parser Stmt := do
  let async ← accept (.keyword .kwAsync)
  let _ ← expect (.keyword .kwFn)
  let name ← expectOr .identifier "expected function name"
  let ps ← parameters g
  let returns ← typeAfter g .arrow
  let body ← block inner
  return .function ⟨name.value, none, ps, returns, async⟩ body

def classDeclaration (inner : Parser Stmt) : Parser Stmt := do
  let _ ← expect (.keyword .kwClass)
  let name ← expectOr .identifier "expected class name"
  let ps ← if (← peek) = .mark .openParen then parameters g else pure []
  let body ← block inner
  return .classDef ⟨name.value, none, ps⟩ body

/-- a condition and the block it guards -/
def branch (inner : Parser Stmt) : Parser (Guarded Stmt) := do
  let guard ← expression g .base
  let body ← block inner
  return ⟨guard, body⟩

/-- less than `n` further branches, and the last block without a condition -/
def branchesAt (inner : Parser Stmt) :
    Nat → Parser (List (Guarded Stmt) × Option (List Stmt))
  | 0 => exhausted
  | n + 1 => do
    if ← accept (.keyword .kwElse) then
      if ← accept (.keyword .kwIf) then
        let first ← branch g inner
        let (others, otherwise) ← branchesAt inner n
        return (first :: others, otherwise)
      else return ([], some (← block inner))
    else return ([], none)

def conditional (inner : Parser Stmt) : Parser Stmt := do
  let _ ← expect (.keyword .kwIf)
  let first ← branch g inner
  let (others, otherwise) ← fun c => branchesAt g inner c.bound c
  return .conditional (first :: others) otherwise

def whileStatement (inner : Parser Stmt) : Parser Stmt := do
  let _ ← expect (.keyword .kwWhile)
  let condition ← expression g .base
  let body ← block inner
  return .whileLoop condition body

/-- the change of a loop's target -/
def loopChange : Parser (Update Expr) := do
  if ← accept (.mark .plusPlus) then return .increment
  if ← accept (.mark .minusMinus) then return .decrement
  if ← accept (.mark .plusEquals) then return .increase (← expression g .base)
  if ← accept (.mark .minusEquals) then return .decrease (← expression g .base)
  unexpectedFor "expected `++`, `--`, `+=` or `-=`"

/-- how a counting loop goes on: its target and the change -/
def loopUpdate : Parser (Symbol × Update Expr) := do
  let target ← expectOr .identifier "expected loop variable in update clause"
  return (.ofName target.value, ← loopChange g)

/-- a counting loop starts with `let`; any other loop runs over a range -/
def forStatement (inner : Parser Stmt) : Parser Stmt := do
  let _ ← expect (.keyword .kwFor)
  let _ ← expect (.mark .openParen)
  if ← accept (.keyword .kwLet) then
    let index ← declarator g
    let _ ← expectOr (.mark .assignment) "loop index requires an initial value"
    let init ← expression g .base
    let _ ← expect (.mark .semicolon)
    let test ← expression g .base
    let _ ← expect (.mark .semicolon)
    let (target, update) ← loopUpdate g
    let _ ← expect (.mark .closeParen)
    let body ← block inner
    return .forLoop ⟨index, init, test, target, update⟩ body
  let start ← expression g .base
  let _ ← expectOr (.mark .ellipsis) "expected `...` in range loop"
  let stop ← expression g .base
  let _ ← expect (.mark .closeParen)
  let body ← block inner
  return .rangeLoop start stop body

/-- a guard and its statements -/
def switchCase (inner : Parser Stmt) : Parser (Guarded Stmt) := do
  let _ ← token
  let guard ← expression g .base
  let _ ← expect (.mark .colon)
  let body ← caseBody inner
  return ⟨guard, body⟩

/-- the statements for all other values, which come last -/
def switchDefault? (inner : Parser Stmt) : Parser (Option (List Stmt)) := do
  if ← accept (.keyword .kwDefault) then
    let _ ← expect (.mark .colon)
    return some (← caseBody inner)
  return none

def switchStatement (inner : Parser Stmt) : Parser Stmt := do
  let _ ← expect (.keyword .kwSwitch)
  let _ ← expect (.mark .openParen)
  let scrutinee ← expression g .base
  let _ ← expect (.mark .closeParen)
  let _ ← expect (.mark .openCurly)
  let cases ← many (· == .keyword .kwCase) (switchCase g inner)
  let otherwise ← switchDefault? inner
  let _ ← expectOr (.mark .closeCurly) "expected `case`, `default` or `\x7d` in switch"
  return .switch scrutinee cases otherwise

/-- a keyword that is a statement by itself -/
def bareStatement (k : Keyword) (s : Stmt) : Parser Stmt := do
  let _ ← expect (.keyword k)
  let _ ← expect (.mark .semicolon)
  return s

def returnStatement : Parser Stmt := do
  let _ ← expect (.keyword .kwReturn)
  let value ← if (← peek) = .mark .semicolon then pure none else some <$> expression g .base
  let _ ← expect (.mark .semicolon)
  return .returnValue value

def printStatement : Parser Stmt := do
  let _ ← expect (.keyword .kwPrint)
  let value ← expression g .base
  let _ ← expect (.mark .semicolon)
  return .print value

/-- a statement that starts with an expression -/
def plainStatement : Parser Stmt := do
  let targets ← commaSeparated (expression g .base)
  if ← accept (.mark .assignment) then
    let values ← commaSeparated (expression g .base)
    let _ ← expect (.mark .semicolon)
    return .assign targets values
  match targets with
  | [value] =>
    let _ ← expect (.mark .semicolon)
    return .expression value
  | _ => unexpectedFor "expected `=` after assignment targets"

/-- reads a statement by its rule, given a reader for the statements inside it -/
def StatementRule.read (inner : Parser Stmt) : StatementRule → Parser Stmt
  | .declaration => TypedScript.declaration g
  | .function => functionDeclaration g inner
  | .classDef => classDeclaration g inner
  | .conditional => TypedScript.conditional g inner
  | .whileLoop => whileStatement g inner
  | .forLoop => forStatement g inner
  | .switch => switchStatement g inner
  | .breakLoop => bareStatement .kwBreak .breakLoop
  | .continueLoop => bareStatement .kwContinue .continueLoop
  | .returnValue => returnStatement g
  | .print => printStatement g
  | .block => Stmt.block <$> TypedScript.block inner

/-- a statement, given a reader for the statements inside it -/
def statementStep (inner : Parser Stmt) : Parser Stmt := do
  match g.statement (← peek) with
  | some rule => rule.read g inner
  | none => plainStatement g

/-- a statement nested to a depth below `n` -/
def statementAt : Nat → Parser Stmt
  | 0 => exhausted
  | n + 1 => statementStep g (statementAt n)

def statement : Parser Stmt := fun c => statementAt g c.bound c

def program : Parser Program := many (· != .eof) (statement g)

end

/-- the program that a token list stands for -/
def parse (tokens : List Token) (file : String) : Except Diagnostic Program :=
  (program .standard (.ofTokens tokens file)).result

/-- the program that a source text stands for -/
def parseSource (source file : String) : Except Diagnostic Program := do
  parse (← scan source file) file

end TypedScript
