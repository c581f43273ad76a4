import TypedScript.Text.Quoted

/-!
# What can be wrong with a program

A `Cause` says what is wrong; types and operators are given by the texts that a message shows.
Each cause has a name, belongs to a category, and has two wordings: the message, where texts taken
from the source are quoted, and the tip, which is written for the author of the program.

Only the causes of category `grammar` are found at a place in the source; the others name the
construct they are about.
-/

namespace TypedScript

/-! ## categories -/

inductive Category where
  | grammar
  | declaration
  | typing
  | controlFlow
  | configuration
  deriving DecidableEq, Repr, Inhabited

/-! ## causes -/

inductive Cause where
  | unrecognisedToken (token : String)
  | unexpectedToken (token : String)
  | unexpectedTokenDetailed (token message : String)
  | numberOutOfRange (token : String)
  | duplicateDeclaration (name : String)
  | undeclaredIdentifier (name : String)
  | unknownType (type : String)
  | constantWithoutValue (name : String)
  | missingTypeAndValue (name : String)
  | typeMismatch (expected received : String)
  | operandMismatch (operator left right : String)
  | concatenationMismatch (left right : String)
  | unaryMismatch (operator operand : String)
  | conditionMismatch (construct received : String)
  | arityMismatch (targets values : Nat)
  | constantAssignment (name : String)
  | invalidTarget (target : String)
  | notCallable (name : String)
  | unexpectedArguments (expected received : Nat)
  | missingArguments (expected received : Nat)
  | argumentMismatch (expected received : String)
  | awaitMismatch (function : String) (async : Bool)
  | notSubscriptable (received : String)
  | indexMismatch (received : String)
  | elementMismatch (expected received : String)
  | loopIndexMismatch (name received : String)
  | rangeBoundMismatch (received : String)
  | genericArity (type : String) (expected received : Nat)
  | breakOutsideLoop
  | continueOutsideLoop
  | returnOutsideFunction
  | returnValueInVoidFunction
  | awaitOutsideAsyncFunction
  | unsupportedTarget (target : String)
  deriving DecidableEq, Repr, Inhabited

namespace Cause

def category : Cause → Category
  | unrecognisedToken _ | unexpectedToken _ | unexpectedTokenDetailed _ _ | numberOutOfRange _ =>
    .grammar
  | duplicateDeclaration _ | undeclaredIdentifier _ | unknownType _ | constantWithoutValue _
  | missingTypeAndValue _ => .declaration
  | breakOutsideLoop | continueOutsideLoop | returnOutsideFunction | returnValueInVoidFunction
  | awaitOutsideAsyncFunction => .controlFlow
  | unsupportedTarget _ => .configuration
  | _ => .typing

/-- the name in the first line of a report -/
def name : Cause → String
  | unrecognisedToken _ => "UnrecognisedToken"
  | unexpectedToken _ => "UnexpectedToken"
  | unexpectedTokenDetailed _ _ => "UnexpectedTokenDetailed"
  | numberOutOfRange _ => "NumberParseError"
  | duplicateDeclaration _ => "DuplicateDeclaration"
  | undeclaredIdentifier _ => "UndeclaredIdentifier"
  | unknownType _ => "UnknownType"
  | constantWithoutValue _ => "ConstantWithoutValue"
  | missingTypeAndValue _ => "ExpectedExplicitValue"
  | typeMismatch _ _ => "TypeMatchError"
  | operandMismatch _ _ _ => "OperandTypeError"
  | concatenationMismatch _ _ => "ConcatenationTypeError"
  | unaryMismatch _ _ => "PrefixOperandError"
  | conditionMismatch _ _ => "ConditionTypeError"
  | arityMismatch _ _ => "ArityMismatch"
  | constantAssignment _ => "ConstantAssignment"
  | invalidTarget _ => "InvalidAssignmentTarget"
  | notCallable _ => "NotCallable"
  | unexpectedArguments _ _ => "UnexpectedArguments"
  | missingArguments _ _ => "MissingArguments"
  | argumentMismatch _ _ => "ArgumentTypeMatchError"
  | awaitMismatch _ _ => "AwaitMismatch"
  | notSubscriptable _ => "NotSubscriptable"
  | indexMismatch _ => "IndexTypeError"
  | elementMismatch _ _ => "ElementTypeError"
  | loopIndexMismatch _ _ => "LoopIndexTypeError"
  | rangeBoundMismatch _ => "RangeBoundTypeError"
  | genericArity _ _ _ => "GenericArityError"
  | breakOutsideLoop => "BreakOutsideLoop"
  | continueOutsideLoop => "ContinueOutsideLoop"
  | returnOutsideFunction => "ReturnOutsideFunction"
  | returnValueInVoidFunction => "ReturnValueInVoidFunction"
  | awaitOutsideAsyncFunction => "AwaitOutsideAsyncFunction"
  | unsupportedTarget _ => "UnsupportedTarget"

open Text (quoted)

/-- the one line wording, with texts of the source quoted -/
def message : Cause → String
  | unrecognisedToken t => "unrecognised token: " ++ quoted t
  | unexpectedToken t => "unexpected token: " ++ quoted t
  | unexpectedTokenDetailed t m => "unexpected token (" ++ quoted m ++ "): " ++ quoted t
  | numberOutOfRange t => "error parsing number: " ++ quoted t
  | duplicateDeclaration n => quoted n ++ " already declared in this scope"
  | undeclaredIdentifier n => quoted n ++ " not declared"
  | unknownType t => "unknown type " ++ t ++ " found"
  | constantWithoutValue n => "constant " ++ quoted n ++ " declared without a value"
  | missingTypeAndValue n => "expected explicit value for " ++ quoted n ++ " when no type is given"
  | typeMismatch e r => "types do not match: expected " ++ e ++ ", received " ++ r
  | operandMismatch o l r => "operator " ++ o ++ " cannot be applied to " ++ l ++ " and " ++ r
  | concatenationMismatch l r => "cannot concatenate " ++ l ++ " and " ++ r
  | unaryMismatch o x => "operator " ++ o ++ " cannot be applied to " ++ x
  | conditionMismatch c r => c ++ " condition must be bool, received " ++ r
  | arityMismatch t v =>
    "assignment arity mismatch: " ++ toString t ++ " targets, " ++ toString v ++ " values"
  | constantAssignment n => "cannot assign to constant " ++ quoted n
  | invalidTarget t => "cannot assign to " ++ t
  | notCallable n => quoted n ++ " is not callable"
  | unexpectedArguments e r =>
    "unexpected arguments: expected " ++ toString e ++ ", received " ++ toString r
  | missingArguments e r =>
    "missing arguments: expected " ++ toString e ++ ", received " ++ toString r
  | argumentMismatch e r => "argument types do not match: expected " ++ e ++ ", received " ++ r
  | awaitMismatch f a =>
    "await mismatch on " ++ quoted f ++ " (async: " ++ (if a then "true" else "false") ++ ")"
  | notSubscriptable r => r ++ " is not subscriptable"
  | indexMismatch r => "index must be int, received " ++ r
  | elementMismatch e r =>
    "collection element types do not match: expected " ++ e ++ ", received " ++ r
  | loopIndexMismatch n r => "loop index " ++ quoted n ++ " must be int or long, received " ++ r
  | rangeBoundMismatch r => "range bound must be int or long, received " ++ r
  | genericArity t e r =>
    t ++ " expects " ++ toString e ++ " type arguments, received " ++ toString r
  | breakOutsideLoop => "break outside of a loop"
  | continueOutsideLoop => "continue outside of a loop"
  | returnOutsideFunction => "return outside of a function"
  | returnValueInVoidFunction => "return with a value inside a function returning none"
  | awaitOutsideAsyncFunction => "await outside of an async function"
  | unsupportedTarget t => "unsupported target " ++ quoted t

/-- a text between backquotes -/
def ticked (s : String) : String := "`" ++ s ++ "`"

/-- advice for the author of the program; a character that starts no token has none -/
def tip : Cause → Option String
  | unrecognisedToken _ => none
  | unexpectedToken t => some ("Unexpected token: " ++ ticked t ++ ", did you miss a semicolon?")
  | unexpectedTokenDetailed t m => some ("Unexpected token: " ++ ticked t ++ ", " ++ m)
  | numberOutOfRange t =>
    some ("Invalid number: " ++ ticked t ++
      ", is it above the integer limit? Use an `n` suffix for long values")
  | duplicateDeclaration n => some (ticked n ++ " is already declared in this scope")
  | undeclaredIdentifier n => some (ticked n ++ " is not declared")
  | unknownType t => some ("Unknown type " ++ ticked t ++ " found")
  | constantWithoutValue n => some ("Constant " ++ ticked n ++ " needs an initial value")
  | missingTypeAndValue n => some (ticked n ++ " needs either a type or an initial value")
  | typeMismatch e r => some ("Expected type " ++ ticked e ++ ", received " ++ ticked r)
  | operandMismatch o l r =>
    some ("Operator " ++ ticked o ++ " cannot be applied to " ++ ticked l ++ " and " ++ ticked r)
  | concatenationMismatch l r =>
    some ("`+` needs two ints or two strings, received " ++ ticked l ++ " and " ++ ticked r)
  | unaryMismatch o x => some ("Operator " ++ ticked o ++ " cannot be applied to " ++ ticked x)
  | conditionMismatch c r =>
    some ("The " ++ c ++ " condition must be `bool`, received " ++ ticked r)
  | arityMismatch t v => some (toString t ++ " targets but " ++ toString v ++ " values")
  | constantAssignment n => some (ticked n ++ " cannot be reassigned")
  | invalidTarget t => some ("Cannot assign to " ++ t)
  | notCallable n => some (ticked n ++ " is not a function or class")
  | unexpectedArguments e r =>
    some ("Expected at most " ++ toString e ++ " arguments, received " ++ toString r)
  | missingArguments e r =>
    some ("Expected at least " ++ toString e ++ " arguments, received " ++ toString r)
  | argumentMismatch e r => some ("Expected argument type " ++ ticked e ++ ", received " ++ ticked r)
  | awaitMismatch f a =>
    if a then some (ticked f ++ " is async and must be awaited")
    else some (ticked f ++ " is not async and cannot be awaited")
  | notSubscriptable r => some (ticked r ++ " cannot be indexed")
  | indexMismatch r => some ("Index must be `int`, received " ++ ticked r)
  | elementMismatch e r => some ("Expected element type " ++ ticked e ++ ", received " ++ ticked r)
  | loopIndexMismatch n r =>
    some ("Loop index " ++ ticked n ++ " must be `int` or `long`, received " ++ ticked r)
  | rangeBoundMismatch r => some ("Range bounds must be `int` or `long`, received " ++ ticked r)
  | genericArity t e r =>
    some (ticked t ++ " takes " ++ toString e ++ " type arguments, received " ++ toString r)
  | breakOutsideLoop => some "`break` is only allowed inside a loop"
  | continueOutsideLoop => some "`continue` is only allowed inside a loop"
  | returnOutsideFunction => some "`return` is only allowed inside a function"
  | returnValueInVoidFunction => some "A function returning `none` cannot return a value"
  | awaitOutsideAsyncFunction => some "`await` is only allowed inside an `async fn`"
  | unsupportedTarget t => some ("Target " ++ ticked t ++ " is not supported, use `js`")

end Cause

end TypedScript
