import TypedScript.Token.Basic

/-!
# The grammar as tables

How a token is read depends on where it stands.  At the start of a statement, of an expression or of
a written type its kind selects a rule that reads the whole phrase (a leading rule); after a complete
expression or type its kind selects a rule that extends what was read (a trailing rule), if the
rule's binding power is above the power at which the surrounding phrase reads.

A `Grammar` is a value, so that other tables can be tried; `Grammar.standard` is the language.
-/

namespace TypedScript

/-! ## binding powers -/

inductive Power where
  | base | logical | relational | additive | multiplicative | exponent | unary | call | member
  deriving DecidableEq, Repr, Inhabited

def Power.rank : Power → Nat
  | .base => 0
  | .logical => 1
  | .relational => 2
  | .additive => 3
  | .multiplicative => 4
  | .exponent => 5
  | .unary => 6
  | .call => 7
  | .member => 8

/-- `p` binds more tightly than `q` -/
def Power.above (p q : Power) : Bool := q.rank < p.rank

/-! ## rules -/

/-- how a statement is read that a keyword or a mark announces -/
inductive StatementRule where
  | declaration | function | classDef | conditional | whileLoop | forLoop | switch | breakLoop
  | continueLoop | returnValue | print | block
  deriving DecidableEq, Repr, Inhabited

/-- how an expression is read from its first token -/
inductive LeadingRule where
  | primary | unary | await | grouping | array | curly
  deriving DecidableEq, Repr, Inhabited

/-- how an expression goes on after its first operand -/
inductive TrailingRule where
  | binary | power | call | subscript | member
  deriving DecidableEq, Repr, Inhabited

/-- how a written type goes on after a type -/
inductive SuffixRule where
  | array | nullable
  deriving DecidableEq, Repr, Inhabited

/-! ## grammars -/

structure Grammar where
  statement : TokenKind → Option StatementRule
  leading : TokenKind → Option LeadingRule
  trailing : TokenKind → Option (Power × TrailingRule)
  typeName : TokenKind → Bool
  typeSuffix : TokenKind → Option (Power × SuffixRule)

namespace Grammar

/-- no token announces anything -/
def empty : Grammar where
  statement _ := none
  leading _ := none
  trailing _ := none
  typeName _ := false
  typeSuffix _ := none

def standard : Grammar where
  statement
    | .keyword .kwConst | .keyword .kwLet => some .declaration
    | .keyword .kwFn | .keyword .kwAsync => some .function
    | .keyword .kwClass => some .classDef
    | .keyword .kwIf => some .conditional
    | .keyword .kwWhile => some .whileLoop
    | .keyword .kwFor => some .forLoop
    | .keyword .kwSwitch => some .switch
    | .keyword .kwBreak => some .breakLoop
    | .keyword .kwContinue => some .continueLoop
    | .keyword .kwReturn => some .returnValue
    | .keyword .kwPrint => some .print
    | .mark .openCurly => some .block
    | _ => none
  leading
    | .number | .longNumber | .string | .identifier => some .primary
    | .keyword .kwTrue | .keyword .kwFalse | .keyword .kwNull => some .primary
    | .mark .dash | .mark .plus | .mark .not => some .unary
    | .keyword .kwAwait => some .await
    | .mark .openParen => some .grouping
    | .mark .openBracket => some .array
    | .mark .openCurly => some .curly
    | _ => none
  trailing
    | .mark .and | .mark .or => some (.logical, .binary)
    | .mark .less | .mark .lessEquals | .mark .greater | .mark .greaterEquals
    | .mark .equals | .mark .notEquals => some (.relational, .binary)
    | .mark .plus | .mark .dash => some (.additive, .binary)
    | .mark .star | .mark .slash | .mark .percent => some (.multiplicative, .binary)
    | .mark .caret => some (.exponent, .power)
    | .mark .openParen => some (.call, .call)
    | .mark .openBracket => some (.member, .subscript)
    | .mark .dot => some (.member, .member)
    | _ => none
  typeName
    | .identifier => true
    | _ => false
  typeSuffix
    | .mark .openBracket => some (.call, .array)
    | .mark .question => some (.call, .nullable)
    | _ => none

/-! ## other tables -/

variable (g : Grammar) (kind : TokenKind)

def setStatement (rule : StatementRule) : Grammar :=
  { g with statement := fun k => if k = kind then some rule else g.statement k }

def setLeading (rule : LeadingRule) : Grammar :=
  { g with leading := fun k => if k = kind then some rule else g.leading k }

def setTrailing (power : Power) (rule : TrailingRule) : Grammar :=
  { g with trailing := fun k => if k = kind then some (power, rule) else g.trailing k }

def setTypeName : Grammar :=
  { g with typeName := fun k => k = kind || g.typeName k }

def setTypeSuffix (power : Power) (rule : SuffixRule) : Grammar :=
  { g with typeSuffix := fun k => if k = kind then some (power, rule) else g.typeSuffix k }

/-! ## going on -/

/-- an expression read at `power` goes on with a token of this kind -/
def extends? (power : Power) : Bool :=
  match g.trailing kind with
  | some (p, _) => p.above power
  | none => false

/-- a written type read at `power` goes on with a token of this kind -/
def typeExtends? (power : Power) : Bool :=
  match g.typeSuffix kind with
  | some (p, _) => p.above power
  | none => false

end Grammar

end TypedScript
