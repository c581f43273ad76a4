import TypedScript.Operator
import TypedScript.Ty.Basic

/-!
# Program trees

The tree of a program as it is written, with slots that the checker fills: the type of each
expression, what each name refers to, and the identity and type of each declared name.  The slots
are empty after parsing.  A failed check leaves them filled up to the point of failure, so a tree
may be annotated in part.

* `TypeTerm`   a type as written;
* `Expr`       expressions; the last field of each is its type slot;
* `Stmt`       statements; a body is a list of statements.
-/

namespace TypedScript

/-! ## types as written -/

inductive TypeTerm where
  | named (name : String)
  | generic (name : String) (arguments : List TypeTerm)
  | nullable (inner : TypeTerm)
  deriving Inhabited

mutual

/-- the text of a written type; `T[]` shows as `array<T>` -/
def TypeTerm.text : TypeTerm → String
  | .named n => n
  | .generic n as => n ++ "<" ++ ", ".intercalate (TypeTerm.texts as) ++ ">"
  | .nullable a => a.text ++ "?"

def TypeTerm.texts : List TypeTerm → List String
  | [] => []
  | a :: as => a.text :: TypeTerm.texts as

end

/-! ## names -/

/-- what a name refers to: a declaration of the program, or a built-in with its target name -/
inductive Resolution where
  | declared (id : DeclId)
  | builtin (native : String)
  deriving DecidableEq, Repr, Inhabited

/-- a name in use -/
structure Symbol where
  name : String
  resolution : Option Resolution
  deriving DecidableEq, Repr, Inhabited

def Symbol.ofName (name : String) : Symbol := ⟨name, none⟩

/-! ## expressions -/

/-- literal values; a long keeps its digits as written -/
inductive Literal where
  | integer (value : Int)
  | long (digits : String)
  | string (value : String)
  | boolean (value : Bool)
  | null
  deriving DecidableEq, Repr, Inhabited

def Literal.type : Literal → Ty
  | .integer _ => .int
  | .long _ => .long
  | .string _ => .string
  | .boolean _ => .bool
  | .null => .none

/-- the literals that list their elements -/
inductive Collection where
  | array | set | tuple
  deriving DecidableEq, Repr, Inhabited

inductive Expr where
  | literal (value : Literal) (type : Option Ty)
  | name (symbol : Symbol) (type : Option Ty)
  | binary (op : BinaryOp) (left right : Expr) (type : Option Ty)
  | unary (op : UnaryOp) (operand : Expr) (type : Option Ty)
  | call (callee : Expr) (arguments : List Expr) (awaited constructs : Bool) (type : Option Ty)
  | subscript (base index : Expr) (type : Option Ty)
  | member (object : Expr) (symbol : Symbol) (type : Option Ty)
  | collection (form : Collection) (elements : List Expr) (type : Option Ty)
  | dict (entries : List (Expr × Expr)) (type : Option Ty)
  deriving Inhabited

namespace Expr

/-- the type slot -/
def type : Expr → Option Ty
  | literal _ t | name _ t | binary _ _ _ t | unary _ _ t | call _ _ _ _ t | subscript _ _ t
  | member _ _ t | collection _ _ t | dict _ t => t

/-- a short description for messages -/
def describe : Expr → String
  | literal _ _ => "a literal"
  | name s _ => "`" ++ s.name ++ "`"
  | binary op _ _ _ => "a `" ++ op.symbol ++ "` expression"
  | unary op _ _ => "a `" ++ op.symbol ++ "` expression"
  | call _ _ _ _ _ => "a call"
  | subscript _ _ _ => "a subscript"
  | member _ s _ => "member `" ++ s.name ++ "`"
  | collection .array _ _ => "an array literal"
  | collection .set _ _ => "a set literal"
  | collection .tuple _ _ => "a tuple literal"
  | dict _ _ => "a dict literal"

end Expr

/-! ## declarations -/

/-- one name of a variable declaration, or the index of a loop -/
structure Declarator where
  name : String
  written : Option TypeTerm
  id : Option DeclId
  type : Option Ty
  deriving Inhabited

structure Parameter where
  name : String
  written : TypeTerm
  default : Option Expr
  id : Option DeclId
  type : Option Ty
  deriving Inhabited

/-- a function without its body; no written return type means that it returns `none` -/
structure FunctionHead where
  name : String
  id : Option DeclId
  parameters : List Parameter
  returns : Option TypeTerm
  async : Bool
  deriving Inhabited

/-- a class without its body; the parameters are those of its constructor -/
structure ClassHead where
  name : String
  id : Option DeclId
  parameters : List Parameter
  deriving Inhabited

/-! ## statements -/

/-- a body that a condition guards: a branch of a conditional or a case of a switch -/
structure Guarded (σ : Type) where
  guard : Expr
  body : List σ

/-- how a loop changes its index -/
inductive Update (ε : Type) where
  | increment
  | decrement
  | increase (step : ε)
  | decrease (step : ε)

/-- the part of a counting loop between its parentheses -/
structure ForHead where
  index : Declarator
  init : Expr
  test : Expr
  target : Symbol
  update : Update Expr

inductive Stmt where
  | expression (value : Expr)
  | declare (constant : Bool) (declarators : List Declarator) (values : List Expr)
  | assign (targets values : List Expr)
  | function (head : FunctionHead) (body : List Stmt)
  | classDef (head : ClassHead) (body : List Stmt)
  | conditional (branches : List (Guarded Stmt)) (otherwise : Option (List Stmt))
  | whileLoop (condition : Expr) (body : List Stmt)
  | forLoop (head : ForHead) (body : List Stmt)
  | rangeLoop (start stop : Expr) (body : List Stmt)
  | switch (scrutinee : Expr) (cases : List (Guarded Stmt)) (otherwise : Option (List Stmt))
  | breakLoop
  | continueLoop
  | returnValue (value : Option Expr)
  | print (value : Expr)
  | block (body : List Stmt)
  deriving Inhabited

/-- the statements of a source file -/
abbrev Program := List Stmt

end TypedScript
