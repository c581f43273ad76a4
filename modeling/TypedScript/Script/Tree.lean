import TypedScript.Tree.Basic

/-!
# Scripts

The tree of a JavaScript program, as far as compiled programs need it.  All names are final: a name
is the text that is printed.  Every operation stands in parentheses of its own when it is printed, so
the tree needs no precedences.
-/

namespace TypedScript.Script

inductive Expr where
  | literal (value : Literal)
  | ident (name : String)
  | binary (op : BinaryOp) (left right : Expr)
  /-- the integer part of a quotient -/
  | truncate (quotient : Expr)
  | unary (op : UnaryOp) (operand : Expr)
  /-- an expression in parentheses -/
  | group (inner : Expr)
  | call (callee : Expr) (arguments : List Expr)
  | construct (callee : Expr) (arguments : List Expr)
  | await (inner : Expr)
  | subscript (base index : Expr)
  | member (object : Expr) (name : String)
  | array (elements : List Expr)
  | newSet (elements : List Expr)
  | object (entries : List (Expr × Expr))
  deriving Inhabited

/-- a parameter with its default -/
structure Param where
  name : String
  default : Option Expr

/-- a body that a condition guards -/
structure Guarded (σ : Type) where
  guard : Expr
  body : List σ

inductive Stmt where
  | expression (value : Expr)
  | declare (constant : Bool) (names : List String) (values : List Expr)
  | assign (targets values : List Expr)
  | function (async : Bool) (name : String) (params : List Param) (body : List Stmt)
  /-- a function that copies variables onto the object that it constructs -/
  | constructor (name : String) (params : List Param) (fields : List String)
  /-- gives the objects of a constructor a method -/
  | attach (constructor method : String)
  | conditional (branches : List (Guarded Stmt)) (otherwise : Option (List Stmt))
  | whileLoop (condition : Expr) (body : List Stmt)
  | forLoop (index : String) (init test : Expr) (target : String) (update : Update Expr)
      (body : List Stmt)
  /-- takes the first case whose guard holds -/
  | switch (cases : List (Guarded Stmt)) (otherwise : Option (List Stmt))
  | breakLoop
  | continueLoop
  | returnValue (value : Option Expr)
  | print (value : Expr)
  | block (body : List Stmt)
  deriving Inhabited

end TypedScript.Script
