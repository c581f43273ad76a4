import TypedScript.Token.Basic

/-!
# Operators

The binary and unary operators of expressions, with the marks that write them.
-/

namespace TypedScript

/-! ## binary operators -/

inductive BinaryOp where
  | add | subtract | multiply | divide | modulo | power
  | and | or
  | less | lessEquals | greater | greaterEquals | equals | notEquals
  deriving DecidableEq, Repr, Inhabited

namespace BinaryOp

def all : List BinaryOp :=
  [add, subtract, multiply, divide, modulo, power, and, or, less, lessEquals, greater,
   greaterEquals, equals, notEquals]

theorem mem_all (op : BinaryOp) : op ∈ all := by cases op <;> decide

/-- the mark that writes an operator -/
def mark : BinaryOp → Mark
  | add => .plus
  | subtract => .dash
  | multiply => .star
  | divide => .slash
  | modulo => .percent
  | power => .caret
  | and => .and
  | or => .or
  | less => .less
  | lessEquals => .lessEquals
  | greater => .greater
  | greaterEquals => .greaterEquals
  | equals => .equals
  | notEquals => .notEquals

def symbol (op : BinaryOp) : String := op.mark.spelling

/-- the operator that a token writes between two operands -/
def ofKind? : TokenKind → Option BinaryOp
  | .mark m => all.find? fun op => op.mark = m
  | _ => none

theorem ofKind?_mark (op : BinaryOp) : ofKind? (.mark op.mark) = some op := by
  cases op <;> decide

end BinaryOp

/-! ## unary operators -/

inductive UnaryOp where
  | not | negate | plus
  deriving DecidableEq, Repr, Inhabited

namespace UnaryOp

def all : List UnaryOp := [not, negate, plus]

theorem mem_all (op : UnaryOp) : op ∈ all := by cases op <;> decide

/-- the mark that writes an operator -/
def mark : UnaryOp → Mark
  | not => .not
  | negate => .dash
  | plus => .plus

def symbol (op : UnaryOp) : String := op.mark.spelling

/-- the operator that a token writes before its operand -/
def ofKind? : TokenKind → Option UnaryOp
  | .mark m => all.find? fun op => op.mark = m
  | _ => none

theorem ofKind?_mark (op : UnaryOp) : ofKind? (.mark op.mark) = some op := by
  cases op <;> decide

end UnaryOp

end TypedScript
