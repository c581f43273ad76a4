import TypedScript.Operator
import TypedScript.Diagnostic.Cause
import TypedScript.Ty.Basic

/-!
# Rules of types

The rules that need no scope: which values a place accepts, what indexing gives, and what an
operator gives on operands of given types.
-/

namespace TypedScript

namespace Ty

/-- a value of type `source` may be stored in a place of type `target`: the types are equal, or the
place is nullable and the value has its inner type or is null -/
def assignable (source target : Ty) : Bool :=
  source = target ||
    match target with
    | nullable inner => source = inner || source = none
    | _ => false

/-- the types of loop indices and range bounds -/
def isIntegral : Ty → Bool
  | int | long => true
  | _ => false

/-- the type of an element, for a type that can be indexed -/
def subscript? : Ty → Option Ty
  | array element => some element
  | dict _ value => some value
  | string => some string
  | tuple [member] => some member
  | _ => Option.none

end Ty

open Ty

/-- the operator does not take operands of these types -/
def BinaryOp.mismatch (op : BinaryOp) (left right : Ty) : Cause :=
  .operandMismatch op.symbol left.text right.text

/-- the type of `left op right` -/
def BinaryOp.result (op : BinaryOp) (left right : Ty) : Except Cause Ty :=
  match op with
  | power | subtract | multiply | modulo | divide =>
    if left = .int ∧ right = .int then .ok .int else .error (op.mismatch left right)
  | and | or =>
    if left = .bool ∧ right = .bool then .ok .bool else .error (op.mismatch left right)
  | less | lessEquals | greater | greaterEquals =>
    if left = right ∧ (left = .int ∨ left = .string) then .ok .bool
    else .error (op.mismatch left right)
  | add =>
    if left = .int ∧ right = .int then .ok .int
    else if left = .string ∧ right = .string then .ok .string
    else .error (.concatenationMismatch left.text right.text)
  | equals | notEquals => if left = right then .ok .bool else .error (op.mismatch left right)

/-- the type of `op operand` -/
def UnaryOp.result (op : UnaryOp) (operand : Ty) : Except Cause Ty :=
  match op, operand with
  | not, .bool => .ok .bool
  | negate, .int | plus, .int => .ok .int
  | negate, .long | plus, .long => .ok .long
  | _, _ => .error (.unaryMismatch op.symbol operand.text)

end TypedScript
