import Treewalk.Decimal.Integer
import Treewalk.Syntax
import Treewalk.Value.Tag

/-! # Faults of a run

What can go wrong while a program runs, and the messages. -/

namespace Treewalk

/-- Why a run stopped. -/
inductive Fault
  /-- The operator has no meaning for operands of two different kinds. -/
  | typeMismatch (left : Tag) (op : BinaryOp) (right : Tag)
  | unknownUnary (op : UnaryOp) (operand : Tag)
  | unknownBinary (left : Tag) (op : BinaryOp) (right : Tag)
  | unbound (name : String)
  | notCallable (tag : Tag)
  | notIndexable (tag : Tag)
  | unusableKey (tag : Tag)
  | argumentCount (got want : Nat)
  | argumentUnsupported (builtin : Builtin) (got : Tag)
  | argumentMustBe (builtin : Builtin) (expected got : Tag)
  | divisionByZero
  /-- The negative of this number is out of range. -/
  | negationRange (operand : Int64)
  /-- The result for these operands is out of range. -/
  | arithmeticRange (left : Int64) (op : BinaryOp) (right : Int64)
deriving DecidableEq, Repr

/-- The sentence that tells of a fault. -/
def Fault.message : Fault → String
  | typeMismatch l op r => "type mismatch: " ++ l.name ++ " " ++ op.symbol ++ " " ++ r.name
  | unknownUnary op t => "unknown operator: " ++ op.symbol ++ t.name
  | unknownBinary l op r => "unknown operator: " ++ l.name ++ " " ++ op.symbol ++ " " ++ r.name
  | unbound n => "identifier not found: " ++ n
  | notCallable t => "not a function: " ++ t.name
  | notIndexable t => "index operator not supported: " ++ t.name
  | unusableKey t => "unusable as hash key: " ++ t.name
  | argumentCount got want =>
    "wrong number of arguments. got=" ++ toString got ++ ", want=" ++ toString want
  | argumentUnsupported b t =>
    "argument to `" ++ b.name ++ "` not supported, got " ++ t.name
  | argumentMustBe b expected got =>
    "argument to `" ++ b.name ++ "` must be " ++ expected.name ++ ", got " ++ got.name
  | divisionByZero => "division by zero"
  | negationRange v => "integer overflow: -(" ++ Integer.text v ++ ")"
  | arithmeticRange l op r =>
    "integer overflow: " ++ Integer.text l ++ " " ++ op.symbol ++ " " ++ Integer.text r

end Treewalk
