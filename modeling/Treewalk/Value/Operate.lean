import Treewalk.Value

/-! # Operators on values

What the operators give for values that are not control values.  Each either gives a value or
fails for a reason.

* Sums, differences, products and negatives of integers are exact; one that 64 bits do not hold is a
  fault (`exact`).
* A quotient is always a floating-point number, and a divisor that equals zero is a fault.
* A number with a fraction on one side makes the other side one too.
* Strings can only be joined.
* Values of all other kinds can only be compared, and are equal when they are one (`Value.same`).
* An index outside an array, and a key that a table does not hold, give `null`. -/

namespace Treewalk

variable {μ : Type}

/-- An exact result as a value, or the given fault if 64 bits do not hold it. -/
def exact (n : Int) (fault : Fault) : Except Fault (Value μ) :=
  match Integer.ofInt? n with
  | some v => .ok (.int v)
  | none => .error fault

namespace UnaryOp

/-- The value of an operator before a value. -/
def apply : UnaryOp → Value μ → Except Fault (Value μ)
  | not, v => .ok (.bool !v.isTruthy)
  | neg, .int n => exact (-n.toInt) (.negationRange n)
  | neg, .float x => .ok (.float (-x))
  | neg, v => .error (.unknownUnary neg v.tag)

end UnaryOp

namespace BinaryOp

/-- The value of an operator between two floating-point numbers. -/
def onFloats : BinaryOp → Float → Float → Except Fault (Value μ)
  | add, l, r => .ok (.float (l + r))
  | sub, l, r => .ok (.float (l - r))
  | mul, l, r => .ok (.float (l * r))
  | div, l, r => if r == 0 then .error .divisionByZero else .ok (.float (l / r))
  | lt, l, r => .ok (.bool (l < r))
  | gt, l, r => .ok (.bool (l > r))
  | eq, l, r => .ok (.bool (l == r))
  | ne, l, r => .ok (.bool (l != r))

/-- The value of an operator between two integers. -/
def onInts : BinaryOp → Int64 → Int64 → Except Fault (Value μ)
  | add, l, r => exact (l.toInt + r.toInt) (.arithmeticRange l add r)
  | sub, l, r => exact (l.toInt - r.toInt) (.arithmeticRange l sub r)
  | mul, l, r => exact (l.toInt * r.toInt) (.arithmeticRange l mul r)
  | div, l, r => onFloats div l.toFloat r.toFloat
  | lt, l, r => .ok (.bool (l.toInt < r.toInt))
  | gt, l, r => .ok (.bool (r.toInt < l.toInt))
  | eq, l, r => .ok (.bool (l == r))
  | ne, l, r => .ok (.bool (l != r))

/-- The value of an operator between two strings. -/
def onStrings : BinaryOp → String → String → Except Fault (Value μ)
  | add, l, r => .ok (.string (l ++ r))
  | op, _, _ => .error (.unknownBinary .string op .string)

/-- The value of an operator between two values that it can only compare. -/
def onIdentities : BinaryOp → Value μ → Value μ → Except Fault (Value μ)
  | eq, l, r => .ok (.bool (l.same r))
  | ne, l, r => .ok (.bool !(l.same r))
  | op, l, r =>
    if l.tag = r.tag then .error (.unknownBinary l.tag op r.tag)
    else .error (.typeMismatch l.tag op r.tag)

/-- The value of an operator between two values. -/
def apply (op : BinaryOp) : Value μ → Value μ → Except Fault (Value μ)
  | .int l, .int r => op.onInts l r
  | .int l, .float r => op.onFloats l.toFloat r
  | .float l, .int r => op.onFloats l r.toFloat
  | .float l, .float r => op.onFloats l r
  | .string l, .string r => op.onStrings l r
  | l, r => op.onIdentities l r

end BinaryOp

namespace Value

/-- The item of a list at an integer position, and `null` outside it. -/
def itemAt (items : List (Value μ)) (n : Int64) : Value μ :=
  if 0 ≤ n.toInt then (items[n.toInt.toNat]?).getD .null else .null

/-- What a table holds under a key, and `null` if it has no such key. -/
def entryAt (entries : Table Key (Value μ × Value μ)) (k : Key) : Value μ :=
  match entries.find? k with
  | some e => e.2
  | none => .null

/-- The value of `target[key]`. -/
def index : Value μ → Value μ → Except Fault (Value μ)
  | array _ items, int n => .ok (itemAt items n)
  | table _ entries, key =>
    match key.key? with
    | some k => .ok (entryAt entries k)
    | none => .error (.unusableKey key.tag)
  | target, _ => .error (.notIndexable target.tag)

end Value

end Treewalk
