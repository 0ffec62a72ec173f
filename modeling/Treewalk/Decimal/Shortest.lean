import Treewalk.Decimal.Natural

/-! # The shortest decimal that reads back

A binary floating-point number stands for all reals that round to it.  Of the decimals in that
interval this module picks the one with the fewest digits, and of those the nearest to the number.

* `Binary` is a positive number `mantissa * 2 ^ exponent` together with the interval around it: it
  reaches half way to the neighbours above and below, and has its ends when the mantissa is even.
* `Scaled` is such a number measured in units of a power of ten, in exact fractions.
* `shortest?` tries the decimal grids of 1, 2, 3, … digits.  On each the only points that can lie in
  the interval and be nearest are the two neighbours of the number.  Seventeen digits always
  suffice for a 64-bit number. -/

namespace Treewalk.Decimal

/-- A positive binary number.  `halved` says that the neighbour below is half as far away as the
neighbour above, as it is at a power of two. -/
structure Binary where
  mantissa : Nat
  exponent : Int
  halved : Bool

/-- A decimal number `digits * 10 ^ exponent`. -/
structure Scientific where
  digits : Nat
  exponent : Int
deriving DecidableEq, Repr

/-- The number of decimal digits of a natural number, less one. -/
def log10 (n : Nat) : Nat :=
  (digits n).length - 1

/-- The exponent of the power of ten that is the largest not above `num / den`. -/
def decade (num den : Nat) : Int :=
  if den ≤ num then Int.ofNat (log10 (num / den))
  else Int.negSucc (log10 ((den + num - 1) / num - 1))

/-- A number and the ends of its interval, in quarters of a unit of which `den` make up the step of
a decimal grid. -/
structure Scaled where
  low : Nat
  value : Nat
  high : Nat
  den : Nat
  closed : Bool

/-- A power with an exponent that may be negative, as a fraction. -/
def power (base : Nat) (e : Int) : Nat × Nat :=
  if 0 ≤ e then (base.pow e.toNat, 1) else (1, base.pow (-e).toNat)

/-- A number measured on the grid whose step is `10 ^ e`. -/
def Binary.scale (x : Binary) (e : Int) : Scaled :=
  let two := power 2 (x.exponent - 2)
  let ten := power 10 e
  let unit := two.1 * ten.2
  { low := (4 * x.mantissa - if x.halved then 1 else 2) * unit
    value := 4 * x.mantissa * unit
    high := (4 * x.mantissa + 2) * unit
    den := two.2 * ten.1
    closed := x.mantissa % 2 == 0 }

/-- Whether a point of the grid lies in the interval. -/
def Scaled.holds (s : Scaled) (d : Nat) : Bool :=
  if s.closed then s.low ≤ d * s.den && d * s.den ≤ s.high
  else s.low < d * s.den && d * s.den < s.high

/-- The point of the grid in the interval that is nearest to the number, and of two equally near
ones the larger. -/
def Scaled.nearest? (s : Scaled) : Option Nat :=
  let below := s.value / s.den
  let above := below + 1
  match s.holds below, s.holds above with
  | true, true =>
    some (if s.value - below * s.den < above * s.den - s.value then below else above)
  | true, false => some below
  | false, true => some above
  | false, false => none

/-- The exponent of the decimal order of magnitude of a number. -/
def Binary.magnitude (x : Binary) : Int :=
  let two := power 2 x.exponent
  decade (x.mantissa * two.1) two.2

/-- The decimal of at most `count` digits in the interval of a number that is nearest to it. -/
def Binary.onGrid? (x : Binary) (count : Nat) : Option Scientific :=
  let e := x.magnitude - count + 1
  (x.scale e).nearest?.map (⟨·, e⟩)

/-- The shortest decimal in the interval of a number, and of those the nearest to it. -/
def shortest? (x : Binary) : Option Scientific :=
  (List.range' 1 17).findSome? x.onGrid?

end Treewalk.Decimal
