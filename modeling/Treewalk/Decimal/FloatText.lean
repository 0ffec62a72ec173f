import Treewalk.Decimal.Shortest

/-! # The written form of floating-point numbers

A 64-bit floating-point number is written with the fewest digits that read back to it.

* `Binary.ofBits?` takes the bits of a number apart.
* A `Layout` says from which to which order of magnitude numbers are written with all their
  places, and how numbers beyond are marked.
* `floatText` writes a number in a layout. -/

namespace Treewalk.Decimal

/-- The magnitude of the number with the given bits, unless it is zero, infinite or not a number. -/
def Binary.ofBits? (bits : UInt64) : Option Binary :=
  let fraction : Nat := bits.toNat % (1 <<< 52)
  let power : Nat := (bits.toNat >>> 52) % 2048
  if power = 2047 then none
  else if power = 0 then
    if fraction = 0 then none else some ⟨fraction, -1074, false⟩
  else some ⟨(1 <<< 52) + fraction, (power : Int) - 1075, fraction = 0 ∧ 1 < power⟩

/-- How numbers are laid out.  A number of decimal order `k`, that is with `10 ^ k ≤ |x| < 10 ^ (k + 1)`,
is written with all its places for `smallest ≤ k < large`, and else as digits and an exponent. -/
structure Layout where
  smallest : Int
  large : Int
  point : String
  exponentMark : String
  infinity : String
  notANumber : String

/-- The digits of a decimal without the zeros at the end, and its order of magnitude. -/
def Scientific.normal (s : Scientific) : List Char × Int :=
  let ds := Decimal.digits s.digits
  ((ds.reverse.dropWhile (· == '0')).reverse, s.exponent + ds.length - 1)

/-- An integer in decimal. -/
def intDigits (n : Int) : List Char :=
  if n < 0 then '-' :: digits n.natAbs else digits n.natAbs

/-- A decimal with the given digits and order of magnitude, in a layout. -/
def Layout.write (l : Layout) (ds : List Char) (order : Int) : String :=
  if l.smallest ≤ order ∧ order < l.large then
    if order < 0 then
      "0" ++ l.point ++ String.ofList (List.replicate ((-order).toNat - 1) '0' ++ ds)
    else
      let whole := order.toNat + 1
      let fraction := ds.drop whole
      String.ofList (ds.take whole ++ List.replicate (whole - ds.length) '0') ++ l.point ++
        String.ofList (if fraction.isEmpty then ['0'] else fraction)
  else
    let fraction := ds.drop 1
    String.ofList (ds.take 1) ++
      (if fraction.isEmpty then "" else l.point ++ String.ofList fraction) ++
      l.exponentMark ++ String.ofList (intDigits order)

/-- The written form of a number in a layout.  A number that is not a number has no sign. -/
def floatText (l : Layout) (x : Float) : String :=
  let bits := x.toBits
  let sign := if 0x8000000000000000 ≤ bits.toNat then "-" else ""
  if x.isNaN then l.notANumber
  else if x.isInf then sign ++ l.infinity
  else
    match (Binary.ofBits? bits).bind shortest? with
    | none => sign ++ "0" ++ l.point ++ "0"
    | some s => sign ++ l.write s.normal.1 s.normal.2

end Treewalk.Decimal
