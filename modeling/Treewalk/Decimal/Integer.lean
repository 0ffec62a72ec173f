import Treewalk.Decimal.Natural

/-! # The written form of 64-bit integers

Numbers of the language are whole numbers from `-2^63` to `2^63 - 1`.

* `Integer.text` writes one in decimal, with a minus sign before a negative number.
* `Integer.ofDigits?` reads a run of digits as one, if its value is in the range.
* `Integer.ofInt?` is the number of an exact value, if it is in the range (`inRange`). -/

namespace Treewalk.Integer

/-- Whether 64 bits hold a whole number. -/
def inRange : Int → Bool
  | .ofNat k => decide (k < 0x8000000000000000)
  | .negSucc k => decide (k < 0x8000000000000000)

theorem inRange_iff {n : Int} :
    inRange n = true ↔ -0x8000000000000000 ≤ n ∧ n < 0x8000000000000000 := by
  cases n with
  | ofNat k => simp only [inRange, decide_eq_true_eq, Int.ofNat_eq_natCast]; omega
  | negSucc k => simp only [inRange, decide_eq_true_eq, Int.negSucc_eq]; omega

/-- The number with an exact value, if 64 bits hold it. -/
def ofInt? (n : Int) : Option Int64 :=
  if inRange n then some (Int64.ofInt n) else none

/-- The number that a run of digits stands for, if 64 bits hold it. -/
def ofDigits? (cs : List Char) : Option Int64 :=
  ofInt? (Decimal.ofDigits cs)

/-- The decimal form of a number. -/
def text (n : Int64) : String :=
  if n.toInt < 0 then String.ofList ('-' :: Decimal.digits n.toInt.natAbs)
  else String.ofList (Decimal.digits n.toInt.natAbs)

/-- A number that was made from an exact value has that value. -/
theorem toInt_of_ofInt? {n : Int} {m : Int64} (h : ofInt? n = some m) : m.toInt = n := by
  unfold ofInt? at h
  split at h
  · rename_i hn
    rw [inRange_iff] at hn
    obtain rfl := Option.some.inj h
    exact Int64.toInt_ofInt_of_le (by simpa using hn.1) (by simpa using hn.2)
  · cases h

/-- Every number is that of its own value. -/
@[simp] theorem ofInt?_toInt (v : Int64) : ofInt? v.toInt = some v := by
  have h : inRange v.toInt = true := by
    have hlow := Int64.le_toInt v
    have hhigh := Int64.toInt_lt v
    exact inRange_iff.2 ⟨hlow, hhigh⟩
  rw [ofInt?, if_pos h, Int64.ofInt_toInt]

/-- An exact value has no number just when it is out of range. -/
theorem ofInt?_eq_none_iff {n : Int} :
    ofInt? n = none ↔ n < -0x8000000000000000 ∨ 0x8000000000000000 ≤ n := by
  unfold ofInt?
  split
  · rename_i h
    rw [inRange_iff] at h
    simp only [reduceCtorEq, false_iff]
    omega
  · rename_i h
    rw [inRange_iff] at h
    simp only [true_iff]
    omega

end Treewalk.Integer
