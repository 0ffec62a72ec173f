/-! # Ranges of code points

Properties of characters are given by tables of inclusive ranges of code points, the form in
which the Unicode character database publishes them.

* `Ranges` is such a table, in increasing order.
* `Ranges.contains` asks whether a character lies in one of the ranges. -/

namespace Treewalk.Text

/-- Inclusive ranges of code points, in increasing order. -/
abbrev Ranges := List (Nat × Nat)

/-- Whether the code point of a character lies in one of the ranges. -/
def Ranges.contains (rs : Ranges) (c : Char) : Bool :=
  rs.any fun r => r.1 ≤ c.toNat && c.toNat ≤ r.2

theorem Ranges.contains_iff {rs : Ranges} {c : Char} :
    rs.contains c = true ↔ ∃ r ∈ rs, r.1 ≤ c.toNat ∧ c.toNat ≤ r.2 := by
  simp [Ranges.contains]

end Treewalk.Text
