/-! # Likeness of two texts

How much two texts look alike, as a number from zero to one (Jaro's measure).

* Equal characters are **partners** if they stand at about the same place: their positions differ by
  less than half the length of the longer text.  Every character has at most one partner, and the
  characters of the first text choose theirs in order (`pair`).
* `likeness` is the mean of three shares: that of the characters with a partner in the first text and
  in the second text, and that of the partners which stand in the same order in both.

The number is a floating-point one.  It is compared with a bound that some texts meet up to rounding,
so the order in which it is worked out matters. -/

namespace Treewalk.Text

/-- Takes the first free character from position `low` on and before `high` that equals `c`, in a text
of which `j` characters have been passed over. -/
def takePartner (c : Char) (low high j : Nat) : List (Char × Bool) → Option (List (Char × Bool))
  | [] => none
  | (d, taken) :: rest =>
    if low ≤ j ∧ j < high ∧ d = c ∧ taken = false then some ((d, true) :: rest)
    else (takePartner c low high (j + 1) rest).map ((d, taken) :: ·)

/-- The characters from position `i` on that find a partner no further away than `reach`, and the other
text with the partners marked as taken. -/
def pair (reach i : Nat) (other : List (Char × Bool)) : List Char → List Char × List (Char × Bool)
  | [] => ([], other)
  | c :: cs =>
    match takePartner c (i - reach) (i + reach + 1) 0 other with
    | some other =>
      let (found, other) := pair reach (i + 1) other cs
      (c :: found, other)
    | none => pair reach (i + 1) other cs

/-- How much two texts look alike.  Texts without a pair of partners do not at all. -/
def likeness (as bs : List Char) : Float :=
  let reach := max as.length bs.length / 2 - 1
  let (left, marked) := pair reach 0 (bs.map (·, false)) as
  let right := (marked.filter Prod.snd).map Prod.fst
  let crossed := (left.zip right).countP (fun p => p.1 != p.2) / 2
  let share (part whole : Nat) := part.toFloat / whole.toFloat
  if left.isEmpty then 0
  else
    (share left.length as.length + share left.length bs.length +
      share (left.length - crossed) left.length) / 3

end Treewalk.Text
