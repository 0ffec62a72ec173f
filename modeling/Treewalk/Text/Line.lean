/-! # Lines of a text

A line ends after a line feed, a carriage return, the two of them together, or one of the other line
ends of Unicode.  The line end belongs to its line, so the lines of a text make up the text
(`flatten_split`).

* `split` cuts a text into lines.  A text that ends in a line end has no empty line after it, and an
  empty text has no line.
* `lines` numbers them by the offsets at which they start, counted in characters.  An empty text
  counts as one empty line here. -/

namespace Treewalk.Text

/-- Whether a character ends a line. -/
def isLineEnd (c : Char) : Bool :=
  c == '\n' || c == '\r' || c == '\x0b' || c == '\x0c' || c == '\u0085' || c == '\u2028' ||
    c == '\u2029'

/-- Puts a character in front of the first line. -/
def prepend (c : Char) : List (List Char) → List (List Char)
  | [] => [[c]]
  | l :: ls => (c :: l) :: ls

/-- The lines of a text, each with its line end. -/
def split : List Char → List (List Char)
  | [] => []
  | c :: cs =>
    if c = '\r' ∧ cs.head? = some '\n' then prepend c (split cs)
    else if isLineEnd c then [c] :: split cs
    else prepend c (split cs)

theorem flatten_prepend (c : Char) (ls : List (List Char)) :
    (prepend c ls).flatten = c :: ls.flatten := by
  cases ls <;> rfl

/-- No character is lost. -/
theorem flatten_split (cs : List Char) : (split cs).flatten = cs := by
  induction cs with
  | nil => rfl
  | cons c cs ih =>
    unfold split
    split
    · rw [flatten_prepend, ih]
    · split
      · simp [ih]
      · rw [flatten_prepend, ih]

/-- A line of a text: its number, counted from zero, the offset of its first character, and its
characters with the line end. -/
structure Line where
  number : Nat
  offset : Nat
  chars : List Char

/-- Numbers lines from a number and an offset on. -/
def enumerate (number offset : Nat) : List (List Char) → List Line
  | [] => []
  | l :: ls => ⟨number, offset, l⟩ :: enumerate (number + 1) (offset + l.length) ls

/-- The lines of a text, of which there is always one. -/
def lines (cs : List Char) : List Line :=
  match split cs with
  | [] => [⟨0, 0, []⟩]
  | ls => enumerate 0 0 ls

/-- The line at an offset: the last one that starts there or before. -/
def lineAt (cs : List Char) (offset : Nat) : Line :=
  ((lines cs).reverse.find? fun l => l.offset ≤ offset).getD ⟨0, 0, []⟩

end Treewalk.Text
