import Treewalk.Syntax.Error
import Treewalk.Text.Blank
import Treewalk.Text.Line
import Treewalk.Text.Width

/-! # Reports

A report shows a message with the lines of the text that it is about, and marks a stretch of them.

* The stretch is given by offsets in **characters**.
* A stretch within one line is underlined from its start to its end, with a hook at its middle that
  leads to the label.  A stretch over several lines has an arrow at its first and last line instead.
* A stretch that begins behind the text, or ends more than one character behind it, is not shown.
  One that ends one character behind the text is shown only by its place or its first line.
* Lines are shown without the blanks at their ends.  A tab fills up to the next multiple of four
  characters, and every other blank shows as one space.

`SyntaxError.report` is the report on a syntax error.  It takes the offsets of the token, which count
bytes, as they are. -/

namespace Treewalk

/-- What a report says: a message, a label, and the characters from `start` up to, and not
including, `stop`. -/
structure Report where
  message : String
  label : String
  start : Nat
  stop : Nat

namespace Report

open Text

/-- A text of one character repeated. -/
def row (n : Nat) (c : Char) : String :=
  String.ofList (List.replicate n c)

/-- The cells taken by the character in a column. -/
def cells (column : Nat) (c : Char) : Nat :=
  if c = '\t' then 4 - column % 4
  else if isBlank c then 1
  else width c

/-- A character as it is shown in a column. -/
def shown (column : Nat) (c : Char) : List Char :=
  if c = '\t' ∨ isBlank c then List.replicate (cells column c) ' ' else [c]

/-- A line as it is shown. -/
def shownLine (cs : List Char) : String :=
  String.ofList ((trimEnd cs).zipIdx.flatMap fun (c, i) => shown i c)

/-- The cells taken by each of the first `width` columns of a line.  A column behind the end of what
is shown takes one. -/
def columnCells (cs : List Char) (width : Nat) : List Nat :=
  let taken := (trimEnd cs).zipIdx.map fun (c, i) => cells i c
  (taken ++ List.replicate (width - taken.length) 1).take width

/-- A character followed by as many of another as fill a number of cells. -/
def filled (n : Nat) (c fill : Char) : String :=
  String.ofList ((c :: List.replicate (n - 1) fill).take n)

/-- The underline of the columns before `width`: a dash for those the stretch covers, and a hook at
the middle. -/
def underline (cs : List Char) (covers : Nat → Bool) (middle width : Nat) : String :=
  String.join ((columnCells cs width).zipIdx.map fun (n, col) =>
    if col = middle then if covers col then filled n '┬' '─' else filled n '│' ' '
    else row n (if covers col then '─' else ' '))

/-- The line from the middle of the stretch to the label. -/
def leader (cs : List Char) (middle width : Nat) : String :=
  String.join ((columnCells cs width).zipIdx.map fun (n, col) =>
    if col < middle then row n ' '
    else if col = middle then filled n '╰' '─'
    else row n '─')

/-- A line number at the right end of `width` cells. -/
def numbered (width number : Nat) : String :=
  let digits := toString number
  row (width - digits.length) ' ' ++ digits

/-- The lines under the heading, for a stretch within the line `l`. -/
def withinLine (r : Report) (digits : Nat) (l : Line) : List String :=
  let margin := row (digits + 2) ' ' ++ "│ "
  if l.offset + l.chars.length < r.stop then [margin]
  else
    let width := r.stop - l.offset + 2
    let middle := (r.start + r.stop) / 2 - l.offset
    let covers := fun col => decide (r.start ≤ l.offset + col ∧ l.offset + col < r.stop)
    [" " ++ numbered digits (l.number + 1) ++ " │ " ++ shownLine l.chars,
      margin ++ underline l.chars covers middle width,
      margin ++ leader l.chars middle width ++ " " ++ r.label]

/-- The lines under the heading, for a stretch from the line `a` to the line `b`.  Lines between them
that are left out are stood for by one gap, and so is the line `b` if the stretch leaves it. -/
def overLines (r : Report) (digits : Nat) (a b : Line) : List String :=
  let margin := row (digits + 2) ' '
  let leaves := b.offset + b.chars.length < r.stop
  let reach := (columnCells b.chars (b.chars.length + 2)).foldr Nat.add 0
  [" " ++ numbered digits (a.number + 1) ++ " │ ╭─▶ " ++ shownLine a.chars] ++
    (if a.number + 1 < b.number ∨ leaves then [margin ++ "┆ ┆   "] else []) ++
    (if leaves then []
    else
      [" " ++ numbered digits (b.number + 1) ++ " │ ├─▶ " ++ shownLine b.chars,
        margin ++ "│ │   " ++ row reach ' ',
        margin ++ "│ ╰───" ++ row reach '─' ++ " " ++ r.label])

/-- The lines of a report on a text that goes by a name. -/
def lines (r : Report) (name : String) (source : List Char) : List String :=
  let heading := "Error: " ++ r.message
  let last := if r.start < r.stop then r.stop - 1 else r.start
  if source.length < r.start ∨ source.length < last then [heading]
  else
    let a := lineAt source r.start
    let b := lineAt source last
    let digits := (toString (b.number + 1)).length
    let margin := row (digits + 2) ' '
    let place := name ++ ":" ++ toString (a.number + 1) ++ ":" ++ toString (r.start - a.offset + 1)
    [heading, margin ++ "╭─[ " ++ place ++ " ]", margin ++ "│"] ++
      (if a.number = b.number then r.withinLine digits a else r.overLines digits a b) ++
      [row (digits + 2) '─' ++ "╯"]

/-- The text of a report, every line with a line feed. -/
def text (r : Report) (name source : String) : String :=
  String.join ((r.lines name source.toList).map (· ++ "\n"))

end Report

/-- The report on a syntax error in a text that goes by a name. -/
def SyntaxError.report (e : SyntaxError) (name source : String) : String :=
  Report.text ⟨e.message, e.hint, e.token.span.start, e.token.span.stop⟩ name source

end Treewalk
