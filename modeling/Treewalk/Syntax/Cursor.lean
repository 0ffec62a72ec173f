import Treewalk.Syntax.Error

/-! # Reading tokens

The rules of the grammar read tokens from the left and note the faults they meet.

* A `Cursor` holds the tokens not yet read, the token that marks the end of the text, and the
  faults noted so far.
* `Reading α` is a step that moves a cursor and gives an `α`.  Steps are counted from outside;
  one that ran out of its count gives nothing at all (`stuck`).  That is not a fault of the text.
* A rule that finds no node gives `none` and goes on from where it stands; `onNode` leaves the
  rest of a rule out when a part of it gave no node. -/

namespace Treewalk

/-- A position in the tokens of a text. -/
structure Cursor where
  /-- The tokens not yet read. -/
  rest : List Token
  /-- The token at the end of the text. -/
  finish : Token
  /-- The faults noted so far, the latest first. -/
  errors : List SyntaxError

/-- A step that moves a cursor, unless its count runs out. -/
abbrev Reading (α : Type) := StateT Cursor Option α

namespace Reading

variable {α β : Type}

/-- The count of steps has run out. -/
def stuck : Reading α := fun _ => none

/-- The next token, left where it is. -/
def peek : Reading Token := fun c => some (c.rest.headD c.finish, c)

/-- The next token, taken.  The token at the end of the text can be taken any number of times. -/
def advance : Reading Token := fun c => some (c.rest.headD c.finish, { c with rest := c.rest.tail })

/-- Notes a fault. -/
def report (e : SyntaxError) : Reading Unit := fun c => some ((), { c with errors := e :: c.errors })

/-- Goes on with a node, if there is one. -/
def onNode (m : Reading (Option α)) (next : α → Reading (Option β)) : Reading (Option β) := do
  match ← m with
  | some a => next a
  | none => return none

/-- Takes the next token if it is of a kind, and says whether it was. -/
def accept (k : Token.Kind) : Reading Bool := do
  let t ← peek
  if t.kind = k then
    let _ ← advance
    return true
  else return false

/-- Takes the next token if it is of a kind, and notes a fault if it is not. -/
def expect (k : Token.Kind) : Reading (Option Token) := do
  let t ← peek
  if t.kind = k then
    let _ ← advance
    return some t
  else
    report (.unexpected k t)
    return none

/-- Takes a semicolon, if one is next. -/
def skipSemicolon : Reading Unit := do
  let _ ← accept .semicolon

end Reading

end Treewalk
