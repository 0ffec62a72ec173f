import Treewalk.Prompt.Bracket
import Treewalk.Text.Offset

/-! # Colours of an input line

Strings are coloured, and so are the bracket pair at the cursor and the brackets that do not match.

* `Draft.write?` goes over a line once and writes it out with terminal escape sequences.  An opening
  bracket is first left plain.  When its closing bracket is met, the byte of what has been written at
  which the opening one stands is written over (`Draft.repaint?`).
* A closing bracket takes the last open bracket off the stack whether the two match or not.
* Writing over gives nothing if it would cut a character. -/

namespace Treewalk.Prompt

open Text

/-- The colours of a line. -/
inductive Paint
  | plain
  /-- Part of a string. -/
  | string
  /-- A bracket of the pair at the cursor. -/
  | paired
  /-- A closing bracket that does not match. -/
  | unmatched
  /-- An opening bracket whose closing bracket does not match. -/
  | mismatched
deriving DecidableEq, Repr

/-- The escape sequence that turns a colour on. -/
def Paint.code? : Paint → Option String
  | plain => none
  | string => some "\x1b[32m"
  | paired => some "\x1b[1;34m"
  | unmatched => some "\x1b[31m"
  | mismatched => some "\x1b[1;31m"

/-- The escape sequence that turns colours off. -/
def resetCode : String := "\x1b[0m"

/-- A character with its colour. -/
structure Cell where
  char : Char
  paint : Paint
deriving DecidableEq, Repr

/-- A cell with its escape sequences. -/
def Cell.text (c : Cell) : List Char :=
  match c.paint.code? with
  | some code => code.toList ++ c.char :: resetCode.toList
  | none => [c.char]

/-- Whether the cursor is at a byte or just behind it. -/
def atCursor (cursor byte : Nat) : Bool :=
  byte == cursor || byte + 1 == cursor

/-- An open bracket: the byte at which it stands in the line, and the byte at which it stands in what
has been written. -/
structure OpenBracket where
  char : Char
  byte : Nat
  offset : Nat

/-- Where writing stands: the text so far, the open brackets, the last one first, and whether a
string is open. -/
structure Draft where
  text : List Char
  stack : List OpenBracket
  quoted : Bool

namespace Draft

/-- Writes a character in a colour. -/
def put (v : Draft) (c : Char) (p : Paint) : Draft :=
  { v with text := v.text ++ Cell.text ⟨c, p⟩ }

/-- Writes over a bracket that was left plain. -/
def repaint? (v : Draft) (b : OpenBracket) (p : Paint) : Option Draft :=
  (replaceBytes? b.offset (b.offset + b.char.utf8Size) (Cell.text ⟨b.char, p⟩) v.text).map
    fun text => { v with text }

/-- Takes in a closing bracket. -/
def close? (v : Draft) (cursor byte : Nat) (c : Char) : Option Draft :=
  match v.stack with
  | [] => some (v.put c .unmatched)
  | b :: bs =>
    let v := { v with stack := bs }
    if closes b.char c then
      if atCursor cursor byte || atCursor cursor b.byte then
        (v.put c .paired).repaint? b .paired
      else some (v.put c .plain)
    else (v.put c .unmatched).repaint? b .mismatched

/-- Takes in the character at a byte of the line. -/
def step? (v : Draft) (cursor byte : Nat) (c : Char) : Option Draft :=
  if v.quoted then some ({ v with quoted := c != '"' }.put c .string)
  else if c = '"' then some ({ v with quoted := true }.put c .string)
  else if isOpening c then
    some ({ v with stack := ⟨c, byte, byteLength v.text⟩ :: v.stack }.put c .plain)
  else if isClosing c then v.close? cursor byte c
  else some (v.put c .plain)

/-- Takes in the characters from a byte of the line on. -/
def write? (cursor : Nat) (v : Draft) (byte : Nat) : List Char → Option Draft
  | [] => some v
  | c :: cs => (v.step? cursor byte c).bind fun v => write? cursor v (byte + c.utf8Size) cs

end Draft

/-- A line with its escape sequences, with the cursor at a byte. -/
def highlight? (line : String) (cursor : Nat) : Option String :=
  (Draft.write? cursor ⟨[], [], false⟩ 0 line.toList).map fun v => String.ofList v.text

/-- What is shown for a line. -/
def highlight (line : String) (cursor : Nat) : String :=
  (highlight? line cursor).getD ""

end Treewalk.Prompt
