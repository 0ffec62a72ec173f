/-! # Brackets of an input

Whether an input is complete, judged by its brackets and quotes alone.

* Brackets are matched with a stack.  Those between quotes do not count.
* An input is **invalid** when a closing bracket does not match the last open one, **incomplete** when
  a bracket or a quote is left open, and else **valid**. -/

namespace Treewalk.Prompt

/-- Whether a character opens a bracket. -/
def isOpening (c : Char) : Bool :=
  c == '(' || c == '[' || c == '{'

/-- Whether a character closes a bracket. -/
def isClosing (c : Char) : Bool :=
  c == ')' || c == ']' || c == '}'

/-- Whether the second character closes what the first one opens. -/
def closes (opening closing : Char) : Bool :=
  (opening, closing) ∈ [('(', ')'), ('[', ']'), ('{', '}')]

/-- What there is to say about an input. -/
inductive Verdict
  | valid
  | incomplete
  /-- The closing bracket at a position, counted in characters, has no match. -/
  | invalid (bracket : Char) (position : Nat)
deriving DecidableEq, Repr

/-- What is written about an invalid input. -/
def Verdict.message? : Verdict → Option String
  | invalid c i => some ("  - Unmatched '" ++ c.toString ++ "' at position " ++ toString i)
  | _ => none

/-- Where a scan of brackets stands: the open brackets, the last one first, and whether a quote is
open. -/
structure Open where
  brackets : List Char
  quoted : Bool

/-- The verdict on the rest of an input, whose first character has the position `i`. -/
def Open.judge (o : Open) (i : Nat) : List Char → Verdict
  | [] => if o.quoted || !o.brackets.isEmpty then .incomplete else .valid
  | c :: cs =>
    if o.quoted then Open.judge { o with quoted := c != '"' } (i + 1) cs
    else if c = '"' then Open.judge { o with quoted := true } (i + 1) cs
    else if isOpening c then Open.judge { o with brackets := c :: o.brackets } (i + 1) cs
    else if isClosing c then
      match o.brackets with
      | b :: bs => if closes b c then Open.judge { o with brackets := bs } (i + 1) cs else .invalid c i
      | [] => .invalid c i
    else Open.judge o (i + 1) cs

/-- The verdict on an input. -/
def judge (input : String) : Verdict :=
  Open.judge ⟨[], false⟩ 0 input.toList

end Treewalk.Prompt
