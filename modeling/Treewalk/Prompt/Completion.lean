import Treewalk.Store
import Treewalk.Text.Offset
import Treewalk.Token.Scan

/-! # Completing a name

What can follow the name before the cursor.

* `candidates` are the names that have a value in a frame, the functions of the language itself and
  the keywords.
* `completions` are the rests of the candidates that begin with the name, in the order of their code
  points.  There are none unless the text up to the cursor ends in a name.  `complete` also says
  where they are put in. -/

namespace Treewalk.Prompt

/-- Texts in the order of their code points. -/
def sorted (ss : List String) : List String :=
  ss.mergeSort fun a b => decide (a ≤ b)

/-- What a name can be completed to. -/
def candidates {μ : Type} (s : Store μ) (frame : Nat) : List String :=
  (s.names frame ++ Builtin.all.map Builtin.name ++ Token.Kind.keywords.map Prod.fst).eraseDups

/-- What is left of a text after a start of it. -/
def afterStart? : List Char → List Char → Option (List Char)
  | [], cs => some cs
  | p :: ps, c :: cs => if p = c then afterStart? ps cs else none
  | _ :: _, [] => none

/-- The name in which a text ends. -/
def lastName? (line : String) : Option String :=
  match (tokens line).getLast? with
  | some t => if t.kind = .ident ∧ t.span.stop = line.utf8ByteSize then some t.literal else none
  | none => none

/-- What a candidate adds to the name `start`, if it begins with it and is longer. -/
def completion? (start candidate : String) : Option String :=
  match afterStart? start.toList candidate.toList with
  | some (c :: cs) => some (String.ofList (c :: cs))
  | _ => none

/-- What can be put in at the byte `position` of a line. -/
def completions {μ : Type} (s : Store μ) (frame : Nat) (line : String) (position : Nat) :
    List String :=
  match lastName? (String.ofList (Text.takeBytes position line.toList)) with
  | some name => sorted ((candidates s frame).filterMap (completion? name))
  | none => []

/-- The byte at which completions are put in, which is where they are asked for, and the
completions. -/
def complete {μ : Type} (s : Store μ) (frame : Nat) (line : String) (position : Nat) :
    Nat × List String :=
  (position, completions s frame line position)

end Treewalk.Prompt
