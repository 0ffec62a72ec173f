import Treewalk.Prompt.Bracket
import Treewalk.Report
import Treewalk.Session
import Treewalk.Text.Blank

/-! # Dialogues

A session in which inputs are typed in line by line.

* `take` adds a line to what is pending.  A complete input is answered, and an incomplete one waits for
  more lines.  An input with a closing bracket too many is reported and kept; it can no longer become
  complete.
* Blanks around an input are ignored, and the input `exit` ends the dialogue.
* `respond` reads and runs an input and shows its value, or the reports on its syntax errors.
* `transcript` is all that a dialogue writes when its lines are given beforehand. -/

namespace Treewalk.Prompt

/-- What is written: on the standard output and on the error output. -/
structure Written where
  out : String
  err : String

namespace Written

def empty : Written := ⟨"", ""⟩

def append (a b : Written) : Written :=
  ⟨a.out ++ b.out, a.err ++ b.err⟩

end Written

/-- A session, and the part of an input that has been typed so far. -/
structure Dialogue where
  session : Session Token
  pending : String

/-- The figure above the reports on syntax errors. -/
def face : String :=
  "            __,__\n" ++
  "   .--.  .-\"     \"-.  .--.\n" ++
  "  / .. \\/  .-. .-.  \\/ .. \\\n" ++
  " | |  '|  /   Y   \\  |'  | |\n" ++
  " | \\   \\  \\ 0 | 0 /  /   / |\n" ++
  "  \\ '- ,\\.-\"\"\"\"\"\"\"-./, -' /\n" ++
  "   ''-' /_   ^ ^   _\\ '-''\n" ++
  "       |  \\._   _./  |\n" ++
  "       \\   \\ '~' /   /\n" ++
  "        '._ '-=-' _.'\n" ++
  "           '-----'\n"

/-- The name under which an input goes in reports. -/
def inputName : String := "repl"

/-- The name by which a user is greeted: the first of two that is known. -/
def addressee (user username : Option String) : String :=
  (user <|> username).getD "there"

/-- What is written before the first input. -/
def greeting (name : String) : String :=
  "Hello " ++ name ++ "! This is the Monkey programming language!\n" ++
  "Feel free to type in commands. Type 'exit' or press Ctrl-D to quit.\n"

/-- What is written when the lines have come to their end. -/
def farewell : String := "\n"

/-- The reports on the syntax errors of an input. -/
def complaint (errors : List SyntaxError) (input : String) : String :=
  face ++ "Woops! We ran into some monkey business here!\n" ++ " parser errors:\n" ++
    String.join (errors.map fun e => e.report inputName input)

/-- What is written about the outcome of an input. -/
def answer (o : Outcome Token) : String :=
  o.printed ++
    match o.value with
    | some v => v.inspect ++ "\n"
    | none => ""

/-- Reads and runs an input. -/
def respond (s : Session Token) (input : String) : Option (Written × Session Token) := do
  let (step, s) ← s.feed input false
  match step.outcome with
  | some o => return (⟨answer o, ""⟩, s)
  | none => return (⟨"", complaint step.errors input⟩, s)

/-- A line without its line feed, and without a carriage return before that. -/
def dropLineEnd (line : List Char) : List Char :=
  match line.reverse with
  | '\n' :: '\r' :: rest => rest.reverse
  | '\n' :: rest => rest.reverse
  | _ => line

/-- Adds a line, with its line feed if it has one, to the pending input.  The dialogue goes on unless
the input is `exit`. -/
def Dialogue.take (d : Dialogue) (line : String) : Option (Written × Option Dialogue) :=
  let whole := d.pending ++ line
  let input := String.ofList (dropLineEnd whole.toList)
  match judge input with
  | .incomplete => some (.empty, some { d with pending := whole })
  | .valid =>
    let input := Text.trim input
    let d := { d with pending := "" }
    if input.isEmpty then some (.empty, some d)
    else if input = "exit" then some (.empty, none)
    else do
      let (written, session) ← respond d.session input
      return (written, some { d with session := session })
  | verdict => some (⟨"", verdict.message?.getD ""⟩, some { d with pending := input })

/-- What a dialogue writes from a list of lines on. -/
def Dialogue.continue (d : Dialogue) : List String → Option Written
  | [] => some ⟨farewell, ""⟩
  | line :: lines => do
    let (written, next) ← d.take line
    match next with
    | some d => return written.append (← d.continue lines)
    | none => return written

/-- The lines of a text, each with its line feed. -/
def inputLines : List Char → List (List Char)
  | [] => []
  | c :: cs =>
    if c = '\n' then [c] :: inputLines cs
    else
      match inputLines cs with
      | [] => [[c]]
      | l :: ls => (c :: l) :: ls

/-- All that a dialogue writes, given the text of all its lines. -/
def transcript (user username : Option String) (text : String) : Option Written := do
  let rest ← Dialogue.continue ⟨.start, ""⟩ ((inputLines text.toList).map String.ofList)
  return Written.append ⟨greeting (addressee user username), ""⟩ rest

end Treewalk.Prompt
