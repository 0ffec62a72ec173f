import Treewalk.Command.Options
import Treewalk.Report
import Treewalk.Session

/-! # Running a program file

* `execute` reads the program file through a function that it is given, runs the program in a session
  of its own and shows the value of its last expression.
* A file that cannot be read, syntax errors and a fault make the run fail.  They are told on the
  error output. -/

namespace Treewalk.Command

/-- Why a file cannot be read. -/
inductive ReadError
  | notFound
  | directory
  /-- A part of the path before its end is not a directory. -/
  | notDirectory
  | notText
  /-- Any other reason, in the words of the operating system. -/
  | other (reason : String)
deriving DecidableEq, Repr

def ReadError.message : ReadError → String
  | notFound => "No such file or directory (os error 2)"
  | directory => "Is a directory (os error 21)"
  | notDirectory => "Not a directory (os error 20)"
  | notText => "stream did not contain valid UTF-8"
  | other reason => reason

/-- What a command writes on its outputs, and the code with which it ends. -/
structure Result where
  out : String
  err : String
  code : Nat

variable {μ : Type} [Mark μ]

/-- What is shown of the value of a program. -/
def shownValue (quiet : Bool) : Option (Value μ) → String
  | some .null => ""
  | some v => if quiet then "" else v.inspect ++ "\n"
  | none => ""

/-- The result of a program that ran. -/
def finish (quiet : Bool) (o : Outcome μ) : Result :=
  match o.value with
  | some (.error e) => ⟨o.printed, (Value.error e : Value μ).inspect ++ "\n", 1⟩
  | value => ⟨o.printed ++ shownValue quiet value, "", 0⟩

/-- Runs the text of a program that goes by a name. -/
def runText (name source : String) (quiet : Bool) : Option Result := do
  let (step, _) ← Session.start.feed source false
  match step.outcome with
  | some o => return finish quiet o
  | none => return ⟨"", String.join (step.errors.map fun e => e.report name source), 1⟩

/-- Does what is asked for, given the contents of files. -/
def execute (read : String → Except ReadError String) : Request → Option Result
  | .help => some ⟨helpText, "", 0⟩
  | .version => some ⟨versionText, "", 0⟩
  | .refuse e => some ⟨"", e.message, 2⟩
  | .run file quiet =>
    match read file with
    | .error e => some ⟨"", "monkey: " ++ file ++ ": " ++ e.message ++ "\n", 1⟩
    | .ok source => runText file source quiet

end Treewalk.Command
