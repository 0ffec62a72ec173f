import Treewalk.Command
import Treewalk.Prompt.Dialogue

/-! # The program

Started under the name `repl` the program holds a dialogue on its standard input and output.  Under
any other name it runs a program file. -/

namespace Treewalk

/-- The contents of a file. -/
def readSource (path : String) : IO (Except Command.ReadError String) := do
  try
    let bytes ← IO.FS.readBinFile path
    match String.fromUTF8? bytes with
    | some text => return .ok text
    | none => return .error .notText
  catch
    | .noFileOrDirectory .. => return .error .notFound
    | .inappropriateType _ code _ => return .error (if code = 20 then .notDirectory else .directory)
    | e => return .error (.other (toString e))

/-- Runs a program file. -/
def runFile (arguments : List String) : IO UInt32 := do
  let request := Command.Request.ofArguments arguments
  let contents ←
    match request with
    | .run path _ => readSource path
    | _ => pure (.error .notFound)
  match Command.execute (fun _ => contents) request with
  | some result =>
    IO.print result.out
    IO.eprint result.err
    return UInt32.ofNat result.code
  | none => return 134

/-- Answers the lines of the standard input until they end or the dialogue does. -/
partial def converse (input : IO.FS.Stream) (d : Prompt.Dialogue) : IO UInt32 := do
  let line ← input.getLine
  if line.isEmpty then
    IO.print Prompt.farewell
    return 0
  match d.take line with
  | some (written, next) =>
    IO.print written.out
    IO.eprint written.err
    match next with
    | some d => converse input d
    | none => return 0
  | none => return 134

/-- Holds a dialogue. -/
def runDialogue : IO UInt32 := do
  let name := Prompt.addressee (← IO.getEnv "USER") (← IO.getEnv "USERNAME")
  IO.print (Prompt.greeting name)
  converse (← IO.getStdin) ⟨.start, ""⟩

end Treewalk

def main (arguments : List String) : IO UInt32 := do
  let program ← IO.appPath
  if program.fileStem = some "repl" then Treewalk.runDialogue else Treewalk.runFile arguments
