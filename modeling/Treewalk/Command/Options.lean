import Treewalk.Text.Likeness

/-! # Command-line arguments

The program file to run and the options.

* Options may stand before and after the file.  After `--` every argument is a file, and so is a
  single `-`.  Short options can be run together behind one `-`.
* `Request.ofArguments` says what is asked for.  The first argument that makes no sense decides the
  error, and help and version are given as soon as they are asked for.
* The name of a file is looked at (`settle`) only when a valid option follows or all arguments have been
  read, so another fault may come first. -/

namespace Treewalk.Command

/-- What can be wrong with the arguments.  `usage` holds the parts of the usage line that is shown. -/
inductive UsageError
  /-- There is no such option.  One that looks like it may be meant. -/
  | unknownLong (name : String) (meant : Option String) (usage : List String)
  | unknownShort (name : String)
  /-- There is a file already. -/
  | extraFile (name : String)
  /-- The option stands there a second time. -/
  | repeated (option : String)
  /-- The option takes no value. -/
  | unwantedValue (value option : String) (usage : List String)
  /-- The name of the file is empty. -/
  | emptyFile
  | missingFile (usage : List String)
deriving DecidableEq, Repr

/-- What is asked for. -/
inductive Request
  | help
  | version
  | run (file : String) (quiet : Bool)
  | refuse (error : UsageError)
deriving DecidableEq, Repr

/-- The names of the options. -/
def optionNames : List String :=
  ["quiet", "help", "version"]

/-- An option as it is written. -/
def spelled (name : String) : String :=
  "--" ++ name

/-- How the file is shown in a usage line. -/
def filePart : String := "<FILE>"

/-- The parts of the general usage line. -/
def generalUsage : List String :=
  ["[OPTIONS]", filePart]

/-- The option that is meant by an unknown name: the one most like it, if they are alike enough.  Of two
that are equally like it, it is the later one. -/
def meantOption? (name : String) : Option String :=
  let likeness := fun option => Text.likeness name.toList option.toList
  optionNames.foldl (fun best option =>
    if likeness option > 0.7 && best.all (fun b => likeness option ≥ likeness b) then some option
    else best) none

/-- What has been read of the arguments. -/
structure Options where
  file : Option String
  quiet : Bool

namespace Options

/-- The options given, as they are written. -/
def given (o : Options) : List String :=
  if o.quiet then [spelled "quiet"] else []

/-- The usage line for an unknown option: what is given, together with the option that is meant. -/
def usageFor (o : Options) (meant : Option String) : List String :=
  if o.file.isNone && !o.quiet && meant.isNone then generalUsage
  else (o.given ++ (meant.map spelled).toList).eraseDups ++ [filePart]

/-- The usage line for an option with an unwanted value.  Once the option `quiet` is there it is shown
as an alternative to the file. -/
def usageAlone (o : Options) (option : String) : List String :=
  if o.quiet then [spelled option].filter (· ≠ spelled "quiet") ++ ["<FILE|--quiet>"]
  else [spelled option, filePart]

/-- The same options, unless the name of the file is empty. -/
def settle (o : Options) : Except Request Options :=
  if o.file = some "" then .error (.refuse .emptyFile) else .ok o

/-- The request, once all arguments have been read. -/
def request (o : Options) : Request :=
  match o.file with
  | some file => .run file o.quiet
  | none => .refuse (.missingFile (o.given ++ [filePart]))

/-- Takes in the name of a file. -/
def addFile (o : Options) (name : String) : Except Request Options :=
  if o.file.isSome then .error (.refuse (.extraFile name)) else .ok { o with file := some name }

/-- Takes in an option by its name. -/
def addOption (o : Options) (name : String) : Except Request Options := do
  let o ← o.settle
  if name = "help" then .error .help
  else if name = "version" then .error .version
  else if o.quiet then .error (.refuse (.repeated (spelled name)))
  else .ok { o with quiet := true }

/-- Takes in an option spelled out, without its dashes. -/
def addLong (o : Options) (text : String) : Except Request Options :=
  let name := String.ofList (text.toList.takeWhile (· ≠ '='))
  let value := String.ofList (text.toList.dropWhile (· ≠ '=')).tail
  if name ∈ optionNames then
    if name.length < text.length then
      .error (.refuse (.unwantedValue value (spelled name) (o.usageAlone name)))
    else o.addOption name
  else
    let meant := meantOption? name
    .error (.refuse (.unknownLong (spelled name) (meant.map spelled) (o.usageFor meant)))

/-- The option that a letter stands for. -/
def ofLetter? : Char → Option String
  | 'q' => some "quiet"
  | 'h' => some "help"
  | 'V' => some "version"
  | _ => none

/-- Takes in options of one letter each. -/
def addShort (o : Options) : List Char → Except Request Options
  | [] => .ok o
  | c :: cs =>
    match ofLetter? c with
    | some name => do
      let o ← o.addOption name
      addShort o cs
    | none => .error (.refuse (.unknownShort ("-" ++ c.toString)))

/-- Takes in all arguments after `--`. -/
def addFiles (o : Options) : List String → Except Request Options
  | [] => .ok o
  | name :: rest => do
    let o ← o.addFile name
    addFiles o rest

/-- Takes in arguments. -/
def add (o : Options) : List String → Except Request Options
  | [] => .ok o
  | argument :: rest =>
    match argument.toList with
    | ['-', '-'] => o.addFiles rest
    | '-' :: '-' :: text => do
      let o ← o.addLong (String.ofList text)
      add o rest
    | '-' :: c :: cs => do
      let o ← o.addShort (c :: cs)
      add o rest
    | _ => do
      let o ← o.addFile argument
      add o rest

end Options

/-- What the arguments ask for. -/
def Request.ofArguments (arguments : List String) : Request :=
  match (Options.add ⟨none, false⟩ arguments).bind Options.settle with
  | .ok o => o.request
  | .error r => r

/-- The usage line with the given parts. -/
def usageLine (parts : List String) : String :=
  "Usage: monkey " ++ " ".intercalate parts

namespace UsageError

/-- What the error is. -/
def headline : UsageError → String
  | unknownLong name _ _ | unknownShort name | extraFile name =>
    "unexpected argument '" ++ name ++ "' found"
  | repeated option => "the argument '" ++ option ++ "' cannot be used multiple times"
  | unwantedValue value option _ =>
    "unexpected value '" ++ value ++ "' for '" ++ option ++ "' found; no more were expected"
  | emptyFile => "a value is required for '<FILE>' but none was supplied"
  | missingFile _ => "the following required arguments were not provided:\n  <FILE>"

/-- How to give a text that looks like an option as the name of a file. -/
def escapeTip (name : String) : String :=
  "  tip: to pass '" ++ name ++ "' as a value, use '-- " ++ name ++ "'"

/-- What is said after the headline, each piece after an empty line. -/
def advice : UsageError → List String
  | unknownLong _ (some meant) usage =>
    ["  tip: a similar argument exists: '" ++ meant ++ "'", usageLine usage]
  | unknownLong name none usage => [escapeTip name, usageLine usage]
  | unknownShort name => [escapeTip name, usageLine generalUsage]
  | extraFile _ | repeated _ => [usageLine generalUsage]
  | unwantedValue _ _ usage | missingFile usage => [usageLine usage]
  | emptyFile => []

/-- The message on an error. -/
def message (e : UsageError) : String :=
  "error: " ++
    "\n\n".intercalate (e.headline :: e.advice ++ ["For more information, try '--help'."]) ++ "\n"

end UsageError

/-- The help text. -/
def helpText : String :=
  "Runs a Monkey program\n\n" ++
  "Usage: monkey [OPTIONS] <FILE>\n\n" ++
  "Arguments:\n" ++
  "  <FILE>  Source file to run\n\n" ++
  "Options:\n" ++
  "  -q, --quiet    Don't print the value of the last expression\n" ++
  "  -h, --help     Print help\n" ++
  "  -V, --version  Print version\n"

/-- The version. -/
def versionText : String := "monkey 0.1.0\n"

end Treewalk.Command
