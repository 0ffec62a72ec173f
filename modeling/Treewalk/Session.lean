import Treewalk.Run.Eval
import Treewalk.Syntax.Read
import Treewalk.Text.Quoted

/-! # Sessions

Programs that are run one after the other in one frame.

* `Session.run` runs a program and gives its `Outcome`: its value, the fault that stopped it, and
  what happened meanwhile.
* `Session.feed` reads and runs a text, unless it has syntax errors.
* The remarks on a run (`SyntaxError.remark`, `Outcome.remarks`) tell of its errors and calls.

The count of nested steps is set so high (`depth`) that a run uses up the memory of any machine
first. -/

namespace Treewalk

/-- The store of a session, and the frame in which its programs are run. -/
structure Session (μ : Type) where
  store : Store μ
  frame : Nat

/-- What running a program led to. -/
structure Outcome (μ : Type) where
  /-- The value of the program, if it has one. -/
  value : Option (Value μ)
  /-- The fault that stopped the program. -/
  stopped : Option Fault
  /-- What happened, in order. -/
  events : List (Event μ)

variable {μ : Type}

namespace Event

/-- The line that was printed. -/
def line? : Event μ → Option String
  | printed l => some l
  | _ => none

variable [Mark μ]

/-- What there is to remark on an event. -/
def remark? : Event μ → Option String
  | called f n => some ("calling " ++ f.inspect ++ " with " ++ toString n ++ " argument(s)")
  | calledBuiltin b => some ("calling builtin `" ++ b.name ++ "`")
  | _ => none

end Event

/-- What there is to remark on a syntax error. -/
def SyntaxError.remark (e : SyntaxError) : String :=
  "parse error at " ++ e.token.span.text ++ ": " ++ e.message

/-- The printed text of a run. -/
def printedText (events : List (Event μ)) : String :=
  String.join ((events.filterMap Event.line?).map (· ++ "\n"))

namespace Outcome

/-- The printed text of a run. -/
def printed (o : Outcome μ) : String :=
  printedText o.events

/-- What there is to remark on a run, in order. -/
def remarks [Mark μ] (o : Outcome μ) : List String :=
  o.events.filterMap Event.remark? ++
    o.stopped.toList.map fun e => "evaluation stopped: " ++ e.message

end Outcome

/-- The fault that stopped a run whose statements ended with a result. -/
def stoppedBy : Option (Value μ) → Option Fault
  | some (.error e) => some e
  | _ => none

namespace Session

/-- How deep steps may be nested. -/
def depth : Nat := 1 <<< 60

/-- A session in which nothing has happened. -/
def start : Session μ :=
  let (frame, store) := Store.empty.newFrame none
  ⟨store, frame⟩

/-- Runs a program. -/
def run [Mark μ] (s : Session μ) (p : Program μ) : Option (Outcome μ × Session μ) := do
  let (result, store) ← Run.evalProgram depth p s.frame { s.store with events := [] }
  return ({ value := Run.settle result, stopped := stoppedBy result, events := store.events.reverse },
    { s with store := store })

/-- What came of a text: its syntax errors, and the outcome if it was run. -/
structure Step (μ : Type) where
  errors : List SyntaxError
  outcome : Option (Outcome μ)

/-- Reads a text and runs it.  A text with syntax errors is run only on demand. -/
def feed (s : Session Token) (source : String) (anyway : Bool) :
    Option (Step Token × Session Token) := do
  let parsed := parse source
  if parsed.errors.isEmpty || anyway then
    let (outcome, s) ← s.run parsed.program
    return (⟨parsed.errors, some outcome⟩, s)
  else return (⟨parsed.errors, none⟩, s)

/-- All that reading a text can do to a session: nothing, or run its program. -/
theorem feed_cases {s s' : Session Token} {source : String} {anyway : Bool} {step : Step Token}
    (h : s.feed source anyway = some (step, s')) :
    step.errors = (parse source).errors ∧
      (s' = s ∨ ∃ result, Run.evalProgram depth (parse source).program s.frame
        { s.store with events := [] } = some (result, s'.store)) := by
  unfold feed at h
  simp only at h
  split at h
  · obtain ⟨⟨outcome, t⟩, hrun, hstep⟩ := Option.bind_eq_some_iff.1 h
    obtain ⟨rfl, rfl⟩ := Prod.mk.inj (Option.some.inj hstep)
    obtain ⟨⟨result, store⟩, heval, hsession⟩ := Option.bind_eq_some_iff.1 hrun
    obtain ⟨-, rfl⟩ := Prod.mk.inj (Option.some.inj hsession)
    exact ⟨rfl, .inr ⟨result, heval⟩⟩
  · obtain ⟨rfl, rfl⟩ := Prod.mk.inj (Option.some.inj h)
    exact ⟨rfl, .inl rfl⟩

end Session

/-- A frame as it is shown to a developer: the names that it binds itself, and whether it lies in
another one. -/
def Store.describeFrame (s : Store μ) (frame : Nat) : String :=
  let names := (s.localNames frame).mergeSort fun a b => decide (a ≤ b)
  "Environment \x7b bindings: [" ++ commaSeparated (names.map Text.visiblyQuoted) ++ "], has_outer: " ++
    (if (s.outer? frame).isSome then "true" else "false") ++ " \x7d"

end Treewalk
