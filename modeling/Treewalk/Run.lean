import Treewalk.Store
import Treewalk.Value.Operate

/-! # Steps of a run

A step of a run changes the store and gives a result.  The number of steps that may be nested is
counted from outside; a run that exceeds it gives nothing at all (`exhausted`), which is neither a
value nor a fault.

* Every change that can be seen from outside is noted as an `Event`: `raise` notes a fault,
  `define` a binding.
* `onValue` hands a control value straight back and goes on with any other. -/

namespace Treewalk

/-- A step that changes the store, unless its count runs out. -/
abbrev Run (μ α : Type) := StateT (Store μ) Option α

namespace Run

variable {μ α : Type}

/-- The count of steps has run out. -/
def exhausted : Run μ α := fun _ => none

/-- Notes an event. -/
def note (e : Event μ) : Run μ Unit := fun s => some ((), { s with events := e :: s.events })

/-- An identity that no value has yet. -/
def newIdentity : Run μ Nat := fun s =>
  some (s.nextIdentity, { s with nextIdentity := s.nextIdentity + 1 })

/-- The value of a name in a frame. -/
def lookup (frame : Nat) (name : String) : Run μ (Option (Value μ)) := fun s =>
  some (s.lookup frame name, s)

/-- Makes a frame inside another one. -/
def enter (outer : Nat) : Run μ Nat := fun s => some (s.newFrame (some outer))

/-- Binds a name in a frame. -/
def define (frame : Nat) (name : String) (v : Value μ) : Run μ Unit := do
  note (.bound frame name v)
  modify fun s => s.define frame name v

/-- Binds names in a frame, one after the other. -/
def defineAll (frame : Nat) : List (String × Value μ) → Run μ Unit
  | [] => return
  | (name, v) :: rest => do
    define frame name v
    defineAll frame rest

/-- A fault, which is noted. -/
def raise (e : Fault) : Run μ (Value μ) := do
  note (.failed e)
  return .error e

/-- A value, or a fault, which is noted. -/
def ofExcept : Except Fault (Value μ) → Run μ (Value μ)
  | .ok v => return v
  | .error e => raise e

/-- Goes on with a value, but hands a control value straight back. -/
def onValue (m : Run μ (Value μ)) (next : Value μ → Run μ (Value μ)) : Run μ (Value μ) := do
  let v ← m
  if v.isControl then return v else next v

end Run

end Treewalk
