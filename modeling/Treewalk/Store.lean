import Treewalk.Value

/-! # The store

Names are bound in frames.  A frame may lie inside an outer one, and a name that it does not bind is
looked for there.

* A `Store` holds every frame made so far, numbered from `0`; the next identity to be given to a
  function, an array or a table; and the events of the run.
* A frame keeps the history of its bindings.  The latest binding of a name is the one that counts.
* `path` lists the frames that are searched from a frame outwards.  An outer frame was made before
  the frames inside it, so it has a smaller number and the path ends.
* `lookup` and `names` are the two questions about a path. -/

namespace Treewalk

/-- What happens in a run, as far as it can be seen from outside. -/
inductive Event (μ : Type)
  /-- A line was printed. -/
  | printed (line : String)
  /-- A name was bound in a frame. -/
  | bound (frame : Nat) (name : String) (value : Value μ)
  /-- A function was called with as many arguments as it has parameters. -/
  | called (function : Value μ) (count : Nat)
  /-- A function of the language itself was called. -/
  | calledBuiltin (which : Builtin)
  /-- A fault was met. -/
  | failed (fault : Fault)

/-- A frame: the number of the frame it lies in, if any, and its bindings, the latest first. -/
structure Frame (μ : Type) where
  outer : Option Nat
  bindings : List (String × Value μ)

/-- The frames, the next identity, and the events so far, the latest first. -/
structure Store (μ : Type) where
  frames : Array (Frame μ)
  nextIdentity : Nat
  events : List (Event μ)

namespace Store

variable {μ : Type}

/-- The store before anything has happened. -/
def empty : Store μ :=
  ⟨#[], 0, []⟩

/-- What a frame itself binds a name to. -/
def local? (s : Store μ) (frame : Nat) (name : String) : Option (Value μ) :=
  match s.frames[frame]? with
  | some f => f.bindings.lookup name
  | none => none

/-- The number of the frame in which a frame lies. -/
def outer? (s : Store μ) (frame : Nat) : Option Nat :=
  match s.frames[frame]? with
  | some f => f.outer
  | none => none

/-- The frames that are searched from a frame outwards. -/
def path (s : Store μ) (frame : Nat) : List Nat :=
  match s.outer? frame with
  | some outer => if outer < frame then frame :: path s outer else [frame]
  | none => [frame]
termination_by frame

/-- The value of a name in a frame: that of the nearest frame on the path that binds it. -/
def lookup (s : Store μ) (frame : Nat) (name : String) : Option (Value μ) :=
  (s.path frame).findSome? fun i => s.local? i name

/-- The names that a frame itself binds. -/
def localNames (s : Store μ) (frame : Nat) : List String :=
  match s.frames[frame]? with
  | some f => (f.bindings.map Prod.fst).eraseDups
  | none => []

/-- The names that have a value in a frame, in the order of their code points. -/
def names (s : Store μ) (frame : Nat) : List String :=
  ((s.path frame).flatMap s.localNames).eraseDups.mergeSort fun a b => decide (a ≤ b)

/-- Makes a frame inside another one, or one that lies in none. -/
def newFrame (s : Store μ) (outer : Option Nat) : Nat × Store μ :=
  (s.frames.size, { s with frames := s.frames.push ⟨outer, []⟩ })

/-- Binds a name in a frame. -/
def define (s : Store μ) (frame : Nat) (name : String) (v : Value μ) : Store μ :=
  { s with frames := s.frames.modify frame fun f => { f with bindings := (name, v) :: f.bindings } }

end Store

end Treewalk
