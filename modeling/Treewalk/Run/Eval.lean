import Treewalk.Run.Builtin

/-! # Running a program

* `evalNode` says what an expression gives, once it is known what its parts give.  It takes the
  evaluator for the parts as an argument; so do the functions for lists, statements and calls.
* `eval n` allows expressions and calls to be nested `n` deep.  A run that ends within `n` ends in
  the same way within any larger number.
* `evalBody` runs statements in order and stops at the first control value.
* A call runs the body of a function in a new frame inside the one in which the function was made.
  A `return` stops there (`leave`).
* `evaluate` runs a program in a frame.  It gives no value if the program is empty or ends in a
  binding. -/

namespace Treewalk

/-- What an expression gives in a frame. -/
abbrev Evaluator (μ : Type) := Expr μ → Nat → Run μ (Value μ)

namespace Run

variable {μ : Type}

/-- The values of expressions from left to right, or the first control value among them. -/
def evalAll (ev : Evaluator μ) (frame : Nat) :
    List (Expr μ) → Run μ (Except (Value μ) (List (Value μ)))
  | [] => return .ok []
  | e :: es => do
    let v ← ev e frame
    if v.isControl then return .error v
    else
      match ← evalAll ev frame es with
      | .ok vs => return .ok (v :: vs)
      | .error c => return .error c

/-- The entries of a table after those already there, or the first control value. -/
def evalEntries (ev : Evaluator μ) (frame : Nat) (done : Table Key (Value μ × Value μ)) :
    List (Expr μ × Expr μ) → Run μ (Except (Value μ) (Table Key (Value μ × Value μ)))
  | [] => return .ok done
  | (k, e) :: rest => do
    let key ← ev k frame
    if key.isControl then return .error key
    else
      match key.key? with
      | none => return .error (← raise (.unusableKey key.tag))
      | some h => do
        let v ← ev e frame
        if v.isControl then return .error v
        else evalEntries ev frame (done.insert h (key, v)) rest

/-- Runs a statement.  A binding gives no value, unless its right-hand side is a control value. -/
def evalStmt (ev : Evaluator μ) (frame : Nat) : Stmt μ → Run μ (Option (Value μ))
  | .expr _ e => do
    return some (← ev e frame)
  | .ret _ none => return some (.returned .null)
  | .ret _ (some e) => do
    let v ← ev e frame
    return some (if v.isControl then v else .returned v)
  | .bind _ target e => do
    let v ← ev e frame
    if v.isControl then return some v
    else
      define frame target.name v
      return none

/-- Runs statements up to the first control value.  The result is that of the last statement run, and
`last` if there is none. -/
def evalBody (ev : Evaluator μ) (frame : Nat) (last : Option (Value μ)) :
    List (Stmt μ) → Run μ (Option (Value μ))
  | [] => return last
  | s :: ss => do
    let r ← evalStmt ev frame s
    if r.any Value.isControl then return r
    else evalBody ev frame r ss

/-- The value of a call whose body ended with a result: a `return` goes no further, and a body
without a value gives `null`. -/
def leave : Option (Value μ) → Value μ
  | some (.returned v) => v
  | some v => v
  | none => .null

section

variable [Mark μ]

/-- Calls a value with arguments. -/
def apply (ev : Evaluator μ) (callee : Value μ) (args : List (Value μ)) : Run μ (Value μ) :=
  match callee with
  | .function _ params body outer =>
    if args.length = params.length then do
      note (.called callee args.length)
      let frame ← enter outer
      defineAll frame ((params.map Ident.name).zip args)
      return leave (← evalBody ev frame none body.body)
    else raise (.argumentCount args.length params.length)
  | .builtin _ b => do
    note (.calledBuiltin b)
    b.run args
  | v => raise (.notCallable v.tag)

/-- The value of a name: its binding, else the function of the language itself with that name. -/
def evalName (frame : Nat) (name : String) : Run μ (Value μ) := do
  match ← lookup frame name with
  | some v => return v
  | none =>
    match Builtin.ofName? name with
    | some b => return .builtin (← newIdentity) b
    | none => raise (.unbound name)

/-- The value of a block that stands as a branch. -/
def evalBranch (ev : Evaluator μ) (frame : Nat) (b : Block μ) : Run μ (Value μ) := do
  return (← evalBody ev frame none b.body).getD .null

/-- What an expression gives, if `ev` tells what its parts give. -/
def evalNode (ev : Evaluator μ) : Evaluator μ
  | .name i, frame => evalName frame i.name
  | .int _ v, _ => return .int v
  | .string _ s, _ => return .string s
  | .bool _ b, _ => return .bool b
  | .unary _ op e, frame => onValue (ev e frame) fun v => ofExcept (op.apply v)
  | .binary _ l op r, frame =>
    onValue (ev l frame) fun a => onValue (ev r frame) fun b => ofExcept (op.apply a b)
  | .cond _ t y n, frame => onValue (ev t frame) fun v =>
    if v.isTruthy then evalBranch ev frame y
    else
      match n with
      | some n => evalBranch ev frame n
      | none => return .null
  | .func _ ps body, frame => do
    return .function (← newIdentity) ps body frame
  | .call _ c as, frame => onValue (ev c frame) fun callee => do
    match ← evalAll ev frame as with
    | .ok args => apply ev callee args
    | .error control => return control
  | .array _ es, frame => do
    match ← evalAll ev frame es with
    | .ok items => return .array (← newIdentity) items
    | .error control => return control
  | .index _ t k, frame =>
    onValue (ev t frame) fun target => onValue (ev k frame) fun key => ofExcept (target.index key)
  | .table _ es, frame => do
    match ← evalEntries ev frame [] es with
    | .ok entries => return .table (← newIdentity) entries
    | .error control => return control

/-- What an expression gives when at most `n` of its parts and calls are nested. -/
def eval : Nat → Evaluator μ
  | 0 => fun _ _ => exhausted
  | n + 1 => evalNode (eval n)

/-- Runs the statements of a program in a frame. -/
def evalProgram (n : Nat) (p : Program μ) (frame : Nat) : Run μ (Option (Value μ)) :=
  evalBody (eval n) frame none p

/-- The result of a program whose statements ended with a result: a `return` gives its value. -/
def settle : Option (Value μ) → Option (Value μ)
  | some (.returned v) => some v
  | r => r

/-- Runs a program in a frame. -/
def evaluate (n : Nat) (p : Program μ) (frame : Nat) : Run μ (Option (Value μ)) := do
  return settle (← evalProgram n p frame)

end

end Run

end Treewalk
