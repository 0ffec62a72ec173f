import Treewalk.Run

/-! # The functions of the language itself

* `len` counts the items of an array or the characters of a string.
* `puts` prints each argument on a line of its own.
* `first` and `last` are the items at the ends of an array, and `null` for an empty one.
* `rest` is a new array without the first item, and `null` for an empty one.
* `push` is a new array with one more item.

All but `puts` want a fixed number of arguments, which is checked before their kinds.  No array is
ever changed. -/

namespace Treewalk.Builtin

open Run

variable {μ : Type}

/-- Goes on with the only argument. -/
def withOne (args : List (Value μ)) (next : Value μ → Run μ (Value μ)) : Run μ (Value μ) :=
  match args with
  | [v] => next v
  | _ => raise (.argumentCount args.length 1)

/-- Goes on with the items of an array. -/
def withItems (which : Builtin) (v : Value μ) (next : List (Value μ) → Run μ (Value μ)) :
    Run μ (Value μ) :=
  match v with
  | .array _ items => next items
  | _ => raise (.argumentMustBe which .array v.tag)

/-- A new array. -/
def newArray (items : List (Value μ)) : Run μ (Value μ) := do
  return .array (← newIdentity) items

variable [Mark μ]

/-- Prints values, each on a line of its own. -/
def printAll : List (Value μ) → Run μ Unit
  | [] => return
  | v :: vs => do
    note (.printed v.inspect)
    printAll vs

/-- The result of a function of the language itself. -/
def run : Builtin → List (Value μ) → Run μ (Value μ)
  | len, args => withOne args fun
    | .array _ items => return .int (Int64.ofNat items.length)
    | .string s => return .int (Int64.ofNat s.length)
    | v => raise (.argumentUnsupported len v.tag)
  | puts, args => do
    printAll args
    return .null
  | first, args => withOne args fun v => withItems first v fun items =>
    return items.head?.getD .null
  | last, args => withOne args fun v => withItems last v fun items =>
    return items.getLast?.getD .null
  | rest, args => withOne args fun v => withItems rest v fun
    | [] => return .null
    | _ :: items => newArray items
  | push, args =>
    match args with
    | [a, v] => withItems push a fun items => newArray (items ++ [v])
    | _ => raise (.argumentCount args.length 2)

end Treewalk.Builtin
