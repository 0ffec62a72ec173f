import Treewalk.Decimal.FloatText
import Treewalk.Digest
import Treewalk.Syntax.Render
import Treewalk.Table
import Treewalk.Value.Fault

/-! # Values

What a program computes with.

* Numbers are 64-bit integers and 64-bit floating-point numbers.
* Functions, arrays and tables carry the **identity** they were made with; `same` compares them by
  it and by nothing else.  A reference to a function of the language itself has an identity too.
* A function keeps its parameters and its body as trees with all their marks, and the frame in which
  it was made (`Store`) as a number.
* A table keeps each entry under a `Key`: the kind of the key value and a 64-bit digest of it.
* `returned` and `error` are **control** values: a return or a fault on its way out.

`inspect` is the form in which a value is shown. -/

namespace Treewalk

/-- What tells the keys of a table apart. -/
structure Key where
  tag : Tag
  digest : UInt64
deriving DecidableEq, Repr

/-- Values, with trees marked by `μ` in the functions among them. -/
inductive Value (μ : Type)
  | int (n : Int64)
  | float (x : Float)
  | bool (b : Bool)
  | string (s : String)
  | null
  | returned (value : Value μ)
  | error (fault : Fault)
  | function (identity : Nat) (params : List (Ident μ)) (body : Block μ) (frame : Nat)
  | builtin (identity : Nat) (which : Builtin)
  | array (identity : Nat) (items : List (Value μ))
  | table (identity : Nat) (entries : List (Key × Value μ × Value μ))

namespace Value

variable {μ : Type}

/-- The kind of a value. -/
def tag : Value μ → Tag
  | int _ => .integer
  | float _ => .float
  | bool _ => .boolean
  | string _ => .string
  | null => .null
  | returned _ => .returned
  | error _ => .error
  | function _ _ _ _ => .function
  | builtin _ _ => .builtin
  | array _ _ => .array
  | table _ _ => .table

/-- Whether a value is a fault. -/
def isError : Value μ → Bool
  | error _ => true
  | _ => false

/-- Whether a value is on its way out of what is being run. -/
def isControl : Value μ → Bool
  | returned _ | error _ => true
  | _ => false

/-- Whether a value counts as true.  All do except `false` and `null`. -/
def isTruthy : Value μ → Bool
  | bool false | null => false
  | _ => true

/-- The key under which a value is kept in tables.  Only numbers without fraction, truth values and
strings have one. -/
def key? : Value μ → Option Key
  | int n => some ⟨.integer, n.toUInt64⟩
  | bool b => some ⟨.boolean, if b then 1 else 0⟩
  | string s => some ⟨.string, Digest.ofText s⟩
  | _ => none

/-- The identity with which a value was made, if its kind has one. -/
def identity? : Value μ → Option Nat
  | function i _ _ _ | builtin i _ | array i _ | table i _ => some i
  | _ => none

/-- Whether two values are one.  Truth values and `null` are one when they are equal.  Of two other
values this holds if they were made with one identity. -/
def same : Value μ → Value μ → Bool
  | bool a, bool b => a == b
  | null, null => true
  | a, b =>
    match a.identity?, b.identity? with
    | some i, some j => i == j
    | _, _ => false

/-- For a list of values, which positions hold one and the same value.  Every position is a value
of its own, whatever its kind. -/
def sameness (vs : List (Value μ)) : List (List Bool) :=
  vs.zipIdx.map fun (a, i) => vs.zipIdx.map fun (b, j) => i == j || a.same b

/-- Floating-point numbers from `1e-4` up to, and not including, `1e16` are written with all their
places. -/
def floatLayout : Decimal.Layout where
  smallest := -4
  large := 16
  point := "."
  exponentMark := "e"
  infinity := "inf"
  notANumber := "NaN"

section

variable [Mark μ]

mutual

/-- The form in which a value is shown. -/
def inspect : Value μ → String
  | int n => Integer.text n
  | float x => Decimal.floatText floatLayout x
  | bool b => if b then "true" else "false"
  | string s => s
  | null => "null"
  | returned v => v.inspect
  | error e => "ERROR: " ++ e.message
  | function _ ps b _ =>
    "fn(" ++ commaSeparated (ps.map Ident.name) ++ ") " ++ (b.map Mark.word).render
  | builtin _ _ => "builtin function"
  | array _ vs => "[" ++ commaSeparated (inspectAll vs) ++ "]"
  | table _ es => "\x7b" ++ commaSeparated (inspectEntries es) ++ "\x7d"

def inspectAll : List (Value μ) → List String
  | [] => []
  | v :: vs => v.inspect :: inspectAll vs

def inspectEntries : List (Key × Value μ × Value μ) → List String
  | [] => []
  | (_, k, v) :: es => (k.inspect ++ ": " ++ v.inspect) :: inspectEntries es

end

/-- The form in which a value is shown with its kind. -/
def describe (v : Value μ) : String :=
  v.tag.name ++ "(" ++ v.inspect ++ ")"

end

end Value

end Treewalk
