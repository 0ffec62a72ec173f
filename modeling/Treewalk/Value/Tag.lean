/-! # Kinds of values

The kinds that messages tell apart, and the functions that are always there. -/

namespace Treewalk

/-- The kind of a value. -/
inductive Tag
  | integer | float | boolean | string | null | returned | error | function | builtin | array
  | table
deriving DecidableEq, Repr

/-- The name of a kind in messages. -/
def Tag.name : Tag → String
  | integer => "INTEGER"
  | float => "FLOAT"
  | boolean => "BOOLEAN"
  | string => "STRING"
  | null => "NULL"
  | returned => "RETURN_VALUE"
  | error => "ERROR"
  | function => "FUNCTION"
  | builtin => "BUILTIN"
  | array => "ARRAY"
  | table => "HASH"

/-- The functions of the language itself. -/
inductive Builtin
  | len | puts | first | last | rest | push
deriving DecidableEq, Repr

namespace Builtin

/-- Every function of the language itself, in the order of the declaration. -/
def all : List Builtin :=
  [len, puts, first, last, rest, push]

/-- The name by which a function is called. -/
def name : Builtin → String
  | len => "len"
  | puts => "puts"
  | first => "first"
  | last => "last"
  | rest => "rest"
  | push => "push"

/-- The function with a name. -/
def ofName? (s : String) : Option Builtin :=
  all.find? fun b => b.name == s

end Builtin

end Treewalk
