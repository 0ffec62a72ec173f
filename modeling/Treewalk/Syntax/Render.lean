import Treewalk.Decimal.Integer
import Treewalk.Syntax

/-! # The written form of a tree

Trees marked by the words of their nodes are written out in one canonical form.

* Every unary, binary and index expression stands in its own parentheses.
* A binding and a return end in `;`.  An expression statement inside braces is followed by `;`
  unless it is the last of its block, since `a` and `(-b)` side by side would read as a call.
* The statements of a program follow each other with nothing in between.
* The words `let`, `return` and `fn` are taken from the marks.  `Mark.word` is the word of a mark of
  another type. -/

namespace Treewalk

/-- A text between double quotes. -/
def quoted (s : String) : String :=
  "\"" ++ s ++ "\""

/-- Texts separated by a comma and a space. -/
def commaSeparated (items : List String) : String :=
  ", ".intercalate items

/-- Marks that tell the words of their nodes. -/
class Mark (α : Type) where
  /-- The word that introduces a node. -/
  word : α → String

instance : Mark String where
  word := id

instance : Mark Token where
  word := Token.literal

mutual

/-- The written form of an expression. -/
def Expr.render : Expr String → String
  | .name i => i.name
  | .int _ v => Integer.text v
  | .string _ v => quoted v
  | .bool _ v => if v then "true" else "false"
  | .unary _ op e => "(" ++ op.symbol ++ e.render ++ ")"
  | .binary _ l op r => "(" ++ l.render ++ " " ++ op.symbol ++ " " ++ r.render ++ ")"
  | .cond _ t y none => "if (" ++ t.render ++ ") " ++ y.render
  | .cond _ t y (some n) => "if (" ++ t.render ++ ") " ++ y.render ++ " else " ++ n.render
  | .func m ps b => m ++ "(" ++ commaSeparated (ps.map Ident.name) ++ ") " ++ b.render
  | .call _ c as => c.render ++ "(" ++ commaSeparated (Expr.renderAll as) ++ ")"
  | .array _ es => "[" ++ commaSeparated (Expr.renderAll es) ++ "]"
  | .index _ t k => "(" ++ t.render ++ "[" ++ k.render ++ "])"
  | .table _ es => "\x7b" ++ commaSeparated (Expr.renderEntries es) ++ "\x7d"

def Expr.renderAll : List (Expr String) → List String
  | [] => []
  | e :: es => e.render :: Expr.renderAll es

def Expr.renderEntries : List (Expr String × Expr String) → List String
  | [] => []
  | (k, v) :: es => (k.render ++ ":" ++ v.render) :: Expr.renderEntries es

/-- The written form of a block. -/
def Block.render : Block String → String
  | .mk _ [] => "\x7b\x7d"
  | .mk _ (s :: ss) => "\x7b" ++ Stmt.renderBody (s :: ss) ++ " \x7d"

/-- The written form of a statement. -/
def Stmt.render : Stmt String → String
  | .bind m i e => m ++ " " ++ i.name ++ " = " ++ e.render ++ ";"
  | .ret m none => m ++ " ;"
  | .ret m (some e) => m ++ " " ++ e.render ++ ";"
  | .expr _ e => e.render

/-- The statements of a block, each after a space. -/
def Stmt.renderBody : List (Stmt String) → String
  | [] => ""
  | s :: ss =>
    " " ++ s.render ++ (if s.isExpr && !ss.isEmpty then ";" else "") ++ Stmt.renderBody ss

end

/-- The written form of a program. -/
def Program.render (p : Program String) : String :=
  String.join (List.map Stmt.render p)

/-- The word that introduces a program, if it has a statement. -/
def Program.word (p : Program String) : String :=
  match p with
  | [] => ""
  | s :: _ => s.mark

@[simp] theorem Expr.renderAll_eq (es : List (Expr String)) :
    Expr.renderAll es = es.map Expr.render := by
  induction es with
  | nil => rfl
  | cons e es ih => simp [Expr.renderAll, ih]

@[simp] theorem Expr.renderEntries_eq (es : List (Expr String × Expr String)) :
    Expr.renderEntries es = es.map fun e => e.1.render ++ ":" ++ e.2.render := by
  induction es with
  | nil => rfl
  | cons e es ih => obtain ⟨k, v⟩ := e; simp [Expr.renderEntries, ih]

end Treewalk
