import Treewalk.Token

/-! # Syntax trees

A program is a list of statements over expressions.

* Every node carries a **mark** of some type `α`, so that one type of trees serves for all
  that is said about a program: marked by tokens it is what a text reads as and a session runs,
  marked by strings (the word that introduces each node) it can be written out, and marked by `Unit`
  it is the bare tree.
* `Expr.map`, `Block.map` and `Stmt.map` change the marks and nothing else.
* `Rank` orders the operators by how tightly they bind. -/

namespace Treewalk

/-! ### Operators -/

/-- How tightly an operator binds, from the loosest to the tightest. -/
inductive Rank
  | lowest | equality | comparison | sum | product | prefixed | call | index
deriving DecidableEq, Repr

/-- The position of a rank in the order. -/
def Rank.level : Rank → Nat
  | lowest => 0
  | equality => 1
  | comparison => 2
  | sum => 3
  | product => 4
  | prefixed => 5
  | call => 6
  | index => 7

/-- Operators before one operand. -/
inductive UnaryOp
  | not | neg
deriving DecidableEq, Repr

namespace UnaryOp

def symbol : UnaryOp → String
  | not => "!"
  | neg => "-"

/-- The operator that a token before an operand stands for. -/
def ofKind? : Token.Kind → Option UnaryOp
  | .bang => some not
  | .minus => some neg
  | _ => none

end UnaryOp

/-- Operators between two operands. -/
inductive BinaryOp
  | add | sub | mul | div | lt | gt | eq | ne
deriving DecidableEq, Repr

namespace BinaryOp

def symbol : BinaryOp → String
  | add => "+"
  | sub => "-"
  | mul => "*"
  | div => "/"
  | lt => "<"
  | gt => ">"
  | eq => "=="
  | ne => "!="

/-- The operator that a token between two operands stands for. -/
def ofKind? : Token.Kind → Option BinaryOp
  | .plus => some add
  | .minus => some sub
  | .asterisk => some mul
  | .slash => some div
  | .lt => some lt
  | .gt => some gt
  | .eq => some eq
  | .notEq => some ne
  | _ => none

def rank : BinaryOp → Rank
  | add | sub => .sum
  | mul | div => .product
  | lt | gt => .comparison
  | eq | ne => .equality

end BinaryOp

/-! ### Trees -/

/-- A name where it is bound or used. -/
structure Ident (α : Type) where
  mark : α
  name : String
deriving DecidableEq, Repr

mutual

/-- Expressions. -/
inductive Expr (α : Type)
  | name (target : Ident α)
  | int (mark : α) (value : Int64)
  | string (mark : α) (value : String)
  | bool (mark : α) (value : Bool)
  | unary (mark : α) (op : UnaryOp) (operand : Expr α)
  | binary (mark : α) (left : Expr α) (op : BinaryOp) (right : Expr α)
  | cond (mark : α) (test : Expr α) (yes : Block α) (no : Option (Block α))
  | func (mark : α) (params : List (Ident α)) (body : Block α)
  | call (mark : α) (callee : Expr α) (args : List (Expr α))
  | array (mark : α) (items : List (Expr α))
  | index (mark : α) (target : Expr α) (key : Expr α)
  | table (mark : α) (entries : List (Expr α × Expr α))

/-- A list of statements in braces. -/
inductive Block (α : Type)
  | mk (mark : α) (body : List (Stmt α))

/-- Statements: a binding, a return with or without a value, or an expression. -/
inductive Stmt (α : Type)
  | bind (mark : α) (target : Ident α) (value : Expr α)
  | ret (mark : α) (value : Option (Expr α))
  | expr (mark : α) (value : Expr α)

end

deriving instance Repr for Expr, Block, Stmt

/-- The statements of a whole text. -/
abbrev Program (α : Type) := List (Stmt α)

variable {α β : Type}

namespace Block

def mark : Block α → α
  | mk m _ => m

def body : Block α → List (Stmt α)
  | mk _ ss => ss

end Block

/-- The mark of an expression; that of a name is the name's own. -/
def Expr.mark : Expr α → α
  | name i => i.mark
  | int m _ | string m _ | bool m _ | unary m _ _ | binary m _ _ _ | cond m _ _ _
  | func m _ _ | call m _ _ | array m _ | index m _ _ | table m _ => m

namespace Stmt

def mark : Stmt α → α
  | bind m _ _ | ret m _ | expr m _ => m

/-- Whether a statement is an expression. -/
def isExpr : Stmt α → Bool
  | expr _ _ => true
  | _ => false

end Stmt

/-! ### Changing the marks -/

def Ident.map (f : α → β) (i : Ident α) : Ident β :=
  ⟨f i.mark, i.name⟩

mutual

/-- The same expression with every mark changed by `f`. -/
def Expr.map (f : α → β) : Expr α → Expr β
  | .name i => .name (i.map f)
  | .int m v => .int (f m) v
  | .string m v => .string (f m) v
  | .bool m v => .bool (f m) v
  | .unary m op e => .unary (f m) op (e.map f)
  | .binary m l op r => .binary (f m) (l.map f) op (r.map f)
  | .cond m t y none => .cond (f m) (t.map f) (y.map f) none
  | .cond m t y (some n) => .cond (f m) (t.map f) (y.map f) (some (n.map f))
  | .func m ps b => .func (f m) (ps.map (Ident.map f)) (b.map f)
  | .call m c as => .call (f m) (c.map f) (Expr.mapAll f as)
  | .array m es => .array (f m) (Expr.mapAll f es)
  | .index m t k => .index (f m) (t.map f) (k.map f)
  | .table m es => .table (f m) (Expr.mapEntries f es)

def Expr.mapAll (f : α → β) : List (Expr α) → List (Expr β)
  | [] => []
  | e :: es => e.map f :: Expr.mapAll f es

def Expr.mapEntries (f : α → β) : List (Expr α × Expr α) → List (Expr β × Expr β)
  | [] => []
  | (k, v) :: es => (k.map f, v.map f) :: Expr.mapEntries f es

/-- The same block with every mark changed by `f`. -/
def Block.map (f : α → β) : Block α → Block β
  | .mk m ss => .mk (f m) (Stmt.mapAll f ss)

/-- The same statement with every mark changed by `f`. -/
def Stmt.map (f : α → β) : Stmt α → Stmt β
  | .bind m i e => .bind (f m) (i.map f) (e.map f)
  | .ret m none => .ret (f m) none
  | .ret m (some e) => .ret (f m) (some (e.map f))
  | .expr m e => .expr (f m) (e.map f)

def Stmt.mapAll (f : α → β) : List (Stmt α) → List (Stmt β)
  | [] => []
  | s :: ss => s.map f :: Stmt.mapAll f ss

end

@[simp] theorem Expr.mapAll_eq (f : α → β) (es : List (Expr α)) :
    Expr.mapAll f es = es.map (Expr.map f) := by
  induction es with
  | nil => rfl
  | cons e es ih => simp [Expr.mapAll, ih]

@[simp] theorem Expr.mapEntries_eq (f : α → β) (es : List (Expr α × Expr α)) :
    Expr.mapEntries f es = es.map fun e => (e.1.map f, e.2.map f) := by
  induction es with
  | nil => rfl
  | cons e es ih => obtain ⟨k, v⟩ := e; simp [Expr.mapEntries, ih]

@[simp] theorem Stmt.mapAll_eq (f : α → β) (ss : List (Stmt α)) :
    Stmt.mapAll f ss = ss.map (Stmt.map f) := by
  induction ss with
  | nil => rfl
  | cons s ss ih => simp [Stmt.mapAll, ih]

section

variable {γ : Type} (f : α → β) (g : β → γ)

mutual

theorem Expr.map_map (e : Expr α) : (e.map f).map g = e.map (g ∘ f) :=
  match e with
  | .name _ => rfl
  | .int _ _ => rfl
  | .string _ _ => rfl
  | .bool _ _ => rfl
  | .unary _ _ e => by simp only [Expr.map, e.map_map, Function.comp_apply]
  | .binary _ l _ r => by simp only [Expr.map, l.map_map, r.map_map, Function.comp_apply]
  | .cond _ t y none => by simp only [Expr.map, t.map_map, y.map_map, Function.comp_apply]
  | .cond _ t y (some n) => by
      simp only [Expr.map, t.map_map, y.map_map, n.map_map, Function.comp_apply]
  | .func _ ps b => by
      simp only [Expr.map, b.map_map, List.map_map, Function.comp_apply]
      rfl
  | .call _ c as => by
      simp only [Expr.map, c.map_map, Expr.mapAll_mapAll as, Function.comp_apply]
  | .array _ es => by simp only [Expr.map, Expr.mapAll_mapAll es, Function.comp_apply]
  | .index _ t k => by simp only [Expr.map, t.map_map, k.map_map, Function.comp_apply]
  | .table _ es => by simp only [Expr.map, Expr.mapEntries_mapEntries es, Function.comp_apply]

theorem Expr.mapAll_mapAll (es : List (Expr α)) :
    Expr.mapAll g (Expr.mapAll f es) = Expr.mapAll (g ∘ f) es :=
  match es with
  | [] => rfl
  | e :: es => by simp only [Expr.mapAll, e.map_map, Expr.mapAll_mapAll es]

theorem Expr.mapEntries_mapEntries (es : List (Expr α × Expr α)) :
    Expr.mapEntries g (Expr.mapEntries f es) = Expr.mapEntries (g ∘ f) es :=
  match es with
  | [] => rfl
  | (k, v) :: es => by
      simp only [Expr.mapEntries, k.map_map, v.map_map, Expr.mapEntries_mapEntries es]

theorem Block.map_map (b : Block α) : (b.map f).map g = b.map (g ∘ f) :=
  match b with
  | .mk _ ss => by simp only [Block.map, Stmt.mapAll_mapAll ss, Function.comp_apply]

theorem Stmt.map_map (s : Stmt α) : (s.map f).map g = s.map (g ∘ f) :=
  match s with
  | .bind _ _ e => by
      simp only [Stmt.map, e.map_map, Function.comp_apply]
      rfl
  | .ret _ none => rfl
  | .ret _ (some e) => by simp only [Stmt.map, e.map_map, Function.comp_apply]
  | .expr _ e => by simp only [Stmt.map, e.map_map, Function.comp_apply]

theorem Stmt.mapAll_mapAll (ss : List (Stmt α)) :
    Stmt.mapAll g (Stmt.mapAll f ss) = Stmt.mapAll (g ∘ f) ss :=
  match ss with
  | [] => rfl
  | s :: ss => by simp only [Stmt.mapAll, s.map_map, Stmt.mapAll_mapAll ss]

end

end

mutual

theorem Expr.map_id (e : Expr α) : e.map id = e :=
  match e with
  | .name _ | .int _ _ | .string _ _ | .bool _ _ => rfl
  | .unary _ _ e => by rw [Expr.map, e.map_id, id]
  | .binary _ l _ r => by rw [Expr.map, l.map_id, r.map_id, id]
  | .cond _ t y none => by rw [Expr.map, t.map_id, y.map_id, id]
  | .cond _ t y (some n) => by rw [Expr.map, t.map_id, y.map_id, n.map_id, id]
  | .func _ ps b => by
      rw [Expr.map, b.map_id, id]
      exact congrArg (Expr.func _ · b) (List.map_id ps)
  | .call _ c as => by rw [Expr.map, c.map_id, Expr.mapAll_id as, id]
  | .array _ es => by rw [Expr.map, Expr.mapAll_id es, id]
  | .index _ t k => by rw [Expr.map, t.map_id, k.map_id, id]
  | .table _ es => by rw [Expr.map, Expr.mapEntries_id es, id]

theorem Expr.mapAll_id (es : List (Expr α)) : Expr.mapAll id es = es :=
  match es with
  | [] => rfl
  | e :: es => by rw [Expr.mapAll, e.map_id, Expr.mapAll_id es]

theorem Expr.mapEntries_id (es : List (Expr α × Expr α)) : Expr.mapEntries id es = es :=
  match es with
  | [] => rfl
  | (k, v) :: es => by rw [Expr.mapEntries, k.map_id, v.map_id, Expr.mapEntries_id es]

theorem Block.map_id (b : Block α) : b.map id = b :=
  match b with
  | .mk _ ss => by rw [Block.map, Stmt.mapAll_id ss, id]

theorem Stmt.map_id (s : Stmt α) : s.map id = s :=
  match s with
  | .bind _ _ e => by
      rw [Stmt.map, e.map_id, id]
      rfl
  | .ret _ none => rfl
  | .ret _ (some e) => by rw [Stmt.map, e.map_id, id]
  | .expr _ e => by rw [Stmt.map, e.map_id, id]

theorem Stmt.mapAll_id (ss : List (Stmt α)) : Stmt.mapAll id ss = ss :=
  match ss with
  | [] => rfl
  | s :: ss => by rw [Stmt.mapAll, s.map_id, Stmt.mapAll_id ss]

end

/-- The same program with every mark changed by `f`. -/
def Program.map (f : α → β) (p : Program α) : Program β :=
  List.map (Stmt.map f) p

theorem Program.map_id (p : Program α) : p.map id = p := by
  rw [Program.map, ← Stmt.mapAll_eq, Stmt.mapAll_id]

theorem Program.map_map {γ : Type} (f : α → β) (g : β → γ) (p : Program α) :
    (p.map f).map g = p.map (g ∘ f) := by
  rw [Program.map, Program.map, Program.map, ← Stmt.mapAll_eq, ← Stmt.mapAll_eq, ← Stmt.mapAll_eq,
    Stmt.mapAll_mapAll]

end Treewalk
