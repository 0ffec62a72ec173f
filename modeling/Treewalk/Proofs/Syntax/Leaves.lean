import Treewalk.Decimal.Integer
import Treewalk.Syntax

/-! # The leaves of a tree

What a tree takes from its text: names, integers, strings, and the words `let`, `return` and `fn`
that its marks show.

* `Expr.leaves`, `Block.leaves` and `Stmt.leaves` list them in the order of the text.
* `Token.leaves` lists the leaves that one token can become. -/

namespace Treewalk

/-- What a tree takes from its text. -/
inductive Leaf (α : Type)
  | name (s : String)
  | int (v : Int64)
  | string (s : String)
  /-- The mark of a node that is introduced by a word. -/
  | word (kind : Token.Kind) (mark : α)

variable {α β : Type}

mutual

/-- The leaves of an expression. -/
def Expr.leaves : Expr α → List (Leaf α)
  | .name i => [.name i.name]
  | .int _ v => [.int v]
  | .string _ s => [.string s]
  | .bool _ _ => []
  | .unary _ _ e => e.leaves
  | .binary _ l _ r => l.leaves ++ r.leaves
  | .cond _ t y none => t.leaves ++ y.leaves
  | .cond _ t y (some n) => t.leaves ++ (y.leaves ++ n.leaves)
  | .func m ps b => .word .fnWord m :: (ps.map (fun i => .name i.name) ++ b.leaves)
  | .call _ c as => c.leaves ++ Expr.allLeaves as
  | .array _ es => Expr.allLeaves es
  | .index _ t k => t.leaves ++ k.leaves
  | .table _ es => Expr.entryLeaves es

def Expr.allLeaves : List (Expr α) → List (Leaf α)
  | [] => []
  | e :: es => e.leaves ++ Expr.allLeaves es

def Expr.entryLeaves : List (Expr α × Expr α) → List (Leaf α)
  | [] => []
  | (k, v) :: es => k.leaves ++ (v.leaves ++ Expr.entryLeaves es)

/-- The leaves of a block. -/
def Block.leaves : Block α → List (Leaf α)
  | .mk _ ss => Stmt.allLeaves ss

/-- The leaves of a statement. -/
def Stmt.leaves : Stmt α → List (Leaf α)
  | .bind m i e => .word .letWord m :: .name i.name :: e.leaves
  | .ret m none => [.word .returnWord m]
  | .ret m (some e) => .word .returnWord m :: e.leaves
  | .expr _ e => e.leaves

def Stmt.allLeaves : List (Stmt α) → List (Leaf α)
  | [] => []
  | s :: ss => s.leaves ++ Stmt.allLeaves ss

end

@[simp] theorem Stmt.allLeaves_append (ss rs : List (Stmt α)) :
    Stmt.allLeaves (ss ++ rs) = Stmt.allLeaves ss ++ Stmt.allLeaves rs := by
  induction ss with
  | nil => rfl
  | cons s ss ih => simp [Stmt.allLeaves, ih]

theorem Stmt.mem_allLeaves {ss : List (Stmt α)} {l : Leaf α} :
    l ∈ Stmt.allLeaves ss ↔ ∃ s ∈ ss, l ∈ s.leaves := by
  induction ss with
  | nil => simp [Stmt.allLeaves]
  | cons s ss ih => simp [Stmt.allLeaves, ih]

/-! ### Changing the marks -/

/-- The same leaf with the mark changed by `f`. -/
def Leaf.map (f : α → β) : Leaf α → Leaf β
  | name s => name s
  | int v => int v
  | string s => string s
  | word k m => word k (f m)

theorem Leaf.name_mem_map {f : α → β} {ls : List (Leaf α)} {s : String} :
    Leaf.name s ∈ ls.map (Leaf.map f) ↔ Leaf.name s ∈ ls := by
  rw [List.mem_map]
  constructor
  · rintro ⟨l, hl, heq⟩
    cases l with
    | name s' =>
        obtain rfl := Leaf.name.inj heq
        exact hl
    | _ => cases heq
  · intro h
    exact ⟨_, h, rfl⟩

section

variable (f : α → β)

mutual

theorem Expr.leaves_map (e : Expr α) : (e.map f).leaves = e.leaves.map (Leaf.map f) :=
  match e with
  | .name _ => rfl
  | .int _ _ => rfl
  | .string _ _ => rfl
  | .bool _ _ => rfl
  | .unary _ _ e => e.leaves_map
  | .binary _ l _ r => by
      simp only [Expr.map, Expr.leaves, List.map_append, l.leaves_map, r.leaves_map]
  | .cond _ t y none => by
      simp only [Expr.map, Expr.leaves, List.map_append, t.leaves_map, y.leaves_map]
  | .cond _ t y (some n) => by
      simp only [Expr.map, Expr.leaves, List.map_append, t.leaves_map, y.leaves_map, n.leaves_map]
  | .func _ ps b => by
      simp only [Expr.map, Expr.leaves, List.map_append, List.map_cons, b.leaves_map, List.map_map]
      rfl
  | .call _ c as => by
      simp only [Expr.map, Expr.leaves, List.map_append, c.leaves_map, Expr.allLeaves_map as]
  | .array _ es => Expr.allLeaves_map es
  | .index _ t k => by
      simp only [Expr.map, Expr.leaves, List.map_append, t.leaves_map, k.leaves_map]
  | .table _ es => Expr.entryLeaves_map es

theorem Expr.allLeaves_map (es : List (Expr α)) :
    Expr.allLeaves (Expr.mapAll f es) = (Expr.allLeaves es).map (Leaf.map f) :=
  match es with
  | [] => rfl
  | e :: es => by
      simp only [Expr.mapAll, Expr.allLeaves, List.map_append, e.leaves_map,
        Expr.allLeaves_map es]

theorem Expr.entryLeaves_map (es : List (Expr α × Expr α)) :
    Expr.entryLeaves (Expr.mapEntries f es) = (Expr.entryLeaves es).map (Leaf.map f) :=
  match es with
  | [] => rfl
  | (k, v) :: es => by
      simp only [Expr.mapEntries, Expr.entryLeaves, List.map_append, k.leaves_map, v.leaves_map,
        Expr.entryLeaves_map es]

theorem Block.leaves_map (b : Block α) : (b.map f).leaves = b.leaves.map (Leaf.map f) :=
  match b with
  | .mk _ ss => Stmt.allLeaves_map ss

/-- Changing the marks of a tree changes those of its leaves. -/
theorem Stmt.leaves_map (s : Stmt α) : (s.map f).leaves = s.leaves.map (Leaf.map f) :=
  match s with
  | .bind _ _ e => by
      simp only [Stmt.map, Stmt.leaves, List.map_cons, e.leaves_map]
      rfl
  | .ret _ none => rfl
  | .ret _ (some e) => by
      simp only [Stmt.map, Stmt.leaves, List.map_cons, e.leaves_map]
      rfl
  | .expr _ e => e.leaves_map

theorem Stmt.allLeaves_map (ss : List (Stmt α)) :
    Stmt.allLeaves (Stmt.mapAll f ss) = (Stmt.allLeaves ss).map (Leaf.map f) :=
  match ss with
  | [] => rfl
  | s :: ss => by
      simp only [Stmt.mapAll, Stmt.allLeaves, List.map_append, s.leaves_map,
        Stmt.allLeaves_map ss]

end

end

/-! ### Tokens -/

/-- The leaves that a token can become. -/
def Token.leaves (t : Token) : List (Leaf Token) :=
  .word t.kind t ::
    match t.kind with
    | .ident => [.name t.literal]
    | .int => (Integer.ofDigits? t.literal.toList).toList.map .int
    | .string => [.string t.literal]
    | _ => []

theorem Token.word_mem_leaves (t : Token) : .word t.kind t ∈ t.leaves := by
  simp [leaves]

theorem Token.name_mem_leaves {t : Token} (h : t.kind = .ident) : .name t.literal ∈ t.leaves := by
  simp [leaves, h]

theorem Token.of_name_mem_leaves {t : Token} {name : String} (h : .name name ∈ t.leaves) :
    t.kind = .ident ∧ name = t.literal := by
  rcases List.mem_cons.1 h with hword | htail
  · cases hword
  split at htail
  · rename_i hk
    exact ⟨hk, Leaf.name.inj (List.mem_singleton.1 htail)⟩
  · obtain ⟨v, -, hv⟩ := List.mem_map.1 htail
    cases hv
  · cases List.mem_singleton.1 htail
  · cases htail

theorem Token.int_mem_leaves {t : Token} {v : Int64} (h : t.kind = .int)
    (hv : Integer.ofDigits? t.literal.toList = some v) : .int v ∈ t.leaves := by
  simp [leaves, h, hv]

theorem Token.string_mem_leaves {t : Token} (h : t.kind = .string) :
    .string t.literal ∈ t.leaves := by
  simp [leaves, h]

end Treewalk
