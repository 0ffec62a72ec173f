import Treewalk.Proofs.Syntax.Rendered

/-! # The written form of a bare tree

The written form shows three kinds of marks, the words `let`, `return` and `fn`.  In a tree that was
read they are the words themselves.  So the written form of such a tree depends on the bare tree
only (`Stmt.render_eq_of_map_eq`).

`Expr.worded` gives a tree the marks that its written form shows, and no others. -/

namespace Treewalk

open Token

variable {α β : Type}

mutual

/-- The same expression, marked by the words that its written form shows. -/
def Expr.worded : Expr α → Expr String
  | .name i => .name (i.map fun _ => "")
  | .int _ v => .int "" v
  | .string _ v => .string "" v
  | .bool _ v => .bool "" v
  | .unary _ op e => .unary "" op e.worded
  | .binary _ l op r => .binary "" l.worded op r.worded
  | .cond _ t y none => .cond "" t.worded y.worded none
  | .cond _ t y (some n) => .cond "" t.worded y.worded (some n.worded)
  | .func _ ps b => .func (Kind.text .fnWord) (ps.map (Ident.map fun _ => "")) b.worded
  | .call _ c as => .call "" c.worded (Expr.allWorded as)
  | .array _ es => .array "" (Expr.allWorded es)
  | .index _ t k => .index "" t.worded k.worded
  | .table _ es => .table "" (Expr.entriesWorded es)

def Expr.allWorded : List (Expr α) → List (Expr String)
  | [] => []
  | e :: es => e.worded :: Expr.allWorded es

def Expr.entriesWorded : List (Expr α × Expr α) → List (Expr String × Expr String)
  | [] => []
  | (k, v) :: es => (k.worded, v.worded) :: Expr.entriesWorded es

/-- The same block, marked by the words that its written form shows. -/
def Block.worded : Block α → Block String
  | .mk _ ss => .mk "" (Stmt.allWorded ss)

/-- The same statement, marked by the words that its written form shows. -/
def Stmt.worded : Stmt α → Stmt String
  | .bind _ i e => .bind (Kind.text .letWord) (i.map fun _ => "") e.worded
  | .ret _ none => .ret (Kind.text .returnWord) none
  | .ret _ (some e) => .ret (Kind.text .returnWord) (some e.worded)
  | .expr _ e => .expr "" e.worded

def Stmt.allWorded : List (Stmt α) → List (Stmt String)
  | [] => []
  | s :: ss => s.worded :: Stmt.allWorded ss

end

section

variable (f : α → β)

mutual

theorem Expr.worded_map (e : Expr α) : (e.map f).worded = e.worded :=
  match e with
  | .name _ => rfl
  | .int _ _ => rfl
  | .string _ _ => rfl
  | .bool _ _ => rfl
  | .unary _ _ e => by simp only [Expr.map, Expr.worded, e.worded_map]
  | .binary _ l _ r => by simp only [Expr.map, Expr.worded, l.worded_map, r.worded_map]
  | .cond _ t y none => by simp only [Expr.map, Expr.worded, t.worded_map, y.worded_map]
  | .cond _ t y (some n) => by
      simp only [Expr.map, Expr.worded, t.worded_map, y.worded_map, n.worded_map]
  | .func _ ps b => by
      simp only [Expr.map, Expr.worded, b.worded_map, List.map_map]
      rfl
  | .call _ c as => by simp only [Expr.map, Expr.worded, c.worded_map, Expr.allWorded_map as]
  | .array _ es => by simp only [Expr.map, Expr.worded, Expr.allWorded_map es]
  | .index _ t k => by simp only [Expr.map, Expr.worded, t.worded_map, k.worded_map]
  | .table _ es => by simp only [Expr.map, Expr.worded, Expr.entriesWorded_map es]

theorem Expr.allWorded_map (es : List (Expr α)) :
    Expr.allWorded (Expr.mapAll f es) = Expr.allWorded es :=
  match es with
  | [] => rfl
  | e :: es => by simp only [Expr.mapAll, Expr.allWorded, e.worded_map, Expr.allWorded_map es]

theorem Expr.entriesWorded_map (es : List (Expr α × Expr α)) :
    Expr.entriesWorded (Expr.mapEntries f es) = Expr.entriesWorded es :=
  match es with
  | [] => rfl
  | (k, v) :: es => by
      simp only [Expr.mapEntries, Expr.entriesWorded, k.worded_map, v.worded_map,
        Expr.entriesWorded_map es]

theorem Block.worded_map (b : Block α) : (b.map f).worded = b.worded :=
  match b with
  | .mk _ ss => by simp only [Block.map, Block.worded, Stmt.allWorded_map ss]

theorem Stmt.worded_map (s : Stmt α) : (s.map f).worded = s.worded :=
  match s with
  | .bind _ _ e => by
      simp only [Stmt.map, Stmt.worded, e.worded_map]
      rfl
  | .ret _ none => rfl
  | .ret _ (some e) => by simp only [Stmt.map, Stmt.worded, e.worded_map]
  | .expr _ e => by simp only [Stmt.map, Stmt.worded, e.worded_map]

theorem Stmt.allWorded_map (ss : List (Stmt α)) :
    Stmt.allWorded (Stmt.mapAll f ss) = Stmt.allWorded ss :=
  match ss with
  | [] => rfl
  | s :: ss => by simp only [Stmt.mapAll, Stmt.allWorded, s.worded_map, Stmt.allWorded_map ss]

end

end

theorem Stmt.isExpr_worded (s : Stmt α) : s.worded.isExpr = s.isExpr := by
  cases s with
  | ret _ value => cases value <;> rfl
  | _ => rfl

theorem Stmt.isEmpty_allWorded (ss : List (Stmt α)) :
    (Stmt.allWorded ss).isEmpty = ss.isEmpty := by
  cases ss <;> rfl

mutual

theorem Expr.render_worded (e : Expr String) (hp : ∀ l ∈ e.leaves, l.Readable) :
    e.worded.render = e.render :=
  match e with
  | .name _ => rfl
  | .int _ _ => rfl
  | .string _ _ => rfl
  | .bool _ _ => rfl
  | .unary _ _ e => by
      rw [Expr.leaves] at hp
      simp only [Expr.worded, Expr.render, e.render_worded hp]
  | .binary _ l _ r => by
      simp only [Expr.leaves, List.forall_mem_append] at hp
      simp only [Expr.worded, Expr.render, l.render_worded hp.1, r.render_worded hp.2]
  | .cond _ t y none => by
      simp only [Expr.leaves, List.forall_mem_append] at hp
      simp only [Expr.worded, Expr.render, t.render_worded hp.1, y.render_worded hp.2]
  | .cond _ t y (some n) => by
      simp only [Expr.leaves, List.forall_mem_append] at hp
      simp only [Expr.worded, Expr.render, t.render_worded hp.1, y.render_worded hp.2.1,
        n.render_worded hp.2.2]
  | .func m ps b => by
      simp only [Expr.leaves, List.forall_mem_cons, List.forall_mem_append] at hp
      have hm : m = Kind.text .fnWord := hp.1 rfl
      simp only [Expr.worded, Expr.render, b.render_worded hp.2.2, hm, List.map_map]
      rfl
  | .call _ c as => by
      simp only [Expr.leaves, List.forall_mem_append] at hp
      simp only [Expr.worded, Expr.render, c.render_worded hp.1, Expr.renderAll_worded as hp.2]
  | .array _ es => by
      rw [Expr.leaves] at hp
      simp only [Expr.worded, Expr.render, Expr.renderAll_worded es hp]
  | .index _ t k => by
      simp only [Expr.leaves, List.forall_mem_append] at hp
      simp only [Expr.worded, Expr.render, t.render_worded hp.1, k.render_worded hp.2]
  | .table _ es => by
      rw [Expr.leaves] at hp
      simp only [Expr.worded, Expr.render, Expr.renderEntries_worded es hp]

theorem Expr.renderAll_worded (es : List (Expr String))
    (hp : ∀ l ∈ Expr.allLeaves es, l.Readable) :
    Expr.renderAll (Expr.allWorded es) = Expr.renderAll es :=
  match es with
  | [] => rfl
  | e :: es => by
      rw [Expr.allLeaves, List.forall_mem_append] at hp
      simp only [Expr.allWorded, Expr.renderAll, e.render_worded hp.1,
        Expr.renderAll_worded es hp.2]

theorem Expr.renderEntries_worded (es : List (Expr String × Expr String))
    (hp : ∀ l ∈ Expr.entryLeaves es, l.Readable) :
    Expr.renderEntries (Expr.entriesWorded es) = Expr.renderEntries es :=
  match es with
  | [] => rfl
  | (k, v) :: es => by
      simp only [Expr.entryLeaves, List.forall_mem_append] at hp
      simp only [Expr.entriesWorded, Expr.renderEntries, k.render_worded hp.1,
        v.render_worded hp.2.1, Expr.renderEntries_worded es hp.2.2]

theorem Block.render_worded (b : Block String) (hp : ∀ l ∈ b.leaves, l.Readable) :
    b.worded.render = b.render :=
  match b with
  | .mk _ [] => rfl
  | .mk _ (s :: ss) => by
      rw [Block.leaves] at hp
      have hbody := Stmt.renderBody_worded (s :: ss) hp
      rw [Stmt.allWorded] at hbody
      simp only [Block.worded, Stmt.allWorded, Block.render, hbody]

theorem Stmt.render_worded (s : Stmt String) (hp : ∀ l ∈ s.leaves, l.Readable) :
    s.worded.render = s.render :=
  match s with
  | .bind m _ e => by
      simp only [Stmt.leaves, List.forall_mem_cons] at hp
      have hm : m = Kind.text .letWord := hp.1 rfl
      simp only [Stmt.worded, Stmt.render, e.render_worded hp.2.2, hm]
      rfl
  | .ret m none => by
      rw [Stmt.leaves, List.forall_mem_singleton] at hp
      have hm : m = Kind.text .returnWord := hp rfl
      simp only [Stmt.worded, Stmt.render, hm]
  | .ret m (some e) => by
      rw [Stmt.leaves, List.forall_mem_cons] at hp
      have hm : m = Kind.text .returnWord := hp.1 rfl
      simp only [Stmt.worded, Stmt.render, e.render_worded hp.2, hm]
  | .expr _ e => e.render_worded hp

theorem Stmt.renderBody_worded (ss : List (Stmt String))
    (hp : ∀ l ∈ Stmt.allLeaves ss, l.Readable) :
    Stmt.renderBody (Stmt.allWorded ss) = Stmt.renderBody ss :=
  match ss with
  | [] => rfl
  | s :: ss => by
      rw [Stmt.allLeaves, List.forall_mem_append] at hp
      simp only [Stmt.allWorded, Stmt.renderBody, s.render_worded hp.1, s.isExpr_worded,
        Stmt.isEmpty_allWorded, Stmt.renderBody_worded ss hp.2]

end

/-- Statements that were read are written in the same way if they are the same but for the marks. -/
theorem Stmt.render_eq_of_map_eq {s t : Stmt String} (hs : ∀ l ∈ s.leaves, l.Readable)
    (ht : ∀ l ∈ t.leaves, l.Readable) (h : s.map unmark = t.map unmark) : s.render = t.render := by
  rw [← s.render_worded hs, ← t.render_worded ht, ← s.worded_map unmark, ← t.worded_map unmark, h]

end Treewalk
