import Treewalk.Syntax

/-! # The names that a tree binds where it stands

The targets of the `let` statements of a tree.  A `let` in the body of a function literal binds its
name elsewhere and does not count; one in a branch does, wherever the branch stands. -/

namespace Treewalk

variable {α : Type}

mutual

/-- The targets of the bindings in the branches of an expression. -/
def Expr.targets : Expr α → List String
  | .name _ | .int _ _ | .string _ _ | .bool _ _ | .func _ _ _ => []
  | .unary _ _ e => e.targets
  | .binary _ l _ r => l.targets ++ r.targets
  | .cond _ t y none => t.targets ++ y.targets
  | .cond _ t y (some n) => t.targets ++ (y.targets ++ n.targets)
  | .call _ c as => c.targets ++ Expr.allTargets as
  | .array _ es => Expr.allTargets es
  | .index _ t k => t.targets ++ k.targets
  | .table _ es => Expr.entryTargets es

def Expr.allTargets : List (Expr α) → List String
  | [] => []
  | e :: es => e.targets ++ Expr.allTargets es

def Expr.entryTargets : List (Expr α × Expr α) → List String
  | [] => []
  | (k, v) :: es => k.targets ++ (v.targets ++ Expr.entryTargets es)

/-- The targets of the bindings of a block. -/
def Block.targets : Block α → List String
  | .mk _ ss => Stmt.allTargets ss

/-- The target of a binding, and those of the bindings in the branches of a statement. -/
def Stmt.targets : Stmt α → List String
  | .bind _ i e => i.name :: e.targets
  | .ret _ none => []
  | .ret _ (some e) => e.targets
  | .expr _ e => e.targets

/-- The targets of the bindings of a list of statements. -/
def Stmt.allTargets : List (Stmt α) → List String
  | [] => []
  | s :: ss => s.targets ++ Stmt.allTargets ss

end

theorem Expr.targets_subset_allTargets {e : Expr α} {es : List (Expr α)} (h : e ∈ es) :
    e.targets ⊆ Expr.allTargets es := by
  induction es with
  | nil => cases h
  | cons e' es ih =>
      rw [Expr.allTargets]
      rcases List.mem_cons.1 h with rfl | h
      · exact List.subset_append_left _ _
      · exact List.subset_append_of_subset_right _ (ih h)

theorem Expr.targets_subset_entryTargets {e : Expr α × Expr α} {es : List (Expr α × Expr α)}
    (h : e ∈ es) :
    e.1.targets ⊆ Expr.entryTargets es ∧ e.2.targets ⊆ Expr.entryTargets es := by
  induction es with
  | nil => cases h
  | cons e' es ih =>
      obtain ⟨k, v⟩ := e'
      rw [Expr.entryTargets]
      rcases List.mem_cons.1 h with rfl | h
      · refine ⟨List.subset_append_left _ _, ?_⟩
        exact List.subset_append_of_subset_right _ (List.subset_append_left _ _)
      · obtain ⟨hk, hv⟩ := ih h
        exact ⟨List.subset_append_of_subset_right _ (List.subset_append_of_subset_right _ hk),
          List.subset_append_of_subset_right _ (List.subset_append_of_subset_right _ hv)⟩

end Treewalk
