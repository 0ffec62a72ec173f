import Treewalk.Syntax
import Treewalk.Value.Tag

/-! # Programs whose names are bound

`Scoped S` says that every name which a tree uses is that of a function of the language itself, is
in `S`, or is bound around it: as a parameter of a function literal that it stands in, or by a
binding that stands before, in the same list of statements or in one around it.  A binding in a
branch counts in that branch only, although it is made in the frame that the branch stands in. -/

namespace Treewalk

variable {α : Type}

/-- The names bound once a statement was run. -/
def Stmt.after : Stmt α → (String → Prop) → String → Prop
  | .bind _ target _, S => fun name => name = target.name ∨ S name
  | _, S => S

mutual

/-- All names that an expression uses are bound, if those in `S` are. -/
def Expr.Scoped : (String → Prop) → Expr α → Prop
  | S, .name i => (Builtin.ofName? i.name).isSome = true ∨ S i.name
  | _, .int _ _ | _, .string _ _ | _, .bool _ _ => True
  | S, .unary _ _ e => e.Scoped S
  | S, .binary _ l _ r => l.Scoped S ∧ r.Scoped S
  | S, .cond _ t y none => t.Scoped S ∧ y.Scoped S
  | S, .cond _ t y (some n) => t.Scoped S ∧ y.Scoped S ∧ n.Scoped S
  | S, .func _ ps b => b.Scoped fun name => name ∈ ps.map Ident.name ∨ S name
  | S, .call _ c as => c.Scoped S ∧ Expr.AllScoped S as
  | S, .array _ es => Expr.AllScoped S es
  | S, .index _ t k => t.Scoped S ∧ k.Scoped S
  | S, .table _ es => Expr.EntriesScoped S es

def Expr.AllScoped : (String → Prop) → List (Expr α) → Prop
  | _, [] => True
  | S, e :: es => e.Scoped S ∧ Expr.AllScoped S es

def Expr.EntriesScoped : (String → Prop) → List (Expr α × Expr α) → Prop
  | _, [] => True
  | S, (k, v) :: es => k.Scoped S ∧ v.Scoped S ∧ Expr.EntriesScoped S es

/-- All names that a block uses are bound, if those in `S` are. -/
def Block.Scoped : (String → Prop) → Block α → Prop
  | S, .mk _ ss => Stmt.AllScoped S ss

/-- All names that a statement uses are bound, if those in `S` are. -/
def Stmt.Scoped : (String → Prop) → Stmt α → Prop
  | S, .bind _ _ e => e.Scoped S
  | _, .ret _ none => True
  | S, .ret _ (some e) => e.Scoped S
  | S, .expr _ e => e.Scoped S

/-- The target of a binding is bound in the statements after it. -/
def Stmt.AllScoped : (String → Prop) → List (Stmt α) → Prop
  | _, [] => True
  | S, s :: ss => s.Scoped S ∧ Stmt.AllScoped (s.after S) ss

end

theorem Stmt.after_mono {S T : String → Prop} (s : Stmt α) (h : ∀ name, S name → T name)
    (name : String) (hname : s.after S name) : s.after T name := by
  cases s with
  | bind _ target _ => exact hname.imp id (h name)
  | _ => exact h name hname

mutual

/-- More names may be bound. -/
theorem Expr.Scoped.mono {S T : String → Prop} {e : Expr α} (he : e.Scoped S)
    (h : ∀ name, S name → T name) : e.Scoped T :=
  match e, he with
  | .name i, he => he.imp id (h i.name)
  | .int _ _, _ | .string _ _, _ | .bool _ _, _ => trivial
  | .unary _ _ e, he => Expr.Scoped.mono (e := e) he h
  | .binary _ _ _ _, ⟨hl, hr⟩ => ⟨hl.mono h, hr.mono h⟩
  | .cond _ _ _ none, ⟨ht, hy⟩ => ⟨ht.mono h, hy.mono h⟩
  | .cond _ _ _ (some _), ⟨ht, hy, hn⟩ => ⟨ht.mono h, hy.mono h, hn.mono h⟩
  | .func _ _ b, he => Block.Scoped.mono (b := b) he fun name hname => hname.imp id (h name)
  | .call _ _ _, ⟨hc, has⟩ => ⟨hc.mono h, has.mono h⟩
  | .array _ es, he => @Expr.AllScoped.mono S T es he h
  | .index _ _ _, ⟨ht, hk⟩ => ⟨ht.mono h, hk.mono h⟩
  | .table _ es, he => @Expr.EntriesScoped.mono S T es he h

theorem Expr.AllScoped.mono {S T : String → Prop} {es : List (Expr α)} (hes : Expr.AllScoped S es)
    (h : ∀ name, S name → T name) : Expr.AllScoped T es :=
  match es, hes with
  | [], _ => trivial
  | _ :: _, ⟨he, hes⟩ => ⟨he.mono h, hes.mono h⟩

theorem Expr.EntriesScoped.mono {S T : String → Prop} {es : List (Expr α × Expr α)}
    (hes : Expr.EntriesScoped S es) (h : ∀ name, S name → T name) : Expr.EntriesScoped T es :=
  match es, hes with
  | [], _ => trivial
  | (_, _) :: _, ⟨hk, hv, hes⟩ => ⟨hk.mono h, hv.mono h, hes.mono h⟩

theorem Block.Scoped.mono {S T : String → Prop} {b : Block α} (hb : b.Scoped S)
    (h : ∀ name, S name → T name) : b.Scoped T :=
  match b, hb with
  | .mk _ ss, hb => @Stmt.AllScoped.mono S T ss hb h

theorem Stmt.Scoped.mono {S T : String → Prop} {s : Stmt α} (hs : s.Scoped S)
    (h : ∀ name, S name → T name) : s.Scoped T :=
  match s, hs with
  | .bind _ _ e, hs => Expr.Scoped.mono (e := e) hs h
  | .ret _ none, _ => trivial
  | .ret _ (some e), hs => Expr.Scoped.mono (e := e) hs h
  | .expr _ e, hs => Expr.Scoped.mono (e := e) hs h

theorem Stmt.AllScoped.mono {S T : String → Prop} {ss : List (Stmt α)} (hss : Stmt.AllScoped S ss)
    (h : ∀ name, S name → T name) : Stmt.AllScoped T ss :=
  match ss, hss with
  | [], _ => trivial
  | s :: _, ⟨hs, hss⟩ => ⟨hs.mono h, hss.mono (s.after_mono h)⟩

end

end Treewalk
