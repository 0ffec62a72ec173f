import Treewalk.Proofs.Syntax.Written
import Treewalk.Proofs.Token.Joined

/-! # Words and numbers of a tree

All spellings of a tree have the same number of words and numbers, however many parentheses, commas
and semicolons they have (`Stmt.ListSpelled.runs_eq`).  The number depends on the bare tree only. -/

namespace Treewalk

open Token

variable {α : Type}

mutual

/-- How many words and numbers spell an expression. -/
def Expr.runs : Expr α → Nat
  | .name _ => 1
  | .int _ _ => 1
  | .string _ _ => 0
  | .bool _ _ => 1
  | .unary _ _ e => e.runs
  | .binary _ l _ r => l.runs + r.runs
  | .cond _ t y none => 1 + (t.runs + y.runs)
  | .cond _ t y (some n) => 1 + (t.runs + (y.runs + (1 + n.runs)))
  | .func _ ps b => 1 + (ps.length + b.runs)
  | .call _ c as => c.runs + Expr.allRuns as
  | .array _ es => Expr.allRuns es
  | .index _ t k => t.runs + k.runs
  | .table _ es => Expr.entryRuns es

def Expr.allRuns : List (Expr α) → Nat
  | [] => 0
  | e :: es => e.runs + Expr.allRuns es

def Expr.entryRuns : List (Expr α × Expr α) → Nat
  | [] => 0
  | (k, v) :: es => k.runs + (v.runs + Expr.entryRuns es)

/-- How many words and numbers spell a block. -/
def Block.runs : Block α → Nat
  | .mk _ ss => Stmt.allRuns ss

/-- How many words and numbers spell a statement. -/
def Stmt.runs : Stmt α → Nat
  | .bind _ _ e => 2 + e.runs
  | .ret _ none => 1
  | .ret _ (some e) => 1 + e.runs
  | .expr _ e => e.runs

def Stmt.allRuns : List (Stmt α) → Nat
  | [] => 0
  | s :: ss => s.runs + Stmt.allRuns ss

end

theorem Token.runs_word {t : Token} {k : Kind} (h : t.kind = k) (hk : k.isRun = true)
    (ts : List Token) : runs (t :: ts) = 1 + runs ts := by
  rw [runs_cons, h, if_pos hk]

theorem Token.runs_sign {t : Token} {k : Kind} (h : t.kind = k) (hk : k.isRun = false)
    (ts : List Token) : runs (t :: ts) = runs ts := by
  rw [runs_cons, h, if_neg (by rw [hk]; decide), Nat.zero_add]

theorem UnaryOp.isRun_kind (op : UnaryOp) : op.kind.isRun = false := by
  cases op <;> rfl

theorem BinaryOp.isRun_kind (op : BinaryOp) : op.kind.isRun = false := by
  cases op <;> rfl

section

variable {mark : Token → α} {closed : Bool}

theorem Ending.runs_eq {ts : List Token} (h : Ending ts) : runs ts = 0 := by
  cases h with
  | none => rfl
  | semicolon ht => exact runs_sign ht.1 rfl []

theorem Ident.ListSpelled.runs_eq {is : List (Ident α)} {ts : List Token}
    (h : Ident.ListSpelled mark is ts) : runs ts = is.length := by
  induction h with
  | nil => rfl
  | one ht => exact runs_word ht rfl []
  | cons ht hcomma _ ih =>
      rw [runs_word ht rfl, runs_sign hcomma.1 rfl, ih, Nat.add_comm]
      rfl

mutual

theorem Expr.Spelled.runs_eq {place : Place} {e : Expr α} {ts : List Token}
    (h : Expr.Spelled mark closed place e ts) : Token.runs ts = (e.map unmark).runs :=
  match h with
  | .bare _ hb => hb.runs_eq
  | .pair hl he hr => by
      rw [runs_sign hl.1 rfl, runs_append, runs_sign hr.1 rfl, he.runs_eq]
      rfl

theorem Expr.Bare.runs_eq {e : Expr α} {ts : List Token} (h : Expr.Bare mark closed e ts) :
    Token.runs ts = (e.map unmark).runs :=
  match h with
  | .name ht => runs_word ht rfl []
  | .int ht => runs_word ht.1 rfl []
  | .string ht => runs_sign ht rfl []
  | .bool ht => runs_word ht.1 (by split <;> rfl) []
  | .unary ht he => by
      rw [runs_sign ht.1 (UnaryOp.isRun_kind _), he.runs_eq]
      rfl
  | .binary hl ht hr => by
      rw [runs_append, runs_sign ht.1 (BinaryOp.isRun_kind _), hl.runs_eq, hr.runs_eq]
      rfl
  | .cond ht hl htest hr hyes => by
      rw [runs_word ht.1 rfl, runs_sign hl.1 rfl, runs_append, runs_sign hr.1 rfl, htest.runs_eq,
        hyes.runs_eq]
      rfl
  | .condElse ht hl htest hr hyes hw hno => by
      rw [runs_word ht.1 rfl, runs_sign hl.1 rfl, runs_append, runs_sign hr.1 rfl, runs_append,
        runs_word hw.1 rfl, htest.runs_eq, hyes.runs_eq, hno.runs_eq]
      rfl
  | .func ht hl hps hr hbody => by
      rw [runs_word ht.1 rfl, runs_sign hl.1 rfl, runs_append, runs_sign hr.1 rfl, hps.runs_eq,
        hbody.runs_eq, Expr.map, Expr.runs, List.length_map]
  | .call hcallee hl hargs hr => by
      rw [runs_append, runs_sign hl.1 rfl, runs_append, runs_sign hr.1 rfl, hcallee.runs_eq,
        hargs.runs_eq]
      rfl
  | .array hl hes hr => by
      rw [runs_sign hl.1 rfl, runs_append, runs_sign hr.1 rfl, hes.runs_eq]
      rfl
  | .index htarget hl hkey hr => by
      rw [runs_append, runs_sign hl.1 rfl, runs_append, runs_sign hr.1 rfl, htarget.runs_eq,
        hkey.runs_eq]
      rfl
  | .table hl hes hr => by
      rw [runs_sign hl.1 rfl, runs_append, runs_sign hr.1 rfl, hes.runs_eq]
      rfl

theorem Expr.ListSpelled.runs_eq {es : List (Expr α)} {ts : List Token}
    (h : Expr.ListSpelled mark closed es ts) :
    Token.runs ts = Expr.allRuns (Expr.mapAll unmark es) :=
  match h with
  | .nil => rfl
  | .one he => he.runs_eq
  | .cons he hcomma hes => by
      rw [runs_append, runs_sign hcomma.1 rfl, he.runs_eq, hes.runs_eq]
      rfl

theorem Expr.EntriesSpelled.runs_eq {es : List (Expr α × Expr α)} {ts : List Token}
    (h : Expr.EntriesSpelled mark closed es ts) :
    Token.runs ts = Expr.entryRuns (Expr.mapEntries unmark es) :=
  match h with
  | .nil => rfl
  | .one hk hcolon hv => by
      rw [runs_append, runs_sign hcolon.1 rfl, hk.runs_eq, hv.runs_eq]
      rfl
  | .cons hk hcolon hv hcomma hes => by
      rw [runs_append, runs_sign hcolon.1 rfl, runs_append, runs_sign hcomma.1 rfl, hk.runs_eq,
        hv.runs_eq, hes.runs_eq]
      rfl

theorem Block.Spelled.runs_eq {b : Block α} {ts : List Token}
    (h : Block.Spelled mark closed b ts) : Token.runs ts = (b.map unmark).runs :=
  match h with
  | .braces hl hss hr => by
      rw [runs_sign hl.1 rfl, runs_append, runs_sign hr.1 rfl, hss.runs_eq]
      rfl

theorem Stmt.Spelled.runs_eq {s : Stmt α} {ts : List Token} (h : Stmt.Spelled mark closed s ts) :
    Token.runs ts = (s.map unmark).runs :=
  match h with
  | .bind ht hi heq he => by
      rw [runs_word ht.1 rfl, runs_word hi rfl, runs_sign heq.1 rfl, he.runs_eq, ← Nat.add_assoc]
      rfl
  | .ret ht => runs_word ht.1 rfl []
  | .retValue ht he => by
      rw [runs_word ht.1 rfl, he.runs_eq]
      rfl
  | .expr he => he.runs_eq

/-- **Words and numbers are never left out.**  A spelling of a list of statements has as many of them
as the bare tree says. -/
theorem Stmt.ListSpelled.runs_eq {ss : List (Stmt α)} {ts : List Token}
    (h : Stmt.ListSpelled mark closed ss ts) :
    Token.runs ts = Stmt.allRuns (Stmt.mapAll unmark ss) :=
  match h with
  | .nil => rfl
  | .cons hs hus _ hss => by
      rw [runs_append, runs_append, hs.runs_eq, hus.runs_eq, hss.runs_eq, Nat.zero_add]
      rfl

end

end

end Treewalk
