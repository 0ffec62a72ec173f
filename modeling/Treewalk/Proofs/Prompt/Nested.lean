import Treewalk.Proofs.Prompt.Lexical
import Treewalk.Proofs.Syntax.Soundness

/-! # Brackets of a program

The brackets of an input that is read without a fault come in nested pairs, so it is never held back
for a bracket.

* `Nested ts` says that the brackets among the tokens `ts` come in nested pairs.  They then leave
  the open brackets as they were (`balance_append_of_nested`).
* Every spelling of the grammar is nested (`Stmt.ListSpelled.nested`): each rule opens a bracket,
  goes over its parts and closes it.
* `judge_of_parse`: all that an input without a syntax error can lack is the quote at its end. -/

namespace Treewalk

open Token

/-- Whether a kind is a bracket. -/
def Token.Kind.isBracket (k : Kind) : Bool :=
  k.closer?.isSome || k.isCloser

/-- The brackets among the tokens come in nested pairs. -/
inductive Nested : List Token → Prop
  | nil : Nested []
  | other {t : Token} {ts : List Token} :
      t.kind.isBracket = false → Nested ts → Nested (t :: ts)
  | pair {l r : Token} {ts us : List Token} :
      l.kind.closer? = some r.kind → Nested ts → Nested us → Nested (l :: (ts ++ r :: us))

namespace Nested

theorem append {ts us : List Token} (h : Nested ts) (h' : Nested us) : Nested (ts ++ us) := by
  induction h with
  | nil => exact h'
  | other ht _ ih => exact .other ht ih
  | @pair l r ts vs hlr hts _ _ ih =>
      rw [List.cons_append, List.append_assoc, List.cons_append]
      exact .pair hlr hts ih

theorem of_kind {t : Token} {k : Kind} {ts : List Token} (ht : t.kind = k)
    (hk : k.isBracket = false) (h : Nested ts) : Nested (t :: ts) :=
  .other (by rw [ht, hk]) h

theorem single {t : Token} {k : Kind} (ht : t.kind = k) (hk : k.isBracket = false) : Nested [t] :=
  .of_kind ht hk .nil

/-- A bracket, nested tokens, its closing bracket and nested tokens. -/
theorem enclosed {l r : Token} {k k' : Kind} {ts us : List Token} (hl : l.Is k) (hr : r.Is k')
    (hk : k.closer? = some k') (hts : Nested ts) (hus : Nested us) :
    Nested (l :: (ts ++ r :: us)) :=
  .pair (by rw [hl.1, hr.1, hk]) hts hus

end Nested

/-! ### Spellings are nested -/

theorem UnaryOp.isBracket_kind (op : UnaryOp) : op.kind.isBracket = false := by
  cases op <;> rfl

theorem BinaryOp.isBracket_kind (op : BinaryOp) : op.kind.isBracket = false := by
  cases op <;> rfl

section

variable {α : Type} {mark : Token → α} {closed : Bool}

theorem Ending.nested {ts : List Token} (h : Ending ts) : Nested ts := by
  cases h with
  | none => exact .nil
  | semicolon ht => exact .single ht.1 rfl

theorem Ident.ListSpelled.nested {is : List (Ident α)} {ts : List Token}
    (h : Ident.ListSpelled mark is ts) : Nested ts := by
  induction h with
  | nil => exact .nil
  | one ht => exact .single ht rfl
  | cons ht hcomma _ ih => exact .of_kind ht rfl (.of_kind hcomma.1 rfl ih)

mutual

theorem Expr.Spelled.nested {place : Place} {e : Expr α} {ts : List Token}
    (h : Expr.Spelled mark closed place e ts) : Nested ts :=
  match h with
  | .bare _ hb => hb.nested
  | .pair hl he hr => .enclosed hl hr rfl he.nested .nil

theorem Expr.Bare.nested {e : Expr α} {ts : List Token} (h : Expr.Bare mark closed e ts) :
    Nested ts :=
  match h with
  | .name ht => .single ht rfl
  | .int ht => .single ht.1 rfl
  | .string ht => .single ht rfl
  | .bool ht => .single ht.1 (by split <;> rfl)
  | .unary ht he => .of_kind ht.1 (UnaryOp.isBracket_kind _) he.nested
  | .binary hl ht hr => hl.nested.append (.of_kind ht.1 (BinaryOp.isBracket_kind _) hr.nested)
  | .cond ht hl htest hr hyes =>
      .of_kind ht.1 rfl (.enclosed hl hr rfl htest.nested hyes.nested)
  | .condElse ht hl htest hr hyes hw hno =>
      .of_kind ht.1 rfl (.enclosed hl hr rfl htest.nested
        (hyes.nested.append (.of_kind hw.1 rfl hno.nested)))
  | .func ht hl hps hr hbody =>
      .of_kind ht.1 rfl (.enclosed hl hr rfl hps.nested hbody.nested)
  | .call hcallee hl hargs hr => hcallee.nested.append (.enclosed hl hr rfl hargs.nested .nil)
  | .array hl hes hr => .enclosed hl hr rfl hes.nested .nil
  | .index htarget hl hkey hr => htarget.nested.append (.enclosed hl hr rfl hkey.nested .nil)
  | .table hl hes hr => .enclosed hl hr rfl hes.nested .nil

theorem Expr.ListSpelled.nested {es : List (Expr α)} {ts : List Token}
    (h : Expr.ListSpelled mark closed es ts) : Nested ts :=
  match h with
  | .nil => .nil
  | .one he => he.nested
  | .cons he hcomma hes => he.nested.append (.of_kind hcomma.1 rfl hes.nested)

theorem Expr.EntriesSpelled.nested {es : List (Expr α × Expr α)} {ts : List Token}
    (h : Expr.EntriesSpelled mark closed es ts) : Nested ts :=
  match h with
  | .nil => .nil
  | .one hk hcolon hv => hk.nested.append (.of_kind hcolon.1 rfl hv.nested)
  | .cons hk hcolon hv hcomma hes =>
      hk.nested.append
        (.of_kind hcolon.1 rfl (hv.nested.append (.of_kind hcomma.1 rfl hes.nested)))

theorem Block.Spelled.nested {b : Block α} {ts : List Token}
    (h : Block.Spelled mark closed b ts) : Nested ts :=
  match h with
  | .braces hl hss hr => .enclosed hl hr rfl hss.nested .nil

theorem Stmt.Spelled.nested {s : Stmt α} {ts : List Token} (h : Stmt.Spelled mark closed s ts) :
    Nested ts :=
  match h with
  | .bind ht hi heq he => .of_kind ht.1 rfl (.of_kind hi rfl (.of_kind heq.1 rfl he.nested))
  | .ret ht => .single ht.1 rfl
  | .retValue ht he => .of_kind ht.1 rfl he.nested
  | .expr he => he.nested

/-- The brackets of a program come in nested pairs. -/
theorem Stmt.ListSpelled.nested {ss : List (Stmt α)} {ts : List Token}
    (h : Stmt.ListSpelled mark closed ss ts) : Nested ts :=
  match h with
  | .nil => .nil
  | .cons hs hus _ hss => hs.nested.append (hus.nested.append hss.nested)

end

end

namespace Prompt

/-! ### Nested brackets settle -/

theorem settle_of_isBracket {k : Kind} (h : k.isBracket = false) (bs : List Kind) :
    Kind.settle bs k = some bs := by
  rw [Kind.isBracket, Bool.or_eq_false_iff] at h
  simp [Kind.settle, h.1, h.2]

theorem settle_opener {k k' : Kind} (h : k.closer? = some k') (bs : List Kind) :
    Kind.settle bs k = some (k :: bs) := by
  simp [Kind.settle, h]

theorem settle_closer {k k' : Kind} (h : k.closer? = some k') (bs : List Kind) :
    Kind.settle (k :: bs) k' = some bs := by
  cases k <;> first | (cases h; done) | (obtain rfl := Option.some.inj h; rfl)

/-- Nested tokens leave the open brackets as they were. -/
theorem balance_append_of_nested {ts : List Token} (h : Nested ts) (bs : List Kind) (e : Nat)
    (us : List Token) : ∃ e', balance bs e (ts ++ us) = balance bs e' us := by
  induction h generalizing bs e us with
  | nil => exact ⟨e, rfl⟩
  | @other t ts ht _ ih =>
      rw [List.cons_append, balance_cons (settle_of_isBracket ht bs)]
      exact ih bs _ us
  | @pair l r ts vs hlr _ _ ih ih' =>
      rw [List.cons_append, List.append_assoc, List.cons_append,
        balance_cons (settle_opener hlr bs)]
      obtain ⟨e₁, h₁⟩ := ih (l.kind :: bs) (e + l.surplus) (r :: (vs ++ us))
      rw [h₁, balance_cons (settle_closer hlr bs)]
      exact ih' bs _ us

/-- The verdict on nested tokens hangs on the quote at their end. -/
theorem verdict_of_nested {ts : List Token} (h : Nested ts) :
    verdict ts = if ts.getLast?.any isUnclosed then .incomplete else .valid := by
  obtain ⟨e, hbalance⟩ := balance_append_of_nested h [] 0 []
  rw [List.append_nil] at hbalance
  rw [verdict, verdictFrom, hbalance, balance]
  rfl

/-- **A program is never held back for a bracket.**  An input that is read without a syntax error is
incomplete if its last token is a string without a closing quote, and else it is valid. -/
theorem judge_of_parse {w : String} (h : (parse w).errors = []) :
    judge w = if (tokens w).getLast?.any isUnclosed then .incomplete else .valid := by
  have hspelled : (parse w).program.Spelled id false (tokens w) :=
    (@parse_sound w (fun _ => True) (by simp)).2 h
  rw [judge_eq_verdict_tokens, verdict_of_nested hspelled.nested]

/-- A function with a table, an array and an index in its body, and a program that ends in a
string. -/
theorem judge_of_parse_function :
    ((parse "let f = fn(a) { {1: [a, (2)]}[1][0] }; f(3)").errors = [] ∧
      judge "let f = fn(a) { {1: [a, (2)]}[1][0] }; f(3)" = .valid) ∧
    (parse "let s = \"\x7d").errors = [] ∧ judge "let s = \"\x7d" = .incomplete := by
  have hfunction : (parse "let f = fn(a) { {1: [a, (2)]}[1][0] }; f(3)").errors = [] := by
    decide +kernel
  have hstring : (parse "let s = \"\x7d").errors = [] := by decide +kernel
  refine ⟨⟨hfunction, ?_⟩, hstring, ?_⟩
  · rw [judge_of_parse hfunction]
    decide +kernel
  · rw [judge_of_parse hstring]
    decide +kernel

end Prompt

end Treewalk
