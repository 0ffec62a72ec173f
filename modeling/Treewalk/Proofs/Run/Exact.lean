import Treewalk.Proofs.Run.Wrapped

/-! # Exact arithmetic

Expressions of integer literals, negatives, sums, differences and products, next to the whole
numbers they stand for.

* `Arith` are these expressions, `Arith.expr` is one as it is run, and `Arith.value` is the number
  that it stands for, whatever its size.
* `subtrees` lists the parts of an expression in the order in which a run comes to their results:
  the operands from left to right, then the operation.
* `Settles` says what a run has to give: the number itself if 64 bits hold it and those of all
  parts, and else the fault of the first operation whose number they do not hold.  It is passed on
  from the operands to the operation (`settles_negative`, `settles_combined`), so a run gives it
  (`exists_settles`).  No result is ever wrapped or rounded. -/

namespace Treewalk

variable {μ : Type}

/-- The operators between integers whose results are integers. -/
inductive ExactOp
  | add | sub | mul
deriving DecidableEq, Repr

namespace ExactOp

/-- The operator as it stands in a program. -/
def toBinaryOp : ExactOp → BinaryOp
  | add => .add
  | sub => .sub
  | mul => .mul

/-- The exact result of an operator. -/
def value : ExactOp → Int → Int → Int
  | add, a, b => a + b
  | sub, a, b => a - b
  | mul, a, b => a * b

/-- The operator gives its exact result, or the fault that names both operands. -/
theorem apply_toBinaryOp (op : ExactOp) (a b : Int64) :
    op.toBinaryOp.apply (.int a : Value μ) (.int b) =
      exact (op.value a.toInt b.toInt) (.arithmeticRange a op.toBinaryOp b) := by
  cases op <;> rfl

end ExactOp

/-- Expressions of integer literals, negatives, sums, differences and products, with the marks of
their nodes. -/
inductive Arith (μ : Type)
  | literal (mark : μ) (value : Int64)
  | negative (mark : μ) (operand : Arith μ)
  | combined (mark : μ) (left : Arith μ) (op : ExactOp) (right : Arith μ)

namespace Arith

/-- The expression as it is run. -/
def expr : Arith μ → Expr μ
  | literal m v => .int m v
  | negative m e => .unary m .neg e.expr
  | combined m l op r => .binary m l.expr op.toBinaryOp r.expr

/-- The whole number that the expression stands for. -/
def value : Arith μ → Int
  | literal _ v => v.toInt
  | negative _ e => -e.value
  | combined _ l op r => op.value l.value r.value

/-- How deep the parts are nested. -/
def height : Arith μ → Nat
  | literal _ _ => 1
  | negative _ e => e.height + 1
  | combined _ l _ r => max l.height r.height + 1

/-- The expression and all its parts, operands from left to right before their operation. -/
def subtrees : Arith μ → List (Arith μ)
  | literal m v => [literal m v]
  | negative m e => e.subtrees ++ [negative m e]
  | combined m l op r => l.subtrees ++ r.subtrees ++ [combined m l op r]

/-- 64 bits hold the number that the expression stands for. -/
def Fits (t : Arith μ) : Prop :=
  -0x8000000000000000 ≤ t.value ∧ t.value < 0x8000000000000000

instance (t : Arith μ) : Decidable t.Fits :=
  inferInstanceAs (Decidable (_ ∧ _))

/-- The fault of an operation names the numbers that its operands stand for. -/
inductive Faults : Arith μ → Fault → Prop
  | negative {m : μ} {e : Arith μ} {v : Int64} (hv : v.toInt = e.value) :
      Faults (negative m e) (.negationRange v)
  | combined {m : μ} {l r : Arith μ} {op : ExactOp} {a b : Int64} (ha : a.toInt = l.value)
      (hb : b.toInt = r.value) :
      Faults (combined m l op r) (.arithmeticRange a op.toBinaryOp b)

/-- Of all parts in their order, `u` is the first whose number 64 bits do not hold. -/
def FirstUnfit (t u : Arith μ) : Prop :=
  ∃ before after, t.subtrees = before ++ u :: after ∧ (∀ w ∈ before, w.Fits) ∧ ¬ u.Fits

/-- What a run of the expression gives, and the store it leaves. -/
inductive Settles (t : Arith μ) (s : Store μ) : Value μ → Store μ → Prop
  | exact {v : Int64} (hv : v.toInt = t.value) (hfits : ∀ u ∈ t.subtrees, u.Fits) :
      Settles t s (.int v) s
  | reported {u : Arith μ} {f : Fault} (hu : t.FirstUnfit u) (hf : u.Faults f) :
      Settles t s (.error f) { s with events := .failed f :: s.events }

theorem FirstUnfit.append {t u w : Arith μ} {after : List (Arith μ)} (h : t.FirstUnfit w)
    (hsubtrees : u.subtrees = t.subtrees ++ after) : u.FirstUnfit w := by
  obtain ⟨before, rest, hsplit, hbefore, hw⟩ := h
  refine ⟨before, rest ++ after, ?_, hbefore, hw⟩
  rw [hsubtrees, hsplit, List.append_assoc, List.cons_append]

/-- Parts that come before those of an operand and all fit leave its first that does not. -/
theorem FirstUnfit.prepend {t u w : Arith μ} {before after : List (Arith μ)} (h : t.FirstUnfit w)
    (hbefore : ∀ v ∈ before, v.Fits) (hsubtrees : u.subtrees = before ++ t.subtrees ++ after) :
    u.FirstUnfit w := by
  obtain ⟨before', rest, hsplit, hbefore', hw⟩ := h
  refine ⟨before ++ before', rest ++ after, ?_, ?_, hw⟩
  · rw [hsubtrees, hsplit]
    simp
  · exact List.forall_mem_append.2 ⟨hbefore, hbefore'⟩

theorem FirstUnfit.exists_mem {t u : Arith μ} (h : t.FirstUnfit u) :
    ∃ w ∈ t.subtrees, ¬ w.Fits := by
  obtain ⟨before, after, hsplit, -, hu⟩ := h
  exact ⟨u, by rw [hsplit]; exact List.mem_append_right _ List.mem_cons_self, hu⟩

theorem fits_literal (m : μ) (v : Int64) : (literal m v).Fits :=
  ⟨Int64.le_toInt v, Int64.toInt_lt v⟩

end Arith

namespace Run

open Arith

variable {n : Nat} {frame : Nat} {s t : Store μ}

/-! ### One operation -/

/-- An operation whose operands all fit gives its exact result or is the first that does not fit. -/
theorem settles_exact {t : Arith μ} {parts : List (Arith μ)} {f : Fault}
    (hsubtrees : t.subtrees = parts ++ [t]) (hparts : ∀ u ∈ parts, u.Fits) (hf : t.Faults f)
    (s : Store μ) : ∃ v s', ofExcept (exact t.value f) s = some (v, s') ∧ t.Settles s v s' := by
  rw [exact]
  cases h : Integer.ofInt? t.value with
  | some v =>
      have hv := Integer.toInt_of_ofInt? h
      have hfits : t.Fits := by
        rw [Arith.Fits, ← hv]
        exact ⟨Int64.le_toInt v, Int64.toInt_lt v⟩
      refine ⟨_, _, rfl, .exact hv ?_⟩
      rw [hsubtrees, List.forall_mem_append, List.forall_mem_singleton]
      exact ⟨hparts, hfits⟩
  | none =>
      have hunfit : ¬ t.Fits := by
        have hrange := Integer.ofInt?_eq_none_iff.1 h
        rw [Arith.Fits]
        omega
      exact ⟨_, _, rfl, .reported ⟨parts, [], hsubtrees, hparts, hunfit⟩ hf⟩

theorem settles_negative [Mark μ] (m : μ) {e : Arith μ}
    (he : ∃ v s', eval n e.expr frame s = some (v, s') ∧ e.Settles s v s') :
    ∃ v s', eval (n + 1) (negative m e).expr frame s = some (v, s') ∧
      (negative m e).Settles s v s' := by
  obtain ⟨v, s', hrun, hsettles⟩ := he
  cases hsettles with
  | exact hv hfits =>
      obtain ⟨w, t, happly, hw⟩ := settles_exact rfl hfits (Faults.negative (m := m) hv) s
      refine ⟨w, t, ?_, hw⟩
      change onValue (eval n e.expr frame) _ s = _
      rw [onValue_of_not_isControl hrun rfl, ← happly, Arith.value, ← hv]
      rfl
  | reported hu hf => exact ⟨_, _, onValue_of_isControl hrun rfl, .reported (hu.append rfl) hf⟩

/-- The right operand is run only if the left one gave a number. -/
theorem settles_combined [Mark μ] (m : μ) {l r : Arith μ} (op : ExactOp)
    (hl : ∃ v s', eval n l.expr frame s = some (v, s') ∧ l.Settles s v s')
    (hr : ∃ v s', eval n r.expr frame s = some (v, s') ∧ r.Settles s v s') :
    ∃ v s', eval (n + 1) (combined m l op r).expr frame s = some (v, s') ∧
      (combined m l op r).Settles s v s' := by
  have hsubtrees : (combined m l op r).subtrees =
      l.subtrees ++ (r.subtrees ++ [combined m l op r]) :=
    List.append_assoc _ _ _
  obtain ⟨v, s', hrunl, hsettles⟩ := hl
  cases hsettles with
  | reported hu hf =>
      exact ⟨_, _, onValue_of_isControl hrunl rfl, .reported (hu.append hsubtrees) hf⟩
  | @exact a ha hfitsl =>
      obtain ⟨w, t, hrunr, hsettles⟩ := hr
      have hrun : eval (n + 1) (combined m l op r).expr frame s =
          onValue (eval n r.expr frame)
            (fun w => ofExcept (op.toBinaryOp.apply (.int a) w)) s :=
        onValue_of_not_isControl hrunl rfl
      cases hsettles with
      | reported hu hf =>
          refine ⟨_, _, hrun.trans (onValue_of_isControl hrunr rfl), .reported ?_ hf⟩
          exact hu.prepend hfitsl rfl
      | @exact b hb hfitsr =>
          obtain ⟨v, t, happly, hv⟩ := settles_exact rfl
            (List.forall_mem_append.2 ⟨hfitsl, hfitsr⟩) (Faults.combined (m := m) ha hb) s
          refine ⟨v, t, ?_, hv⟩
          rw [hrun, onValue_of_not_isControl hrunr rfl, op.apply_toBinaryOp, ha, hb]
          exact happly

/-! ### A whole expression -/

theorem exists_settles [Mark μ] (t : Arith μ) (frame : Nat) (s : Store μ) (hn : t.height ≤ n) :
    ∃ v s', eval n t.expr frame s = some (v, s') ∧ t.Settles s v s' := by
  induction t generalizing n with
  | literal m v =>
      obtain ⟨n, rfl⟩ := Nat.exists_eq_add_one.2 (Nat.lt_of_lt_of_le Nat.zero_lt_one hn)
      refine ⟨.int v, s, rfl, .exact rfl ?_⟩
      exact List.forall_mem_singleton.2 (fits_literal m v)
  | negative m e ih =>
      obtain ⟨n, rfl⟩ := Nat.exists_eq_add_one.2 (Nat.lt_of_lt_of_le (Nat.succ_pos _) hn)
      exact settles_negative m (ih (Nat.le_of_succ_le_succ hn))
  | combined m l op r ihl ihr =>
      obtain ⟨n, rfl⟩ := Nat.exists_eq_add_one.2 (Nat.lt_of_lt_of_le (Nat.succ_pos _) hn)
      have hmax := Nat.max_le.1 (Nat.le_of_succ_le_succ hn)
      exact settles_combined m op (ihl hmax.1) (ihr hmax.2)

/-- **Integer arithmetic is exact or reported.**  Run in any frame of any store, an expression of
integer literals, negatives, sums, differences and products ends, and leaves the store as it was
but for a fault that is noted.

* If 64 bits hold the numbers of all its parts, it gives its number.
* Else it gives the fault of the first part, in the order in which a run comes to their results,
  whose number they do not hold.  The fault names the numbers of the operands there.

A program that is just this expression ends with the same value. -/
theorem arithmetic_exact_or_reported [Mark μ] (t : Arith μ) (frame : Nat) (s : Store μ) (n : Nat)
    (hn : t.height ≤ n) :
    ((∀ u ∈ t.subtrees, u.Fits) → ∃ v : Int64, v.toInt = t.value ∧
      eval n t.expr frame s = some (.int v, s) ∧
      ∀ m, evaluate n [.expr m t.expr] frame s = some (some (.int v), s)) ∧
    ((∃ u ∈ t.subtrees, ¬ u.Fits) → ∃ before u after f, t.subtrees = before ++ u :: after ∧
      (∀ w ∈ before, w.Fits) ∧ ¬ u.Fits ∧ u.Faults f ∧
      eval n t.expr frame s = some (.error f, { s with events := .failed f :: s.events }) ∧
      ∀ m, evaluate n [.expr m t.expr] frame s =
        some (some (.error f), { s with events := .failed f :: s.events })) := by
  obtain ⟨v, s', hrun, hsettles⟩ := exists_settles t frame s hn
  cases hsettles with
  | @exact v hv hfits =>
      refine ⟨fun _ => ⟨v, hv, hrun, fun m => ?_⟩, fun ⟨u, hu, hunfit⟩ =>
        absurd (hfits u hu) hunfit⟩
      rw [evaluate_expr, hrun]
      rfl
  | @reported u f hu hf =>
      refine ⟨fun hfits => ?_, fun _ => ?_⟩
      · obtain ⟨w, hw, hunfit⟩ := hu.exists_mem
        exact absurd (hfits w hw) hunfit
      · obtain ⟨before, after, hsplit, hbefore, hunfit⟩ := hu
        refine ⟨before, u, after, f, hsplit, hbefore, hunfit, hf, hrun, fun m => ?_⟩
        rw [evaluate_expr, hrun]
        rfl

/-- The expression `-(-9223372036854775807 - 1) * (9223372036854775807 + 1)`, which is out of range
at the first minus sign. -/
def negatedMinimum : Arith String :=
  .combined ""
    (.negative "" (.combined "" (.literal "" (-9223372036854775807)) .sub (.literal "" 1)))
    .mul (.combined "" (.literal "" 9223372036854775807) .add (.literal "" 1))

/-- The smallest number is exact, and its negative is the first that is not. -/
theorem arithmetic_exact_or_reported_minimum :
    (∃ v : Int64, v.toInt = -0x8000000000000000 ∧
      eval 2 (Arith.combined "" (.literal "" (-9223372036854775807)) .sub (.literal "" 1)).expr 0
        Store.empty = some (.int v, Store.empty)) ∧
    ∃ before u after f, negatedMinimum.subtrees = before ++ u :: after ∧
      (∀ w ∈ before, w.Fits) ∧ ¬ u.Fits ∧ u.Faults f ∧
      eval 4 negatedMinimum.expr 0 Store.empty =
        some (.error f, { Store.empty with events := [.failed f] }) := by
  have hminimum := (arithmetic_exact_or_reported (.combined "" (.literal "" (-9223372036854775807))
    .sub (.literal "" 1)) 0 Store.empty 2 (by decide)).1 (by decide)
  obtain ⟨v, hv, hrun, -⟩ := hminimum
  refine ⟨⟨v, hv.trans (by decide), hrun⟩, ?_⟩
  have hunfit : ∃ u ∈ negatedMinimum.subtrees, ¬ u.Fits :=
    ⟨negatedMinimum, by simp [negatedMinimum, subtrees], by decide⟩
  obtain ⟨before, u, after, f, hsplit, hbefore, hu, hf, hrun, -⟩ :=
    (arithmetic_exact_or_reported negatedMinimum 0 Store.empty 4 (by decide)).2 hunfit
  exact ⟨before, u, after, f, hsplit, hbefore, hu, hf, hrun⟩

end Run

end Treewalk
