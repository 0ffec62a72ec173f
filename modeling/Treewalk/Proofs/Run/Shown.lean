import Treewalk.Proofs.Run.Wrapped
import Treewalk.Proofs.Syntax.Rendered
import Treewalk.Session

/-! # Reading back an integer that was shown

A session that reads the decimal form of an integer gives the integer, unless it is the least one.

* The form of a negative number is a minus sign before that of its negation (`text_of_neg`), and reads
  as an operator before a literal (`parse_minus_text`).
* What a session makes of a text of one expression does not depend on marks (`fst_feed_of_int`).
* The least integer has no negation.  The digits of its form are out of range for a literal, whatever
  stands before them (`errors_parse_minimum`). -/

namespace Treewalk

open Token

/-! ### Decimal forms -/

/-- All integers but the least have a negation. -/
theorem toInt_neg_of_ne {n : Int64} (hmin : n ≠ Int64.minValue) : (-n).toInt = -n.toInt := by
  have hne : n.toInt ≠ -2 ^ 63 := by rwa [← Int64.toInt_minValue, Ne, Int64.toInt_inj]
  have hlow := Int64.le_toInt n
  have hhigh := Int64.toInt_lt n
  rw [Int64.toInt_neg, Int.bmod_eq_of_le] <;> omega

/-- The form of a negative number, unless it has no negation. -/
theorem text_of_neg {n : Int64} (h : n.toInt < 0) (hmin : n ≠ Int64.minValue) :
    Integer.text n = "-" ++ Integer.text (-n) ∧ 0 ≤ -n := by
  have hneg := toInt_neg_of_ne hmin
  have hle : ¬ (-n).toInt < 0 := by omega
  constructor
  · rw [Integer.text, Integer.text, if_pos h, if_neg hle, hneg, Int.natAbs_neg,
      ← List.singleton_append, String.ofList_append]
  · exact Int64.le_iff_toInt_le.2 (Int.not_lt.1 hle)

/-! ### Reading -/

theorem spelled_int {v : Int64} (h : 0 ≤ v) :
    Expr.Bare unmark true (.int () v) [.bare .int (Integer.text v)] :=
  .int (shows_text h)

/-- A number that is not negative reads as a literal. -/
theorem parse_text {v : Int64} (h : 0 ≤ v) : (parse (Integer.text v)).errors = [] ∧
    (parse (Integer.text v)).program.map unmark = [.expr () (.int () v)] := by
  have hspelled : Program.Spelled unmark true [.expr () (.int () v)] [.bare .int (Integer.text v)] :=
    .cons (.expr (.bare id (spelled_int h))) .none (fun _ h => absurd rfl h) .nil
  refine parse_of_written hspelled ?_
  have hwritten := writes_int h (fun _ hc => by cases hc) .nil
  rwa [List.append_nil, List.append_nil] at hwritten

theorem parse_minus_text {v : Int64} (h : 0 ≤ v) : (parse ("-" ++ Integer.text v)).errors = [] ∧
    (parse ("-" ++ Integer.text v)).program.map unmark =
      [.expr () (.unary () .neg (.int () v))] := by
  have hneg : Expr.Bare unmark true (.unary () .neg (.int () v))
      [Kind.token .minus, .bare .int (Integer.text v)] :=
    .unary (t := Kind.token .minus) (Kind.is_token .minus) (.bare id (spelled_int h))
  have hspelled : Program.Spelled unmark true [.expr () (.unary () .neg (.int () v))]
      [Kind.token .minus, .bare .int (Integer.text v)] :=
    .cons (.expr (.bare id hneg)) .none (fun _ h => absurd rfl h) .nil
  refine parse_of_written hspelled ?_
  have hwritten := writes_int h (fun _ hc => by cases hc) .nil
  rw [List.append_nil, List.append_nil] at hwritten
  rw [String.toList_append]
  exact .symbol rfl rfl hwritten

/-! ### Running -/

namespace Session

/-- A session that reads a text of one expression, which gives an integer whatever its marks are,
gives that integer. -/
theorem fst_feed_of_int {source : String} {e : Expr Unit} {n : Int64}
    (hparse : (parse source).errors = [] ∧ (parse source).program.map unmark = [.expr () e])
    (heval : ∀ (e' : Expr Token), e'.map unmark = e → ∀ k frame t,
      Run.eval (k + 2) e' frame t = some (.int n, t)) (s : Session Token) :
    (s.feed source false).map Prod.fst = some ⟨[], some ⟨some (.int n), none, []⟩⟩ := by
  obtain ⟨herrors, hprogram⟩ := hparse
  obtain ⟨k, hk⟩ : ∃ k, depth = k + 2 := ⟨depth - 2, by decide⟩
  unfold feed
  generalize parse source = parsed at herrors hprogram
  obtain ⟨p, es⟩ := parsed
  obtain rfl : es = [] := herrors
  obtain ⟨st, rfl, hst⟩ := List.map_eq_singleton_iff.1 hprogram
  cases st with
  | expr m e' =>
      have hrun : s.run [.expr m e'] =
          some (⟨some (.int n), none, []⟩, { s with store := { s.store with events := [] } }) := by
        change (Run.evalProgram depth [.expr m e'] s.frame _).bind _ = _
        rw [Run.evalProgram_expr, hk, heval e' (Stmt.expr.inj hst).2]
        rfl
      simp only [List.isEmpty_nil, Bool.true_or, if_true, hrun]
      rfl
  | bind _ _ _ => cases hst
  | ret _ value => cases value <;> cases hst

end Session

/-- A literal gives its number, whatever its mark is. -/
theorem eval_int {v : Int64} {e : Expr Token} (he : e.map unmark = .int () v) (k frame : Nat)
    (t : Store Token) : Run.eval (k + 1) e frame t = some (.int v, t) := by
  cases e with
  | int _ w =>
      obtain rfl := (Expr.int.inj he).2
      rfl
  | cond _ _ _ no => cases no <;> cases he
  | _ => cases he

theorem eval_neg_int {n v : Int64} (hv : -v.toInt = n.toInt) {e : Expr Token}
    (he : e.map unmark = .unary () .neg (.int () v)) (k frame : Nat) (t : Store Token) :
    Run.eval (k + 2) e frame t = some (.int n, t) := by
  have happly : UnaryOp.neg.apply (.int v : Value Token) = .ok (.int n) := by
    rw [UnaryOp.apply, exact, hv, Integer.ofInt?_toInt]
  cases e with
  | unary m op operand =>
      obtain ⟨-, rfl, hoperand⟩ := Expr.unary.inj he
      change Run.onValue (Run.eval (k + 1) operand frame) _ t = _
      rw [Run.onValue_of_not_isControl (eval_int hoperand k frame t) rfl, happly]
      rfl
  | cond _ _ _ no => cases no <;> cases he
  | _ => cases he

/-- The digits of the least integer are those of a number that is out of range. -/
theorem errors_parse_minimum : (parse (Value.int Int64.minValue : Value Token).inspect).errors.map
    SyntaxError.message = ["could not parse 9223372036854775808 as integer"] := by
  decide +kernel

/-- **An integer reads back from what is shown of it**, in any session and without a fault, unless it
is the least one. -/
theorem int_reads_back_iff (s : Session Token) (n : Int64) :
    (s.feed (Value.int n : Value Token).inspect false).map Prod.fst =
      some ⟨[], some ⟨some (.int n), none, []⟩⟩ ↔ n ≠ Int64.minValue := by
  constructor
  · rintro h rfl
    have herrors := errors_parse_minimum
    obtain ⟨⟨step, s'⟩, hfeed, rfl⟩ := Option.map_eq_some_iff.1 h
    rw [← (Session.feed_cases hfeed).1] at herrors
    cases herrors
  · intro hmin
    change (s.feed (Integer.text n) false).map Prod.fst = _
    by_cases hneg : n.toInt < 0
    · obtain ⟨htext, hnonneg⟩ := text_of_neg hneg hmin
      have hvalue : -(-n).toInt = n.toInt := by rw [toInt_neg_of_ne hmin, Int.neg_neg]
      rw [htext]
      exact s.fst_feed_of_int (parse_minus_text hnonneg) fun e he k => eval_neg_int hvalue he k
    · have hnonneg : 0 ≤ n := Int64.le_iff_toInt_le.2 (Int.not_lt.1 hneg)
      exact s.fst_feed_of_int (parse_text hnonneg) fun e he k => eval_int he (k + 1)

/-- A fresh session does not read back the least integer. -/
theorem not_int_reads_back :
    (Value.int Int64.minValue : Value Token).inspect = "-9223372036854775808" ∧
      ¬ ∀ n : Int64, (Session.start.feed (Value.int n : Value Token).inspect false).map Prod.fst =
        some ⟨[], some ⟨some (.int n), none, []⟩⟩ := by
  refine ⟨by decide +kernel, fun hall => ?_⟩
  have herrors := errors_parse_minimum
  obtain ⟨⟨step, s'⟩, hfeed, rfl⟩ := Option.map_eq_some_iff.1 (hall Int64.minValue)
  rw [← (Session.feed_cases hfeed).1] at herrors
  cases herrors

end Treewalk
