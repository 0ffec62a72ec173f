import Treewalk.Proofs.Run.Alongside
import Treewalk.Proofs.Run.Keeping
import Treewalk.Proofs.Run.Path

/-! # Statements that run through

* A run that ends within a count of nested steps ends in the same way within any larger one
  (`evalProgram_mono`): it runs side by side with itself.  So it makes sense to say what a program
  gives (`Gives`), whatever the count.
* It binds no names but those of its program, and of the functions that the store holds
  (`speaks_evalProgram`).
* Statements run through if each of them ends and none gives a control value, that is, if neither a
  fault nor a return stops them (`RunsThrough`).  Just then what follows them is run too
  (`evalBody_append`). -/

namespace Treewalk

variable {μ : Type}

/-- All names that are bound in a store satisfy `ok`, and all in the functions that it holds. -/
def Store.Speaks (ok : String → Prop) (s : Store μ) : Prop :=
  ∀ i name v, s.local? i name = some v → ok name ∧ v.Speaks ok

namespace Run

/-! ### Larger counts -/

variable {ok : String → Prop} {k l : Nat} {p : Program μ} {frame : Nat} {s s' t : Store μ}
  {r : Option (Value μ)}

/-- A run goes side by side with itself, and keeps to the names of its program. -/
theorem mirrors_speaks [Mark μ] (ok : String → Prop) :
    Mirrors .id ok fun (s t : Store μ) => t = s ∧ s.Speaks ok where
  note {s t} e h := by
    obtain ⟨rfl, hs⟩ := h
    rw [Event.relabel_id]
    exact ⟨rfl, hs⟩
  newIdentity {s t} h := by
    obtain ⟨rfl, hs⟩ := h
    exact ⟨rfl, rfl, hs⟩
  lookup {s t frame name} h _ := by
    obtain ⟨rfl, hs⟩ := h
    refine ⟨?_, fun v hv => ?_⟩
    · change t.lookup frame name = _
      cases t.lookup frame name with
      | none => rfl
      | some v => rw [Option.map_some, Value.relabel_id]
    · obtain ⟨i, -, hi⟩ := List.exists_of_findSome?_eq_some hv
      exact (hs i name v hi).2
  enter {s t} outer h := by
    obtain ⟨rfl, hs⟩ := h
    refine ⟨rfl, rfl, fun i name v hv => ?_⟩
    rw [Store.local?_newFrame] at hv
    exact hs i name v hv
  define {s t frame name v} h hname hv := by
    obtain ⟨rfl, hs⟩ := h
    rw [Value.relabel_id]
    refine ⟨rfl, fun i name' w hw => ?_⟩
    by_cases hframe : frame < t.frames.size
    · rw [Store.local?_define_eq hframe] at hw
      split at hw
      · rename_i heq
        obtain rfl := Option.some.inj hw
        exact ⟨heq.2 ▸ hname, hv⟩
      · exact hs i name' w hw
    · rw [Store.local?_define_of_le (Nat.le_of_not_lt hframe)] at hw
      exact hs i name' w hw

theorem evalProgram_of_speaks [Mark μ] (hp : Named ok (Stmt.allLeaves p)) (hs : s.Speaks ok)
    (h : evalProgram k p frame s = some (r, s')) (hkl : k ≤ l) :
    evalProgram l p frame s = some (r, s') ∧ s'.Speaks ok := by
  have htracks := tracks_evalProgram_self (mirrors_speaks ok) rfl (.inr ⟨trivial, hkl⟩) frame hp
    ⟨rfl, hs⟩
  rcases htracks with ⟨-, hnone⟩ | hrel
  · rw [h] at hnone
    cases hnone
  · change Option.Rel _ _ (evalProgram l p frame s) at hrel
    rw [h] at hrel
    generalize evalProgram l p frame s = y at hrel ⊢
    cases hrel with
    | some hxy =>
        obtain ⟨hr, -, hs', hspeaks⟩ := hxy
        refine ⟨?_, hspeaks⟩
        cases r with
        | none => exact congrArg some (Prod.ext hr hs')
        | some v =>
            rw [Option.map_some, Value.relabel_id] at hr
            exact congrArg some (Prod.ext hr hs')

theorem evalProgram_mono [Mark μ] (h : evalProgram k p frame s = some (r, s')) (hkl : k ≤ l) :
    evalProgram l p frame s = some (r, s') := by
  have hs : s.Speaks fun _ => True :=
    fun _ _ _ _ => ⟨trivial, fun _ _ => ⟨fun _ _ => trivial, fun _ _ => trivial⟩⟩
  exact (evalProgram_of_speaks (fun _ _ => trivial) hs h hkl).1

/-- A run keeps to the names of its program and of the store. -/
theorem speaks_evalProgram [Mark μ] (hp : Named ok (Stmt.allLeaves p)) (hs : s.Speaks ok)
    (h : evalProgram k p frame s = some (r, s')) : s'.Speaks ok :=
  (evalProgram_of_speaks hp hs h (Nat.le_refl k)).2

theorem evaluate_eq_some_iff [Mark μ] {n : Nat} :
    evaluate n p frame s = some (r, s') ↔
      ∃ r₀, evalProgram n p frame s = some (r₀, s') ∧ r = settle r₀ := by
  constructor
  · intro h
    obtain ⟨r₀, t, hrun, hpure⟩ := exists_of_bind h
    obtain ⟨⟩ := hpure
    exact ⟨r₀, hrun, rfl⟩
  · rintro ⟨r₀, hrun, rfl⟩
    change (evalProgram n p frame s).bind _ = _
    rw [hrun]
    rfl

theorem evaluate_mono [Mark μ] (h : evaluate k p frame s = some (r, s')) (hkl : k ≤ l) :
    evaluate l p frame s = some (r, s') := by
  obtain ⟨r₀, hrun, hr⟩ := evaluate_eq_some_iff.1 h
  exact evaluate_eq_some_iff.2 ⟨r₀, evalProgram_mono hrun hkl, hr⟩

/-- Run in a frame, a program gives a result and leaves a store. -/
def Gives [Mark μ] (p : Program μ) (frame : Nat) (s : Store μ) (r : Option (Value μ))
    (s' : Store μ) : Prop :=
  ∃ n, evaluate n p frame s = some (r, s')

/-! ### Statements that nothing stops -/

/-- The statements run one after the other, and none of them gives a control value. -/
inductive RunsThrough (ev : Evaluator μ) (frame : Nat) : List (Stmt μ) → Store μ → Store μ → Prop
  | nil (s : Store μ) : RunsThrough ev frame [] s s
  | cons {st : Stmt μ} {ss : List (Stmt μ)} {s t s' : Store μ} {r : Option (Value μ)}
      (hst : evalStmt ev frame st s = some (r, t)) (hr : r.any Value.isControl = false)
      (hss : RunsThrough ev frame ss t s') : RunsThrough ev frame (st :: ss) s s'

variable {ev : Evaluator μ} {ss rs : List (Stmt μ)} {st : Stmt μ}

/-- What is done with the rest of the statements after one that was run. -/
theorem evalBody_cons {last : Option (Value μ)} (h : evalStmt ev frame st s = some (r, t)) :
    evalBody ev frame last (st :: ss) s =
      if r.any Value.isControl then some (r, t) else evalBody ev frame r ss t := by
  change (evalStmt ev frame st s).bind _ = _
  rw [h]
  simp only [Option.bind_some]
  split <;> rfl

/-- Statements run through just when their result is no control value. -/
theorem runsThrough_iff (last : Option (Value μ)) (hlast : last.any Value.isControl = false) :
    RunsThrough ev frame ss s s' ↔
      ∃ r, evalBody ev frame last ss s = some (r, s') ∧ r.any Value.isControl = false := by
  constructor
  · intro h
    induction h generalizing last with
    | nil s => exact ⟨last, rfl, hlast⟩
    | cons hst hr _ ih =>
        obtain ⟨r', hrest, hr'⟩ := ih _ hr
        exact ⟨r', by rw [evalBody_cons hst, hr]; exact hrest, hr'⟩
  · rintro ⟨r, h, hr⟩
    induction ss generalizing s last with
    | nil =>
        obtain ⟨⟩ := h
        exact .nil _
    | cons st ss ih =>
        obtain ⟨r₁, t, hst, -⟩ := exists_of_bind h
        rw [evalBody_cons hst] at h
        split at h
        · rename_i hc
          obtain ⟨⟩ := h
          rw [hr] at hc
          cases hc
        · rename_i hc
          rw [Bool.not_eq_true] at hc
          exact .cons hst hc (ih _ hc h)

/-- Statements that run through do so within any larger count. -/
theorem RunsThrough.mono [Mark μ] (h : RunsThrough (eval k) frame p s s') (hkl : k ≤ l) :
    RunsThrough (eval l) frame p s s' := by
  obtain ⟨r, hrun, hr⟩ := (runsThrough_iff none rfl).1 h
  exact (runsThrough_iff none rfl).2 ⟨r, evalProgram_mono hrun hkl, hr⟩

/-- After statements that run through, those that follow are run. -/
theorem evalBody_append (h : RunsThrough ev frame ss s t) (hrs : rs ≠ [])
    (last : Option (Value μ)) :
    evalBody ev frame last (ss ++ rs) s = evalBody ev frame none rs t := by
  induction h generalizing last with
  | nil s =>
      cases rs with
      | nil => exact absurd rfl hrs
      | cons st rs => rfl
  | cons hst hr _ ih =>
      rw [List.cons_append, evalBody_cons hst, hr]
      exact ih _

/-- After a program that runs through, one that is put behind it gives what it gives on its own. -/
theorem gives_append_iff [Mark μ] {q : Program μ} {n : Nat} (h : RunsThrough (eval n) frame p s t)
    (hq : q ≠ []) : Gives (p ++ q) frame s r s' ↔ Gives q frame t r s' := by
  have hrun : ∀ k, n ≤ k → evaluate k (p ++ q) frame s = evaluate k q frame t := by
    intro k hk
    change (evalBody (eval k) frame none (p ++ q) s).bind _ = (evalBody _ _ _ q t).bind _
    rw [evalBody_append (h.mono hk) hq]
  constructor
  · rintro ⟨m, hm⟩
    refine ⟨max n m, ?_⟩
    rw [← hrun _ (Nat.le_max_left n m)]
    exact evaluate_mono hm (Nat.le_max_right n m)
  · rintro ⟨m, hm⟩
    refine ⟨max n m, ?_⟩
    rw [hrun _ (Nat.le_max_left n m)]
    exact evaluate_mono hm (Nat.le_max_right n m)

end Run

end Treewalk
