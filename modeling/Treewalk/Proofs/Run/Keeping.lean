import Treewalk.Run.Eval

/-! # What a step keeps

`Keeps I m P` says that whenever the step `m` ends, started in a store that satisfies `I`, the store
it leaves satisfies `I` and its result satisfies `P`.  Nothing is said of a step that runs out of
its count.  It is preserved by the combinators, so a function of the evaluator is followed step by
step. -/

namespace Treewalk

variable {μ : Type}

namespace Run

variable {α β : Type} {I : Store μ → Prop} {P Q : α → Prop}

/-- Whenever a step ends it has kept `I`, and its result satisfies `P`. -/
def Keeps (I : Store μ → Prop) (m : Run μ α) (P : α → Prop) : Prop :=
  ∀ ⦃s s' : Store μ⦄ ⦃a : α⦄, I s → m s = some (a, s') → I s' ∧ P a

theorem Keeps.mono {m : Run μ α} (h : Keeps I m P) (hPQ : ∀ a, P a → Q a) : Keeps I m Q := by
  intro s s' a hs hm
  obtain ⟨hs', ha⟩ := h hs hm
  exact ⟨hs', hPQ a ha⟩

theorem Keeps.pure {a : α} (h : P a) : Keeps I (Pure.pure a) P := by
  rintro s _ _ hs ⟨⟩
  exact ⟨hs, h⟩

/-- A step after another ends when both do. -/
theorem exists_of_bind {m : Run μ α} {f : α → Run μ β} {s s' : Store μ} {b : β}
    (h : (m >>= f) s = some (b, s')) :
    ∃ a t, m s = some (a, t) ∧ f a t = some (b, s') := by
  cases hr : m s with
  | none =>
      have hnone : (m >>= f) s = none := by simp [Bind.bind, StateT.bind, hr]
      rw [hnone] at h
      cases h
  | some r =>
      obtain ⟨a, t⟩ := r
      have hsome : (m >>= f) s = f a t := by simp [Bind.bind, StateT.bind, hr]
      rw [hsome] at h
      exact ⟨a, t, rfl, h⟩

/-- A control value of a part is that of the whole. -/
theorem onValue_of_isControl {m : Run μ (Value μ)} {next : Value μ → Run μ (Value μ)} {v : Value μ}
    {s t : Store μ}
    (h : m s = some (v, t)) (hv : v.isControl = true) : onValue m next s = some (v, t) := by
  change (m s).bind _ = _
  rw [h]
  change (if v.isControl then pure v else next v) t = _
  rw [if_pos hv]
  rfl

theorem onValue_of_not_isControl {m : Run μ (Value μ)} {next : Value μ → Run μ (Value μ)}
    {v : Value μ} {s t : Store μ} (h : m s = some (v, t)) (hv : v.isControl = false) :
    onValue m next s = next v t := by
  change (m s).bind _ = _
  rw [h]
  change (if v.isControl then pure v else next v) t = _
  rw [hv]
  rfl

theorem Keeps.bind {m : Run μ α} {f : α → Run μ β} {R : β → Prop} (h : Keeps I m P)
    (hf : ∀ a, P a → Keeps I (f a) R) : Keeps I (m >>= f) R := by
  intro s s' b hs hm
  obtain ⟨a, t, hr, hrest⟩ := exists_of_bind hm
  obtain ⟨ht, ha⟩ := h hs hr
  exact hf a ha ht hrest

theorem Keeps.exhausted : Keeps I (exhausted : Run μ α) P := by
  rintro s s' a - ⟨⟩

/-- A change of the store that keeps `I`, whatever its result. -/
theorem Keeps.step {f : Store μ → α × Store μ} (h : ∀ s, I s → I (f s).2 ∧ P (f s).1) :
    Keeps I (fun s => some (f s)) P := by
  intro s s' a hs hm
  have hf := h s hs
  rwa [Option.some.inj hm] at hf

theorem Keeps.ite {c : Prop} [Decidable c] {m m' : Run μ α} (h : c → Keeps I m P)
    (h' : ¬ c → Keeps I m' P) : Keeps I (if c then m else m') P := by
  by_cases hc : c
  · rw [if_pos hc]
    exact h hc
  · rw [if_neg hc]
    exact h' hc

end Run

end Treewalk
