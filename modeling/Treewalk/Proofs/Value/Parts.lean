import Treewalk.Proofs.Value.Indexed
import Treewalk.Proofs.Value.Relabelled

/-! # The values inside a value

Let `made` be a list of all that was given an identity in a run, in the order of the identities.

* `Value.parts` lists a value and all values inside it, at any depth.
* `Listed made v` says that `v`, if it has an identity, stands in `made` at that position.  So two
  values in the list with one identity are one value (`apply_eq_iff_of_listed`), and a value with the
  next identity equals none of them (`apply_eq_of_fresh`).
* `From made v` says that all parts of `v` are listed.  An operator gives no parts, and an index none
  but those of its target. -/

namespace Treewalk

variable {μ : Type}

namespace Value

mutual

/-- A value and the values inside it, at any depth. -/
def parts : Value μ → List (Value μ)
  | returned v => returned v :: v.parts
  | array i vs => array i vs :: partsIn vs
  | table i es => table i es :: partsInEntries es
  | v => [v]

def partsIn : List (Value μ) → List (Value μ)
  | [] => []
  | v :: vs => v.parts ++ partsIn vs

def partsInEntries : List (Key × Value μ × Value μ) → List (Value μ)
  | [] => []
  | (_, k, v) :: es => k.parts ++ (v.parts ++ partsInEntries es)

end

/-- A value with an identity stands in a list at that position. -/
def Listed (made : List (Value μ)) (v : Value μ) : Prop :=
  ∀ i, v.identity? = some i → made[i]? = some v

/-- A value and all values inside it are listed. -/
def From (made : List (Value μ)) (v : Value μ) : Prop :=
  ∀ w ∈ v.parts, w.Listed made

/-- Whether a value is a function, an array or a table. -/
def isComposite : Value μ → Bool
  | function _ _ _ _ | array _ _ | table _ _ => true
  | _ => false

variable {made made' : List (Value μ)} {v w : Value μ}

theorem mem_parts_self (v : Value μ) : v ∈ v.parts := by
  cases v <;> exact List.mem_cons_self

theorem Listed.mono (h : v.Listed made) (hmade : made <+: made') : v.Listed made' := by
  intro i hi
  obtain ⟨new, rfl⟩ := hmade
  have hlt := (List.getElem?_eq_some_iff.1 (h i hi)).1
  rw [List.getElem?_append_left hlt, h i hi]

theorem listed_of_identity?_eq_none (h : v.identity? = none) : v.Listed made := by
  intro i hi
  rw [h] at hi
  cases hi

theorem listed_concat (h : v.identity? = some made.length) : v.Listed (made ++ [v]) := by
  intro i hi
  obtain rfl := Option.some.inj (hi.symm.trans h)
  exact List.getElem?_concat_length

theorem From.listed (h : v.From made) : v.Listed made :=
  h v v.mem_parts_self

theorem From.mono (h : v.From made) (hmade : made <+: made') : v.From made' :=
  fun w hw => (h w hw).mono hmade

theorem from_of_parts_eq (h : v.parts = [v]) (hv : v.Listed made) : v.From made := by
  intro w hw
  rw [h] at hw
  rwa [List.mem_singleton.1 hw]

theorem from_of_isScalar (h : v.isScalar = true) : v.From made := by
  cases v with
  | returned v => cases h
  | function i params body frame => cases h
  | array i vs => cases h
  | table i es => cases h
  | builtin i b => cases h
  | _ => exact from_of_parts_eq rfl (listed_of_identity?_eq_none rfl)

theorem from_error (e : Fault) : (error e).From made :=
  from_of_parts_eq rfl (listed_of_identity?_eq_none rfl)

theorem from_returned_iff : (returned v).From made ↔ v.From made := by
  change (∀ w ∈ returned v :: v.parts, w.Listed made) ↔ _
  rw [List.forall_mem_cons]
  exact and_iff_right (listed_of_identity?_eq_none rfl)

theorem from_array_iff {i : Nat} {vs : List (Value μ)} :
    (array i vs).From made ↔ (array i vs).Listed made ∧ ∀ v ∈ vs, v.From made := by
  have hin : (∀ w ∈ partsIn vs, w.Listed made) ↔ ∀ v ∈ vs, v.From made := by
    induction vs with
    | nil => simp [partsIn]
    | cons v vs ih =>
        rw [partsIn, List.forall_mem_append, ih, List.forall_mem_cons]
        exact Iff.rfl
  rw [← hin, ← List.forall_mem_cons]
  exact Iff.rfl

theorem from_table_iff {i : Nat} {es : List (Key × Value μ × Value μ)} :
    (table i es).From made ↔
      (table i es).Listed made ∧ ∀ e ∈ es, e.2.1.From made ∧ e.2.2.From made := by
  have hin : (∀ w ∈ partsInEntries es, w.Listed made) ↔
      ∀ e ∈ es, e.2.1.From made ∧ e.2.2.From made := by
    induction es with
    | nil => simp [partsInEntries]
    | cons e es ih =>
        obtain ⟨h, k, v⟩ := e
        rw [partsInEntries, List.forall_mem_append, List.forall_mem_append, ih,
          List.forall_mem_cons, and_assoc]
        exact Iff.rfl
  rw [← hin, ← List.forall_mem_cons]
  exact Iff.rfl

theorem from_getD {x : Option (Value μ)} (h : ∀ v, x = some v → v.From made) :
    (x.getD .null).From made := by
  cases x with
  | none => exact from_of_isScalar rfl
  | some v => exact h v rfl

/-- What an index gives is inside its target, or `null`. -/
theorem from_index {target key : Value μ} (h : target.From made) (hv : target.index key = .ok v) :
    v.From made := by
  unfold index at hv
  split at hv
  · obtain rfl := Except.ok.inj hv
    unfold itemAt
    split
    · exact from_getD fun v hv => (from_array_iff.1 h).2 v (List.mem_of_getElem? hv)
    · exact from_of_isScalar rfl
  · split at hv
    · obtain rfl := Except.ok.inj hv
      unfold entryAt
      split
      · rename_i e he
        rw [Table.find?_eq_map_find?, Option.map_eq_some_iff] at he
        obtain ⟨d, hd, rfl⟩ := he
        exact ((from_table_iff.1 h).2 d (List.mem_of_find?_eq_some hd)).2
      · exact from_of_isScalar rfl
    · cases hv
  · cases hv

/-! ### Which values are equal -/

theorem same_eq_of_identity? {i : Nat} (h : v.identity? = some i) (w : Value μ) :
    v.same w = (w.identity? == some i) := by
  cases v <;> cases w <;> simp_all [same, identity?, eq_comm]

theorem same_comm (v w : Value μ) : v.same w = w.same v := by
  cases v <;> cases w <;> simp [same, identity?, Bool.beq_comm]

theorem isScalar_of_identity? {i : Nat} (h : v.identity? = some i) : v.isScalar = false := by
  cases v with
  | function j params body frame => rfl
  | builtin j b => rfl
  | array j vs => rfl
  | table j es => rfl
  | _ => cases h

theorem isControl_of_isComposite (h : v.isComposite = true) : v.isControl = false := by
  cases v with
  | returned v => cases h
  | error e => cases h
  | _ => rfl

theorem identity?_of_isComposite (h : v.isComposite = true) : ∃ i, v.identity? = some i := by
  cases v with
  | function i params body frame => exact ⟨i, rfl⟩
  | array i vs => exact ⟨i, rfl⟩
  | table i es => exact ⟨i, rfl⟩
  | _ => cases h

/-- A value with an identity is equal to just the values with this identity. -/
theorem apply_eq_of_identity? {i : Nat} (h : v.identity? = some i) (w : Value μ) :
    BinaryOp.eq.apply v w = .ok (.bool (w.identity? == some i)) := by
  rw [BinaryOp.apply_eq_onIdentities .eq (.inl (isScalar_of_identity? h)), ← same_eq_of_identity? h]
  rfl

theorem apply_eq_comm {i : Nat} (h : v.identity? = some i) (w : Value μ) :
    BinaryOp.eq.apply w v = BinaryOp.eq.apply v w := by
  rw [BinaryOp.apply_eq_onIdentities .eq (.inl (isScalar_of_identity? h)),
    BinaryOp.apply_eq_onIdentities .eq (.inr (isScalar_of_identity? h)), BinaryOp.onIdentities,
    BinaryOp.onIdentities, same_comm]

theorem apply_eq_self {i : Nat} (h : v.identity? = some i) :
    BinaryOp.eq.apply v v = .ok (.bool true) := by
  rw [apply_eq_of_identity? h, h, beq_self_eq_true]

/-- Two listed values are equal just when they are one and the same entry of the list. -/
theorem apply_eq_iff_of_listed {i : Nat} (h : v.identity? = some i) (hv : v.Listed made)
    (hw : w.Listed made) : BinaryOp.eq.apply v w = .ok (.bool true) ↔
      ∃ j : Nat, made[j]? = some v ∧ made[j]? = some w := by
  constructor
  · intro heq
    rw [apply_eq_of_identity? h] at heq
    have hsame : w.identity? = some i := by simpa using heq
    exact ⟨i, hv i h, hw i hsame⟩
  · rintro ⟨j, hj, hj'⟩
    obtain rfl := Option.some.inj (hj.symm.trans hj')
    exact apply_eq_self h

/-- A value with the next identity equals no listed one. -/
theorem apply_eq_of_fresh (h : v.identity? = some made.length) (hw : w.Listed made) :
    BinaryOp.eq.apply v w = .ok (.bool false) := by
  have hne : w.identity? ≠ some made.length := by
    intro heq
    have hnone : made[made.length]? = none := List.getElem?_eq_none (Nat.le_refl _)
    rw [hw _ heq] at hnone
    cases hnone
  rw [apply_eq_of_identity? h, beq_eq_false_iff_ne.2 hne]

end Value

end Treewalk
