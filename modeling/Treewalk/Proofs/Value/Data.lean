import Treewalk.Value.Operate

/-! # Values that can be stored

A value is **data** if it is not a control value and holds none, at any depth.

* An **outcome** is data or a fault: what a program or a call may end with.
* A value is **passing** if it is an outcome or a return of data: what may go from one part of a run
  to another.
* The operators make data out of data, or fail. -/

namespace Treewalk

variable {μ : Type}

namespace Value

mutual

/-- Whether a value is no control value and holds none in an array or a table, at any depth. -/
def isData : Value μ → Bool
  | returned _ | error _ => false
  | array _ vs => allData vs
  | table _ es => entriesData es
  | _ => true

def allData : List (Value μ) → Bool
  | [] => true
  | v :: vs => v.isData && allData vs

def entriesData : List (Key × Value μ × Value μ) → Bool
  | [] => true
  | (_, k, v) :: es => k.isData && (v.isData && entriesData es)

end

/-- Whether a value is data or a fault. -/
def isOutcome (v : Value μ) : Bool :=
  v.isData || v.isError

/-- Whether a value is data, a fault or a return of data. -/
def isPassing : Value μ → Bool
  | returned v => v.isData
  | v => v.isOutcome

theorem allData_iff {vs : List (Value μ)} : allData vs = true ↔ ∀ v ∈ vs, v.isData = true := by
  induction vs with
  | nil => simp [allData]
  | cons v vs ih => simp [allData, ih]

theorem entriesData_iff {es : List (Key × Value μ × Value μ)} :
    entriesData es = true ↔ ∀ e ∈ es, e.2.1.isData = true ∧ e.2.2.isData = true := by
  induction es with
  | nil => simp [entriesData]
  | cons e es ih =>
      obtain ⟨k, a, b⟩ := e
      simp [entriesData, ih, and_assoc]

theorem isOutcome_of_isData {v : Value μ} (h : v.isData = true) : v.isOutcome = true := by
  rw [isOutcome, h, Bool.true_or]

theorem isPassing_of_isOutcome {v : Value μ} (h : v.isOutcome = true) : v.isPassing = true := by
  cases v with
  | returned v => cases h
  | _ => exact h

theorem isPassing_of_isData {v : Value μ} (h : v.isData = true) : v.isPassing = true :=
  isPassing_of_isOutcome (isOutcome_of_isData h)

/-- What is passed on and is no control value can be stored. -/
theorem isData_of_isPassing {v : Value μ} (h : v.isPassing = true) (hc : v.isControl ≠ true) :
    v.isData = true := by
  cases v with
  | returned v => exact absurd rfl hc
  | error e => exact absurd rfl hc
  | _ => simpa [isPassing, isOutcome, isError] using h

/-- The operators that fail with a fault or give data. -/
def GivesData (r : Except Fault (Value μ)) : Prop :=
  ∀ v, r = .ok v → v.isData = true

theorem givesData_error (e : Fault) : GivesData (.error e : Except Fault (Value μ)) := by
  rintro v ⟨⟩

theorem givesData_ok {v : Value μ} (h : v.isData = true) : GivesData (.ok v) := by
  rintro w ⟨⟩
  exact h

theorem givesData_exact (n : Int) (e : Fault) : GivesData (exact n e : Except Fault (Value μ)) := by
  unfold exact
  split
  · exact givesData_ok rfl
  · exact givesData_error e

end Value

open Value

theorem UnaryOp.givesData_apply (op : UnaryOp) (v : Value μ) : GivesData (op.apply v) := by
  unfold UnaryOp.apply
  split
  · exact givesData_ok rfl
  · exact givesData_exact _ _
  · exact givesData_ok rfl
  · exact givesData_error _

namespace BinaryOp

variable (op : BinaryOp)

theorem givesData_onFloats (l r : Float) :
    GivesData (op.onFloats l r : Except Fault (Value μ)) := by
  cases op with
  | div =>
      simp only [onFloats]
      split
      · exact givesData_error _
      · exact givesData_ok rfl
  | _ => exact givesData_ok rfl

theorem givesData_onInts (l r : Int64) : GivesData (op.onInts l r : Except Fault (Value μ)) := by
  cases op with
  | add => exact givesData_exact _ _
  | sub => exact givesData_exact _ _
  | mul => exact givesData_exact _ _
  | div => exact givesData_onFloats div l.toFloat r.toFloat
  | _ => exact givesData_ok rfl

theorem givesData_onStrings (l r : String) :
    GivesData (op.onStrings l r : Except Fault (Value μ)) := by
  cases op with
  | add => exact givesData_ok rfl
  | _ => exact givesData_error _

theorem givesData_onIdentities (l r : Value μ) : GivesData (op.onIdentities l r) := by
  cases op with
  | eq => exact givesData_ok rfl
  | ne => exact givesData_ok rfl
  | _ =>
      simp only [onIdentities]
      split <;> exact givesData_error _

theorem givesData_apply (l r : Value μ) : GivesData (op.apply l r) := by
  unfold BinaryOp.apply
  split
  · exact givesData_onInts op _ _
  · exact givesData_onFloats op _ _
  · exact givesData_onFloats op _ _
  · exact givesData_onFloats op _ _
  · exact givesData_onStrings op _ _
  · exact givesData_onIdentities op _ _

end BinaryOp

namespace Value

theorem isData_getD {x : Option (Value μ)} (h : ∀ v, x = some v → v.isData = true) :
    (x.getD .null).isData = true := by
  cases x with
  | none => rfl
  | some v => exact h v rfl

theorem isData_itemAt {items : List (Value μ)} (h : ∀ v ∈ items, v.isData = true) (n : Int64) :
    (itemAt items n).isData = true := by
  unfold itemAt
  split
  · exact isData_getD fun v hv => h v (List.mem_of_getElem? hv)
  · rfl

theorem isData_entryAt {entries : Table Key (Value μ × Value μ)}
    (h : ∀ e ∈ entries, e.2.1.isData = true ∧ e.2.2.isData = true) (k : Key) :
    (entryAt entries k).isData = true := by
  unfold entryAt
  induction entries with
  | nil => rfl
  | cons e es ih =>
      rw [List.forall_mem_cons] at h
      rw [Table.find?]
      by_cases he : e.1 = k
      · rw [if_pos he]
        exact h.1.2
      · rw [if_neg he]
        exact ih h.2

theorem givesData_index {target key : Value μ} (h : target.isData = true) :
    GivesData (target.index key) := by
  unfold Value.index
  split
  · rw [isData, allData_iff] at h
    exact givesData_ok (isData_itemAt h _)
  · rw [isData, entriesData_iff] at h
    split
    · exact givesData_ok (isData_entryAt h _)
    · exact givesData_error _
  · exact givesData_error _

/-- An entry of data goes into a table of data. -/
theorem entriesData_insert {entries : Table Key (Value μ × Value μ)} {key v : Value μ}
    (h : ∀ e ∈ entries, e.2.1.isData = true ∧ e.2.2.isData = true) (hkey : key.isData = true)
    (hv : v.isData = true) (k : Key) :
    ∀ e ∈ entries.insert k (key, v), e.2.1.isData = true ∧ e.2.2.isData = true := by
  induction entries with
  | nil =>
      rw [Table.insert, List.forall_mem_singleton]
      exact ⟨hkey, hv⟩
  | cons e es ih =>
      rw [List.forall_mem_cons] at h
      rw [Table.insert]
      by_cases he : e.1 = k
      · rw [if_pos he, List.forall_mem_cons]
        exact ⟨⟨hkey, hv⟩, h.2⟩
      · rw [if_neg he, List.forall_mem_cons]
        exact ⟨h.1, ih h.2⟩

end Value

end Treewalk
