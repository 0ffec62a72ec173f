import Treewalk.Value.Operate

/-! # The functions inside a value

A value can hold functions at any depth: in an array, or as the key or the value of an entry of a
table.  Each of them may be called long after it was made, in a frame inside the one it was made in.

* `Value.functions` lists them, as `Closure`s: without their identities.
* `Carries Q v` says that all of them satisfy `Q`.
* The operators give values without parts, or fail for a reason that is not a name (`Elementary`).
  An index gives no functions but those of its target. -/

namespace Treewalk

variable {μ : Type}

/-- What a function is, but for its identity. -/
structure Closure (μ : Type) where
  params : List String
  body : Block μ
  frame : Nat

namespace Value

mutual

/-- The functions inside a value, at any depth. -/
def functions : Value μ → List (Closure μ)
  | function _ params body frame => [⟨params.map Ident.name, body, frame⟩]
  | returned v => v.functions
  | array _ vs => functionsIn vs
  | table _ es => functionsInEntries es
  | _ => []

def functionsIn : List (Value μ) → List (Closure μ)
  | [] => []
  | v :: vs => v.functions ++ functionsIn vs

def functionsInEntries : List (Key × Value μ × Value μ) → List (Closure μ)
  | [] => []
  | (_, k, v) :: es => k.functions ++ (v.functions ++ functionsInEntries es)

end

/-- All functions inside a value satisfy `Q`. -/
def Carries (Q : Closure μ → Prop) (v : Value μ) : Prop :=
  ∀ c ∈ v.functions, Q c

variable {Q Q' : Closure μ → Prop}

theorem Carries.mono {v : Value μ} (h : v.Carries Q) (hQ : ∀ c, Q c → Q' c) : v.Carries Q' :=
  fun c hc => hQ c (h c hc)

theorem carries_of_functions_eq_nil {v : Value μ} (h : v.functions = []) : v.Carries Q := by
  intro c hc
  rw [h] at hc
  cases hc

theorem carries_null : (null : Value μ).Carries Q :=
  carries_of_functions_eq_nil rfl

theorem carries_error (e : Fault) : (error e).Carries Q :=
  carries_of_functions_eq_nil rfl

theorem carries_function_iff {i : Nat} {params : List (Ident μ)} {body : Block μ} {frame : Nat} :
    (function i params body frame).Carries Q ↔ Q ⟨params.map Ident.name, body, frame⟩ :=
  List.forall_mem_singleton

theorem carries_array_iff {i : Nat} {vs : List (Value μ)} :
    (array i vs).Carries Q ↔ ∀ v ∈ vs, v.Carries Q := by
  change (∀ c ∈ functionsIn vs, Q c) ↔ _
  induction vs with
  | nil => simp [functionsIn]
  | cons v vs ih =>
      rw [functionsIn, List.forall_mem_append, ih, List.forall_mem_cons]
      exact Iff.rfl

theorem carries_table_iff {i : Nat} {es : List (Key × Value μ × Value μ)} :
    (table i es).Carries Q ↔ ∀ e ∈ es, e.2.1.Carries Q ∧ e.2.2.Carries Q := by
  change (∀ c ∈ functionsInEntries es, Q c) ↔ _
  induction es with
  | nil => simp [functionsInEntries]
  | cons e es ih =>
      obtain ⟨h, k, v⟩ := e
      rw [functionsInEntries, List.forall_mem_append, List.forall_mem_append, ih,
        List.forall_mem_cons, and_assoc]
      exact Iff.rfl

theorem carries_getD {x : Option (Value μ)} (h : ∀ v, x = some v → v.Carries Q) :
    (x.getD .null).Carries Q := by
  cases x with
  | none => exact carries_null
  | some v => exact h v rfl

theorem carries_itemAt {items : List (Value μ)} (h : ∀ v ∈ items, v.Carries Q) (n : Int64) :
    (itemAt items n).Carries Q := by
  unfold itemAt
  split
  · exact carries_getD fun v hv => h v (List.mem_of_getElem? hv)
  · exact carries_null

theorem carries_entryAt {entries : Table Key (Value μ × Value μ)}
    (h : ∀ e ∈ entries, e.2.1.Carries Q ∧ e.2.2.Carries Q) (k : Key) :
    (entryAt entries k).Carries Q := by
  unfold entryAt
  induction entries with
  | nil => exact carries_null
  | cons e es ih =>
      rw [List.forall_mem_cons] at h
      rw [Table.find?]
      by_cases he : e.1 = k
      · rw [if_pos he]
        exact h.1.2
      · rw [if_neg he]
        exact ih h.2

theorem carries_index {target key v : Value μ} (h : target.Carries Q)
    (hv : target.index key = .ok v) : v.Carries Q := by
  unfold index at hv
  split at hv
  · obtain rfl := Except.ok.inj hv
    exact carries_itemAt (carries_array_iff.1 h) _
  · split at hv
    · obtain rfl := Except.ok.inj hv
      exact carries_entryAt (carries_table_iff.1 h) _
    · cases hv
  · cases hv

theorem carries_insert {entries : Table Key (Value μ × Value μ)} {key v : Value μ}
    (h : ∀ e ∈ entries, e.2.1.Carries Q ∧ e.2.2.Carries Q) (hkey : key.Carries Q)
    (hv : v.Carries Q) (k : Key) :
    ∀ e ∈ entries.insert k (key, v), e.2.1.Carries Q ∧ e.2.2.Carries Q := by
  induction entries with
  | nil =>
      rw [Table.insert, List.forall_mem_singleton]
      exact ⟨hkey, hv⟩
  | cons e es ih =>
      rw [List.forall_mem_cons] at h
      rw [Table.insert]
      by_cases he : e.1 = k
      · rw [if_pos he, List.forall_mem_cons]
        exact ⟨⟨hkey, hv⟩, h.2⟩
      · rw [if_neg he, List.forall_mem_cons]
        exact ⟨h.1, ih h.2⟩

/-! ### What operators give -/

/-- Whether a value has no parts and no identity. -/
def isScalar : Value μ → Bool
  | int _ | float _ | bool _ | string _ | null => true
  | _ => false

theorem functions_of_isScalar {v : Value μ} (h : v.isScalar = true) : v.functions = [] := by
  cases v with
  | function i params body frame => cases h
  | returned v => cases h
  | array i vs => cases h
  | table i es => cases h
  | _ => rfl

/-- The result of an operator is a scalar, or a fault that is not about a name. -/
def Elementary : Except Fault (Value μ) → Prop
  | .ok v => v.isScalar = true
  | .error e => ∀ name, e ≠ .unbound name

theorem elementary_exact {n : Int} {e : Fault} (h : ∀ name, e ≠ .unbound name) :
    Elementary (exact n e : Except Fault (Value μ)) := by
  unfold exact
  split
  · exact rfl
  · exact h

theorem index_ne_unbound {target key : Value μ} {e : Fault} (h : target.index key = .error e)
    (name : String) : e ≠ .unbound name := by
  unfold index at h
  split at h
  · cases h
  · split at h
    · cases h
    · obtain rfl := Except.error.inj h
      simp
  · obtain rfl := Except.error.inj h
    simp

end Value

open Value

theorem UnaryOp.elementary_apply (op : UnaryOp) (v : Value μ) : Elementary (op.apply v) := by
  unfold UnaryOp.apply
  split
  · exact rfl
  · exact elementary_exact (by simp)
  · exact rfl
  · simp [Elementary]

namespace BinaryOp

variable (op : BinaryOp)

theorem elementary_onFloats (l r : Float) :
    Elementary (op.onFloats l r : Except Fault (Value μ)) := by
  cases op with
  | div =>
      simp only [onFloats]
      split
      · simp [Elementary]
      · exact rfl
  | _ => exact rfl

theorem elementary_onInts (l r : Int64) : Elementary (op.onInts l r : Except Fault (Value μ)) := by
  cases op with
  | add => exact elementary_exact (by simp)
  | sub => exact elementary_exact (by simp)
  | mul => exact elementary_exact (by simp)
  | div => exact elementary_onFloats div l.toFloat r.toFloat
  | _ => exact rfl

theorem elementary_onStrings (l r : String) :
    Elementary (op.onStrings l r : Except Fault (Value μ)) := by
  cases op with
  | add => exact rfl
  | _ => simp [Elementary, onStrings]

theorem elementary_onIdentities (l r : Value μ) : Elementary (op.onIdentities l r) := by
  cases op with
  | eq => exact rfl
  | ne => exact rfl
  | _ =>
      simp only [onIdentities]
      split <;> simp [Elementary]

theorem elementary_apply (l r : Value μ) : Elementary (op.apply l r) := by
  unfold BinaryOp.apply
  split
  · exact elementary_onInts op _ _
  · exact elementary_onFloats op _ _
  · exact elementary_onFloats op _ _
  · exact elementary_onFloats op _ _
  · exact elementary_onStrings op _ _
  · exact elementary_onIdentities op _ _

/-- Only scalars can be calculated with. -/
theorem apply_eq_onIdentities {l r : Value μ} (h : l.isScalar = false ∨ r.isScalar = false) :
    op.apply l r = op.onIdentities l r := by
  rcases h with h | h
  · cases l <;> first | rfl | cases h
  · cases r <;> first | (cases l <;> rfl) | cases h

end BinaryOp

end Treewalk
