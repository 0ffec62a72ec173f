import Treewalk.Proofs.Value.Functions
import Treewalk.Store

/-! # Values with other labels

Two runs that do the same may number their frames and the values they make in different ways, and
the trees of their programs may carry different marks.  A `Relabelling` takes the numbers and the
marks of the one to those of the other.

* `relabel` changes the numbers and the marks inside a value and nothing else.
* What a program can find out about a value does not depend on them: how it is shown, as the marks
  have the same words; its kind, its key, what operators make of it, and, as no two identities fall
  together, which values are the same. -/

namespace Treewalk

/-- Other numbers for frames and identities, and other marks with the same words. -/
structure Relabelling (μ ν : Type) [Mark μ] [Mark ν] where
  frame : Nat → Nat
  identity : Nat → Nat
  mark : μ → ν
  injective : Function.Injective identity
  word_mark (m : μ) : Mark.word (mark m) = Mark.word m

variable {μ ν : Type} [Mark μ] [Mark ν]

theorem Relabelling.word_comp (ρ : Relabelling μ ν) : Mark.word ∘ ρ.mark = Mark.word :=
  funext ρ.word_mark

/-- All numbers and marks stay as they are. -/
def Relabelling.id : Relabelling μ μ where
  frame i := i
  identity i := i
  mark m := m
  injective _ _ h := h
  word_mark _ := rfl

namespace Value

section

variable (ρ : Relabelling μ ν)

mutual

/-- The same value with other labels. -/
def relabel : Value μ → Value ν
  | returned v => returned v.relabel
  | function i params body frame =>
    function (ρ.identity i) (params.map (Ident.map ρ.mark)) (body.map ρ.mark) (ρ.frame frame)
  | builtin i b => builtin (ρ.identity i) b
  | array i vs => array (ρ.identity i) (relabelAll vs)
  | table i es => table (ρ.identity i) (relabelEntries es)
  | int n => int n
  | float x => float x
  | bool b => bool b
  | string s => string s
  | null => null
  | error e => error e

def relabelAll : List (Value μ) → List (Value ν)
  | [] => []
  | v :: vs => v.relabel :: relabelAll vs

def relabelEntries : List (Key × Value μ × Value μ) → List (Key × Value ν × Value ν)
  | [] => []
  | (h, k, v) :: es => (h, k.relabel, v.relabel) :: relabelEntries es

end

/-- The same entry with other labels. -/
def relabelEntry (e : Value μ × Value μ) : Value ν × Value ν :=
  (e.1.relabel ρ, e.2.relabel ρ)

@[simp] theorem relabelAll_eq (vs : List (Value μ)) : relabelAll ρ vs = vs.map (relabel ρ) := by
  induction vs with
  | nil => rfl
  | cons v vs ih => simp [relabelAll, ih]

@[simp] theorem relabelEntries_eq (es : List (Key × Value μ × Value μ)) :
    relabelEntries ρ es = es.map fun e => (e.1, relabelEntry ρ e.2) := by
  induction es with
  | nil => rfl
  | cons e es ih => obtain ⟨h, k, v⟩ := e; simp [relabelEntries, relabelEntry, ih]

/-! ### What does not depend on labels -/

@[simp] theorem tag_relabel (v : Value μ) : (v.relabel ρ).tag = v.tag := by
  cases v <;> simp only [relabel, tag]

@[simp] theorem isControl_relabel (v : Value μ) : (v.relabel ρ).isControl = v.isControl := by
  cases v <;> simp only [relabel, isControl]

@[simp] theorem isTruthy_relabel (v : Value μ) : (v.relabel ρ).isTruthy = v.isTruthy := by
  cases v with
  | bool b => cases b <;> rfl
  | _ => rfl

@[simp] theorem key?_relabel (v : Value μ) : (v.relabel ρ).key? = v.key? := by
  cases v <;> simp only [relabel, key?]

theorem same_relabel (v w : Value μ) : (v.relabel ρ).same (w.relabel ρ) = v.same w := by
  have hi : ∀ i j, (ρ.identity i == ρ.identity j) = (i == j) := fun i j => by
    rw [Bool.eq_iff_iff, beq_iff_eq, beq_iff_eq, ρ.injective.eq_iff]
  cases v <;> cases w <;> simp only [relabel, same, identity?, hi]

mutual

/-- A value is shown in the same way. -/
theorem inspect_relabel (v : Value μ) : (v.relabel ρ).inspect = v.inspect :=
  match v with
  | int _ | float _ | bool _ | string _ | null | error _ | builtin _ _ => rfl
  | function _ ps b _ => by
      simp only [relabel, inspect, List.map_map, Block.map_map, ρ.word_comp]
      rfl
  | returned v => inspect_relabel v
  | array _ vs => by simp only [relabel, inspect, inspectAll_relabelAll vs]
  | table _ es => by simp only [relabel, inspect, inspectEntries_relabelEntries es]

theorem inspectAll_relabelAll (vs : List (Value μ)) :
    inspectAll (relabelAll ρ vs) = inspectAll vs :=
  match vs with
  | [] => rfl
  | v :: vs => by simp only [relabelAll, inspectAll, inspect_relabel v, inspectAll_relabelAll vs]

theorem inspectEntries_relabelEntries (es : List (Key × Value μ × Value μ)) :
    inspectEntries (relabelEntries ρ es) = inspectEntries es :=
  match es with
  | [] => rfl
  | (_, k, v) :: es => by
      simp only [relabelEntries, inspectEntries, inspect_relabel k, inspect_relabel v,
        inspectEntries_relabelEntries es]

end

mutual

theorem relabel_id (v : Value μ) : v.relabel .id = v :=
  match v with
  | int _ | float _ | bool _ | string _ | null | error _ | builtin _ _ => rfl
  | function _ ps b _ => by
      refine congr (congr (congrArg (function _) ?_) ?_) rfl
      · exact List.map_id ps
      · exact b.map_id
  | returned v => by rw [relabel, relabel_id v]
  | array _ vs => by rw [relabel, relabelAll_id vs]; rfl
  | table _ es => by rw [relabel, relabelEntries_id es]; rfl

theorem relabelAll_id (vs : List (Value μ)) : relabelAll .id vs = vs :=
  match vs with
  | [] => rfl
  | v :: vs => by rw [relabelAll, relabel_id v, relabelAll_id vs]

theorem relabelEntries_id (es : List (Key × Value μ × Value μ)) : relabelEntries .id es = es :=
  match es with
  | [] => rfl
  | (_, k, v) :: es => by
      rw [relabelEntries, relabel_id k, relabel_id v, relabelEntries_id es]

end

/-! ### Lists and tables -/

theorem getD_relabel (x : Option (Value μ)) :
    (x.map (relabel ρ)).getD .null = (x.getD .null).relabel ρ := by
  cases x <;> rfl

theorem itemAt_relabel (items : List (Value μ)) (n : Int64) :
    itemAt (items.map (relabel ρ)) n = (itemAt items n).relabel ρ := by
  unfold itemAt
  by_cases h : 0 ≤ n.toInt
  · rw [if_pos h, if_pos h, List.getElem?_map, getD_relabel]
  · rw [if_neg h, if_neg h]
    rfl

theorem find?_relabel (k : Key) (t : Table Key (Value μ × Value μ)) :
    Table.find? k (t.map fun e => (e.1, relabelEntry ρ e.2)) =
      (t.find? k).map (relabelEntry ρ) := by
  induction t with
  | nil => rfl
  | cons e t ih =>
      simp only [List.map_cons, Table.find?, ih]
      split <;> rfl

theorem insert_relabel (k : Key) (e : Value μ × Value μ) (t : Table Key (Value μ × Value μ)) :
    Table.insert k (relabelEntry ρ e) (t.map fun e => (e.1, relabelEntry ρ e.2)) =
      (t.insert k e).map fun e => (e.1, relabelEntry ρ e.2) := by
  induction t with
  | nil => rfl
  | cons e' t ih =>
      simp only [List.map_cons, Table.insert, ih]
      split <;> rfl

theorem entryAt_relabel (t : Table Key (Value μ × Value μ)) (k : Key) :
    entryAt (t.map fun e => (e.1, relabelEntry ρ e.2)) k = (entryAt t k).relabel ρ := by
  unfold entryAt
  rw [find?_relabel]
  cases t.find? k <;> rfl

/-- An index finds the same item or entry. -/
theorem index_relabel (target key : Value μ) :
    (target.relabel ρ).index (key.relabel ρ) = (target.index key).map (relabel ρ) := by
  cases target with
  | array i items =>
      cases key with
      | int n =>
          simp only [relabel, relabelAll_eq, index, itemAt_relabel]
          rfl
      | _ => rfl
  | table i es =>
      simp only [relabel, relabelEntries_eq, index, key?_relabel, tag_relabel]
      cases key.key? with
      | none => rfl
      | some k =>
          simp only [entryAt_relabel]
          rfl
  | _ => rfl

end

end Value

variable (ρ : Relabelling μ ν)

open Value

/-! ### What operators give -/

theorem exact_relabel (n : Int) (e : Fault) : exact n e = (exact n e).map (relabel ρ) := by
  unfold exact
  split <;> rfl

theorem UnaryOp.apply_relabel (op : UnaryOp) (v : Value μ) :
    op.apply (v.relabel ρ) = (op.apply v).map (relabel ρ) := by
  cases op with
  | not =>
      simp only [UnaryOp.apply, isTruthy_relabel]
      rfl
  | neg =>
      cases v with
      | int n => exact exact_relabel ρ _ _
      | _ => rfl

namespace BinaryOp

variable (op : BinaryOp)

theorem onFloats_relabel (l r : Float) :
    op.onFloats l r = (op.onFloats l r).map (relabel ρ) := by
  cases op with
  | div =>
      simp only [onFloats]
      split <;> rfl
  | _ => rfl

theorem onInts_relabel (l r : Int64) : op.onInts l r = (op.onInts l r).map (relabel ρ) := by
  cases op with
  | add => exact exact_relabel ρ _ _
  | sub => exact exact_relabel ρ _ _
  | mul => exact exact_relabel ρ _ _
  | div => exact onFloats_relabel ρ div _ _
  | _ => rfl

theorem onStrings_relabel (l r : String) :
    op.onStrings l r = (op.onStrings l r).map (relabel ρ) := by
  cases op <;> rfl

theorem onIdentities_relabel (l r : Value μ) :
    op.onIdentities (l.relabel ρ) (r.relabel ρ) = (op.onIdentities l r).map (relabel ρ) := by
  cases op with
  | eq =>
      simp only [onIdentities, same_relabel]
      rfl
  | ne =>
      simp only [onIdentities, same_relabel]
      rfl
  | _ =>
      simp only [onIdentities, tag_relabel]
      split <;> rfl

theorem apply_relabel (l r : Value μ) :
    op.apply (l.relabel ρ) (r.relabel ρ) = (op.apply l r).map (relabel ρ) := by
  cases l with
  | int a =>
      cases r with
      | int b => exact op.onInts_relabel ρ a b
      | float b => exact op.onFloats_relabel ρ _ b
      | _ => exact op.onIdentities_relabel ρ (.int a) _
  | float a =>
      cases r with
      | int b => exact op.onFloats_relabel ρ a _
      | float b => exact op.onFloats_relabel ρ a b
      | _ => exact op.onIdentities_relabel ρ (.float a) _
  | string a =>
      cases r with
      | string b => exact op.onStrings_relabel ρ a b
      | _ => exact op.onIdentities_relabel ρ (.string a) _
  | _ => exact op.onIdentities_relabel ρ _ r

end BinaryOp

/-- The same event with other labels. -/
def Event.relabel : Event μ → Event ν
  | bound frame name v => bound (ρ.frame frame) name (v.relabel ρ)
  | called f n => called (f.relabel ρ) n
  | printed line => printed line
  | calledBuiltin b => calledBuiltin b
  | failed e => failed e

theorem Event.relabel_id (e : Event μ) : e.relabel .id = e := by
  cases e with
  | bound frame name v => rw [relabel, Value.relabel_id]; rfl
  | called f n => rw [relabel, Value.relabel_id]
  | _ => rfl

end Treewalk
