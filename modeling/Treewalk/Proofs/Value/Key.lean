import Mathlib.Data.List.Dedup
import Treewalk.Value.Operate

/-! # What keys tell apart

A key stands for a value by its kind and a digest.  The digest of a number and of a truth value is
the value itself, but that of a text is not: two texts may have one digest, and then they have one
key.

* `Collide a b` says that `a` and `b` are two different texts with one digest.  Equal keys belong to
  equal values or to values that collide, and to no others (`key?_eq_iff`).
* `insertAll` puts entries into a table one after the other.  Of all entries with a key the last one
  counts (`find?_insertAll`), and the table is as long as the list of entries just when no key comes
  twice (`length_insertAll_eq_iff`). -/

namespace Treewalk

variable {μ : Type}

namespace Table

variable {κ ν : Type} [DecidableEq κ]

/-- Puts entries into a table, one after the other. -/
def insertAll (t : Table κ ν) (es : List (κ × ν)) : Table κ ν :=
  es.foldl (fun t e => t.insert e.1 e.2) t

theorem insertAll_cons (t : Table κ ν) (e : κ × ν) (es : List (κ × ν)) :
    t.insertAll (e :: es) = insertAll (t.insert e.1 e.2) es :=
  rfl

theorem find?_append (k : κ) (t u : Table κ ν) :
    find? k (t ++ u) = (find? k t).or (find? k u) := by
  induction t with
  | nil => rfl
  | cons e t ih =>
      rw [List.cons_append, find?, find?]
      split
      · rfl
      · exact ih

/-- Under a key a table holds the entry that was put in last, if there was one. -/
theorem find?_insertAll (k : κ) (t : Table κ ν) (es : List (κ × ν)) :
    (t.insertAll es).find? k = (find? k es.reverse).or (t.find? k) := by
  induction es generalizing t with
  | nil => rfl
  | cons e es ih =>
      rw [insertAll_cons, ih, find?_insert, List.reverse_cons, find?_append, Option.or_assoc]
      congr 1
      rw [find?, find?]
      split <;> rfl

theorem find?_eq_of_mem {t : Table κ ν} (h : (t.map Prod.fst).Nodup) {e : κ × ν} (he : e ∈ t) :
    t.find? e.1 = some e.2 := by
  induction t with
  | nil => cases he
  | cons d t ih =>
      rw [List.map_cons, List.nodup_cons] at h
      rw [find?]
      rcases List.mem_cons.1 he with rfl | he
      · rw [if_pos rfl]
      · have hne : d.1 ≠ e.1 := fun heq => h.1 (heq ▸ List.mem_map_of_mem he)
        rw [if_neg hne]
        exact ih h.2 he

theorem mem_keys_insertAll {k : κ} {t : Table κ ν} {es : List (κ × ν)} :
    k ∈ (t.insertAll es).map Prod.fst ↔ k ∈ t.map Prod.fst ∨ k ∈ es.map Prod.fst := by
  induction es generalizing t with
  | nil => simp [insertAll]
  | cons e es ih =>
      have hkeys : k ∈ (t.insert e.1 e.2).map Prod.fst ↔ k ∈ t.map Prod.fst ∨ k = e.1 := by
        rw [keys_insert]
        split
        · rename_i hm
          refine ⟨Or.inl, ?_⟩
          rintro (h | rfl)
          · exact h
          · exact hm
        · rw [List.mem_append, List.mem_singleton]
      rw [insertAll_cons, ih, hkeys, List.map_cons, List.mem_cons, or_assoc]

theorem nodup_insertAll {t : Table κ ν} (h : (t.map Prod.fst).Nodup) (es : List (κ × ν)) :
    ((t.insertAll es).map Prod.fst).Nodup := by
  induction es generalizing t with
  | nil => exact h
  | cons e es ih => exact ih (nodup_insert h)

/-- The keys of a table are those of the entries that were put in, each once. -/
theorem keys_insertAll_perm (es : List (κ × ν)) :
    ((insertAll [] es).map Prod.fst).Perm (es.map Prod.fst).dedup := by
  rw [List.perm_ext_iff_of_nodup (nodup_insertAll (t := []) List.nodup_nil es) (List.nodup_dedup _)]
  intro k
  rw [mem_keys_insertAll, List.mem_dedup]
  simp

/-- No entry is lost just when no key comes twice. -/
theorem length_insertAll_eq_iff {es : List (κ × ν)} :
    (insertAll [] es).length = es.length ↔ (es.map Prod.fst).Nodup := by
  have hlen : (insertAll [] es).length = (es.map Prod.fst).dedup.length := by
    rw [← (keys_insertAll_perm es).length_eq, List.length_map]
  rw [hlen, ← List.dedup_eq_self]
  constructor
  · intro h
    exact (List.dedup_sublist _).eq_of_length (h.trans (List.length_map _).symm)
  · intro h
    rw [h, List.length_map]

end Table

namespace Value

/-- Two different texts with one digest. -/
def Collide (a b : Value μ) : Prop :=
  ∃ s t, a = string s ∧ b = string t ∧ s ≠ t ∧ Digest.ofText s = Digest.ofText t

theorem tag_of_key? {a : Value μ} {k : Key} (h : a.key? = some k) : k.tag = a.tag := by
  cases a <;> cases h <;> rfl

/-- A value with a key is no control value. -/
theorem isControl_of_key? {a : Value μ} {k : Key} (h : a.key? = some k) : a.isControl = false := by
  cases a <;> cases h <;> rfl

/-- The digest of a number or a truth value tells it apart. -/
theorem eq_or_collide_of_key? {a b : Value μ} {k : Key} (ha : a.key? = some k)
    (hb : b.key? = some k) : a = b ∨ Collide a b := by
  have htag : a.tag = b.tag := (tag_of_key? ha).symm.trans (tag_of_key? hb)
  rw [← hb] at ha
  cases a with
  | int n =>
      cases b <;> cases htag
      simp only [key?, Option.some.injEq, Key.mk.injEq, true_and] at ha
      exact .inl (congrArg int (Int64.toBitVec_inj.1 (congrArg UInt64.toBitVec ha)))
  | bool x =>
      cases b <;> cases htag
      simp only [key?, Option.some.injEq, Key.mk.injEq, true_and] at ha
      refine .inl (congrArg bool ?_)
      revert ha
      cases x <;> cases ‹Bool› <;> decide
  | string s =>
      cases b <;> cases htag
      rename_i t
      simp only [key?, Option.some.injEq, Key.mk.injEq, true_and] at ha
      by_cases hst : s = t
      · exact .inl (congrArg string hst)
      · exact .inr ⟨s, t, rfl, rfl, hst, ha⟩
  | _ => cases hb.symm.trans ha.symm

/-- **What keys tell apart.**  Two values have one key just when they are equal or collide. -/
theorem key?_eq_iff {a b : Value μ} {k l : Key} (ha : a.key? = some k) (hb : b.key? = some l) :
    k = l ↔ a = b ∨ Collide a b := by
  constructor
  · rintro rfl
    exact eq_or_collide_of_key? ha hb
  · rintro (rfl | ⟨s, t, rfl, rfl, -, hdigest⟩)
    · exact Option.some.inj (ha.symm.trans hb)
    · cases ha
      cases hb
      rw [hdigest]

end Value

end Treewalk
