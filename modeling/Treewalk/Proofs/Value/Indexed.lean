import Mathlib.Data.List.Induction
import Treewalk.Proofs.Value.Key

/-! # Tables with an index

A table can also be kept in two parts: what was put in, in the order in which the keys first came,
and an index that maps each key to its position there.  An insertion looks the key up in the index,
and writes either at the position found or behind all others.

* `Agrees h t` says that the two parts of `h` are those of the table `t`: the same entries in the
  same order, and a key has a position just where it stands.  It is kept by each insertion
  (`Agrees.insert`), so it holds after any number of them (`agrees_insertAll`).
* `lastUnder k es` is what was put in last under a key, and so what is found there
  (`find?_insertAll_nil`).
* The keys stand in the order in which they first came (`keys_insertAll`), and what stands at each
  is what was put in last (`map_some_insertAll`). -/

namespace Treewalk

/-- What was put in, in the order of the keys, and the position of each key in it. -/
structure Indexed (κ ν : Type) where
  items : Array ν
  index : List (κ × Nat)

variable {κ ν : Type} [DecidableEq κ]

/-- The last of some entries with a key. -/
def lastUnder (k : κ) (es : List (κ × ν)) : Option ν :=
  (es.reverse.find? fun e => e.1 = k).map Prod.snd

namespace Indexed

def empty : Indexed κ ν :=
  ⟨#[], []⟩

/-- The position that the index holds for a key. -/
def position? (h : Indexed κ ν) (k : κ) : Option Nat :=
  h.index.lookup k

/-- Writes at the position of a key, or behind all others if it has none yet. -/
def insert (h : Indexed κ ν) (k : κ) (v : ν) : Indexed κ ν :=
  match h.position? k with
  | some i => { h with items := h.items.setIfInBounds i v }
  | none => ⟨h.items.push v, (k, h.items.size) :: h.index⟩

/-- What stands at the position of a key. -/
def get? (h : Indexed κ ν) (k : κ) : Option ν :=
  (h.position? k).bind fun i => h.items[i]?

/-- All of some entries put in, one after the other. -/
def insertAll (h : Indexed κ ν) (es : List (κ × ν)) : Indexed κ ν :=
  es.foldl (fun h e => h.insert e.1 e.2) h

/-- The two parts are those of a table. -/
structure Agrees (h : Indexed κ ν) (t : Table κ ν) : Prop where
  items : h.items.toList = t.map Prod.snd
  position? : ∀ k i, h.position? k = some i ↔ (t.map Prod.fst)[i]? = some k

end Indexed

namespace Table

/-! ### Keys of a table -/

theorem insert_of_notMem {k : κ} {t : Table κ ν} (h : k ∉ t.map Prod.fst) (v : ν) :
    t.insert k v = t ++ [(k, v)] := by
  induction t with
  | nil => rfl
  | cons e t ih =>
      rw [List.map_cons, List.mem_cons, not_or] at h
      rw [Table.insert, if_neg (Ne.symm h.1), ih h.2, List.cons_append]

/-- A key that stands at one position only is replaced there. -/
theorem insert_eq_set {k : κ} {t : Table κ ν} {i : Nat} (hi : (t.map Prod.fst)[i]? = some k)
    (hfirst : ∀ j, (t.map Prod.fst)[j]? = some k → j = i) (v : ν) :
    t.insert k v = t.set i (k, v) := by
  induction t generalizing i with
  | nil => cases hi
  | cons e t ih =>
      rw [Table.insert]
      by_cases he : e.1 = k
      · have hzero : (0 : Nat) = i := hfirst 0 (by rw [List.map_cons, he]; rfl)
        rw [if_pos he, ← hzero, List.set_cons_zero]
      · rw [if_neg he]
        cases i with
        | zero => exact absurd (Option.some.inj hi) he
        | succ i =>
            rw [List.set_cons_succ, ih hi fun j hj => Nat.succ.inj (hfirst (j + 1) hj)]

theorem mem_of_mem_insert {k : κ} {v : ν} {t : Table κ ν} {e : κ × ν} (h : e ∈ t.insert k v) :
    e = (k, v) ∨ e ∈ t := by
  induction t with
  | nil => exact .inl (List.mem_singleton.1 h)
  | cons d t ih =>
      rw [Table.insert] at h
      split at h
      · exact (List.mem_cons.1 h).imp_right (List.mem_cons_of_mem d)
      · rcases List.mem_cons.1 h with rfl | h
        · exact .inr List.mem_cons_self
        · exact (ih h).imp_right (List.mem_cons_of_mem d)

/-- A table holds nothing but what was put in. -/
theorem mem_of_mem_insertAll {t : Table κ ν} {es : List (κ × ν)} {e : κ × ν}
    (h : e ∈ t.insertAll es) : e ∈ t ∨ e ∈ es := by
  induction es generalizing t with
  | nil => exact .inl h
  | cons d es ih =>
      rcases ih h with h | h
      · rcases mem_of_mem_insert h with rfl | h
        · exact .inr List.mem_cons_self
        · exact .inl h
      · exact .inr (List.mem_cons_of_mem d h)

theorem insertAll_concat (t : Table κ ν) (es : List (κ × ν)) (e : κ × ν) :
    t.insertAll (es ++ [e]) = insert e.1 e.2 (t.insertAll es) := by
  rw [insertAll, List.foldl_append]
  rfl

/-- The keys stand in the order in which they first came, each once. -/
theorem keys_insertAll (es : List (κ × ν)) :
    (insertAll [] es).map Prod.fst = (es.map Prod.fst).eraseDups := by
  induction es using List.reverseRecOn with
  | nil => rfl
  | append_singleton es e ih =>
      rw [insertAll_concat, keys_insert, ih, List.map_append, List.eraseDups_append]
      by_cases h : e.1 ∈ es.map Prod.fst
      · rw [if_pos (List.mem_eraseDups.2 h)]
        simp [List.removeAll, h]
      · rw [if_neg (mt List.mem_eraseDups.1 h)]
        simp [List.removeAll, h, List.eraseDups_cons]

theorem find?_eq_map_find? (k : κ) (t : Table κ ν) :
    t.find? k = (List.find? (fun e => e.1 = k) t).map Prod.snd := by
  induction t with
  | nil => rfl
  | cons e t ih =>
      rw [find?, List.find?_cons]
      by_cases h : e.1 = k <;> simp [h, ih]

theorem find?_reverse (k : κ) (es : List (κ × ν)) : find? k es.reverse = lastUnder k es :=
  find?_eq_map_find? k es.reverse

/-- What was put in last under a key is what is found there. -/
theorem find?_insertAll_nil (k : κ) (es : List (κ × ν)) :
    (insertAll [] es).find? k = lastUnder k es := by
  rw [find?_insertAll, find?_reverse]
  exact Option.or_none

/-- Each key of a table, in order, has the entry that was put in last under it. -/
theorem map_some_insertAll (es : List (κ × ν)) :
    ((insertAll [] es).map Prod.snd).map some =
      (es.map Prod.fst).eraseDups.map fun k => lastUnder k es := by
  rw [← keys_insertAll, List.map_map, List.map_map]
  refine List.map_congr_left fun e he => ?_
  have hnodup : ((insertAll [] es).map Prod.fst).Nodup :=
    nodup_insertAll (t := []) List.nodup_nil es
  rw [Function.comp_apply, Function.comp_apply, ← find?_insertAll_nil, find?_eq_of_mem hnodup he]

end Table

namespace Indexed

/-! ### The index -/

theorem agrees_empty : Agrees (empty : Indexed κ ν) [] where
  items := rfl
  position? _ _ := by simp [empty, Indexed.position?]

variable {h : Indexed κ ν} {t : Table κ ν}

theorem Agrees.size_eq (hagrees : Agrees h t) : h.items.size = t.length := by
  rw [← Array.length_toList, hagrees.items, List.length_map]

theorem Agrees.position?_eq_none (hagrees : Agrees h t) {k : κ} (hk : h.position? k = none) :
    k ∉ t.map Prod.fst := by
  intro hmem
  obtain ⟨i, hi⟩ := List.mem_iff_getElem?.1 hmem
  rw [(hagrees.position? k i).2 hi] at hk
  cases hk

/-- An insertion keeps the two parts in step: it writes at the one position of its key and leaves
the index as it is, or it puts the key behind all others in both. -/
theorem Agrees.insert (hagrees : Agrees h t) (k : κ) (v : ν) :
    Agrees (h.insert k v) (t.insert k v) := by
  rw [Indexed.insert]
  cases hk : h.position? k with
  | some i =>
      have hi := (hagrees.position? k i).1 hk
      have hset : t.insert k v = t.set i (k, v) := by
        refine Table.insert_eq_set hi (fun j hj => ?_) v
        -- The index holds one position for a key, so the key stands nowhere else.
        exact Option.some.inj (((hagrees.position? k j).2 hj).symm.trans hk)
      refine ⟨?_, fun k' j => ?_⟩
      · rw [hset, List.map_set, ← hagrees.items, Array.toList_setIfInBounds]
      · rw [Table.keys_insert, if_pos (List.mem_of_getElem? hi)]
        exact hagrees.position? k' j
  | none =>
      have hnew := hagrees.position?_eq_none hk
      refine ⟨?_, fun k' j => ?_⟩
      · rw [Table.insert_of_notMem hnew, List.map_append, ← hagrees.items, Array.toList_push]
        rfl
      · rw [Table.keys_insert, if_neg hnew, Indexed.position?, List.lookup_cons, hagrees.size_eq,
          List.getElem?_append, List.length_map]
        by_cases hkk : k' = k
        · rw [hkk, beq_self_eq_true]
          constructor
          · rintro ⟨⟩
            simp
          · intro hj
            split at hj
            · exact absurd (List.mem_of_getElem? hj) hnew
            · rename_i hlt
              have hzero : j - t.length = 0 := by
                by_contra hne
                rw [List.getElem?_eq_none (by simp; omega)] at hj
                cases hj
              rw [show j = t.length by omega]
        · rw [beq_false_of_ne hkk]
          refine (hagrees.position? k' j).trans ?_
          split
          · rfl
          · rename_i hlt
            rw [List.getElem?_eq_none (by rw [List.length_map]; omega)]
            constructor
            · rintro ⟨⟩
            · intro hj
              exact absurd (List.mem_singleton.1 (List.mem_of_getElem? hj)) hkk

/-- The two parts are in step after any insertions. -/
theorem Agrees.insertAll (hagrees : Agrees h t) (es : List (κ × ν)) :
    Agrees (h.insertAll es) (t.insertAll es) := by
  induction es generalizing h t with
  | nil => exact hagrees
  | cons e es ih => exact ih (hagrees.insert e.1 e.2)

/-- What is found by the index is what the table holds. -/
theorem Agrees.get?_eq (hagrees : Agrees h t) (hnodup : (t.map Prod.fst).Nodup) (k : κ) :
    h.get? k = t.find? k := by
  rw [get?]
  cases hk : h.position? k with
  | some i =>
      have hi := (hagrees.position? k i).1 hk
      rw [List.getElem?_map] at hi
      obtain ⟨e, he, rfl⟩ := Option.map_eq_some_iff.1 hi
      rw [Table.find?_eq_of_mem hnodup (List.mem_of_getElem? he), Option.bind_some,
        ← Array.getElem?_toList, hagrees.items, List.getElem?_map, he]
      rfl
  | none =>
      have hnew := hagrees.position?_eq_none hk
      rw [Table.find?_eq_map_find?, List.find?_eq_none.2, Option.map_none, Option.bind_none]
      intro e he
      rw [decide_eq_true_eq]
      rintro rfl
      exact hnew (List.mem_map_of_mem he)

theorem agrees_insertAll (es : List (κ × ν)) :
    Agrees (insertAll empty es) (Table.insertAll [] es) :=
  agrees_empty.insertAll es

end Indexed

end Treewalk
