/-! # Tables in order of insertion

A table is the list of its entries, in the order in which their keys first came in.

* `insert` adds an entry at the end.  If the key is there already, the new entry takes the place
  of the old one.
* `find?` is the entry of a key.

The two are tied together by `find?_insert`, and no key comes twice (`nodup_insert`). -/

namespace Treewalk

variable {κ ν : Type}

/-- The entries of a table. -/
abbrev Table (κ ν : Type) := List (κ × ν)

namespace Table

variable [DecidableEq κ]

/-- Adds an entry, or puts it in the place of the one with the same key. -/
def insert (k : κ) (v : ν) : Table κ ν → Table κ ν
  | [] => [(k, v)]
  | e :: es => if e.1 = k then (k, v) :: es else e :: insert k v es

/-- What a table holds under a key. -/
def find? (k : κ) : Table κ ν → Option ν
  | [] => none
  | e :: es => if e.1 = k then some e.2 else find? k es

theorem find?_insert (k k' : κ) (v : ν) (t : Table κ ν) :
    (t.insert k v).find? k' = if k = k' then some v else t.find? k' := by
  induction t with
  | nil => simp [insert, find?]
  | cons e es ih =>
    by_cases h : e.1 = k
    · by_cases hk : k = k' <;> simp [insert, find?, h, hk]
    · by_cases he : e.1 = k'
      · have hk : k ≠ k' := fun hk => h (he.trans hk.symm)
        simp [insert, find?, he, hk, hk.symm]
      · simp [insert, find?, h, he, ih]

/-- The keys after an insertion: a new key comes last. -/
theorem keys_insert (k : κ) (v : ν) (t : Table κ ν) :
    (t.insert k v).map Prod.fst =
      if k ∈ t.map Prod.fst then t.map Prod.fst else t.map Prod.fst ++ [k] := by
  induction t with
  | nil => simp [insert]
  | cons e es ih =>
    by_cases h : e.1 = k
    · simp [insert, h]
    · have hk : k ≠ e.1 := fun hk => h hk.symm
      by_cases hm : k ∈ es.map Prod.fst
      · rw [if_pos hm] at ih
        simp [insert, h, ih, List.mem_cons, hm]
      · rw [if_neg hm] at ih
        rw [insert, if_neg h, List.map_cons, ih, List.map_cons, if_neg]
        · simp
        · simp only [List.mem_cons, not_or]
          exact ⟨hk, hm⟩

/-- No key comes twice. -/
theorem nodup_insert {k : κ} {v : ν} {t : Table κ ν} (h : (t.map Prod.fst).Nodup) :
    ((t.insert k v).map Prod.fst).Nodup := by
  rw [keys_insert]
  split
  · exact h
  · rename_i hm
    rw [List.nodup_append]
    refine ⟨h, by simp, ?_⟩
    intro a ha b hb hab
    rw [List.mem_singleton.1 hb] at hab
    exact hm (hab ▸ ha)

end Table

end Treewalk
