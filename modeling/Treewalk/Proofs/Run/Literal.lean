import Treewalk.Proofs.Run.Keeping
import Treewalk.Proofs.Value.Key

/-! # Running a table literal

* `GivesEntries ev frame es s entries s'` says that the entries `es` of a literal, run from left to
  right, give the keys and values `entries`.  A literal ends with a table just when its entries do
  (`evalEntries_ok_iff`), and the table is what comes of putting them in one after the other.
* An index gives what was written last for its key (`index_insertAll`).  So a literal keeps all its
  entries, and gives for each key what was written for it, if no two keys collide, and only then. -/

namespace Treewalk

variable {μ : Type}

namespace Run

variable {ev : Evaluator μ} {frame : Nat}

/-- The entries of a literal run from left to right, the key of each before its value.  Each key
value can be a key and no value is a control value. -/
inductive GivesEntries (ev : Evaluator μ) (frame : Nat) :
    List (Expr μ × Expr μ) → Store μ → List (Key × Value μ × Value μ) → Store μ → Prop
  | nil (s : Store μ) : GivesEntries ev frame [] s [] s
  | cons {k e : Expr μ} {es : List (Expr μ × Expr μ)} {s t u s' : Store μ}
      {key v : Value μ} {h : Key} {entries : List (Key × Value μ × Value μ)}
      (hkey : ev k frame s = some (key, t)) (hk : key.key? = some h)
      (hv : ev e frame t = some (v, u)) (hc : v.isControl = false)
      (hes : GivesEntries ev frame es u entries s') :
      GivesEntries ev frame ((k, e) :: es) s ((h, key, v) :: entries) s'

variable {es : List (Expr μ × Expr μ)} {s s' : Store μ}
  {entries : List (Key × Value μ × Value μ)} {done table : Table Key (Value μ × Value μ)}

theorem GivesEntries.length_eq (h : GivesEntries ev frame es s entries s') :
    entries.length = es.length := by
  induction h with
  | nil => rfl
  | cons _ _ _ _ _ ih => rw [List.length_cons, List.length_cons, ih]

theorem GivesEntries.key?_eq (h : GivesEntries ev frame es s entries s') :
    ∀ e ∈ entries, e.2.1.key? = some e.1 := by
  induction h with
  | nil => simp
  | cons _ hk _ _ _ ih =>
      rw [List.forall_mem_cons]
      exact ⟨hk, ih⟩

theorem evalEntries_of_gives (h : GivesEntries ev frame es s entries s')
    (done : Table Key (Value μ × Value μ)) :
    evalEntries ev frame done es s = some (.ok (done.insertAll entries), s') := by
  induction h generalizing done with
  | nil => rfl
  | cons hkey hk hv hc hes ih =>
      rw [Table.insertAll_cons, ← ih]
      simp [evalEntries, Bind.bind, StateT.bind, hkey, Value.isControl_of_key? hk, hk, hv, hc]

theorem gives_of_evalEntries
    (h : evalEntries ev frame done es s = some (.ok table, s')) :
    ∃ entries, GivesEntries ev frame es s entries s' ∧ table = done.insertAll entries := by
  induction es generalizing done s with
  | nil =>
      cases h
      exact ⟨[], .nil _, rfl⟩
  | cons d es ih =>
      obtain ⟨k, e⟩ := d
      obtain ⟨key, t, hkey, h⟩ := exists_of_bind h
      split at h
      · cases h
      cases hk : key.key? with
      | none =>
          rw [hk] at h
          obtain ⟨_, _, _, h⟩ := exists_of_bind h
          cases h
      | some k =>
          rw [hk] at h
          obtain ⟨v, u, hv, h⟩ := exists_of_bind h
          split at h
          · cases h
          · rename_i hc
            obtain ⟨entries, hes, htable⟩ := ih h
            exact ⟨_, .cons hkey hk hv (Bool.eq_false_iff.2 hc) hes, htable⟩

/-- A literal makes a table just when its entries run to their ends, and the table is made of them,
one after the other. -/
theorem evalEntries_ok_iff :
    evalEntries ev frame done es s = some (.ok table, s') ↔
      ∃ entries, GivesEntries ev frame es s entries s' ∧ table = done.insertAll entries := by
  constructor
  · exact gives_of_evalEntries
  · rintro ⟨entries, hes, rfl⟩
    exact evalEntries_of_gives hes done

/-- An index that is a key gives what was written last for that key, and `null` if it was never
written. -/
theorem index_insertAll (id : Nat) (entries : List (Key × Value μ × Value μ)) {a : Value μ}
    {k : Key} (hk : a.key? = some k) :
    (Value.table id (Table.insertAll [] entries)).index a =
      .ok (((Table.find? k entries.reverse).map Prod.snd).getD .null) := by
  simp only [Value.index, hk, Value.entryAt, Table.find?_insertAll]
  cases Table.find? k entries.reverse <;> rfl

/-- Entries whose keys differ and do not collide are kept under keys that differ. -/
theorem nodup_keys_iff (hk : ∀ e ∈ entries, e.2.1.key? = some e.1)
    (hne : entries.Pairwise fun d e => d.2.1 ≠ e.2.1) :
    (entries.map Prod.fst).Nodup ↔
      entries.Pairwise fun d e => ¬ Value.Collide d.2.1 e.2.1 := by
  rw [List.Nodup, List.pairwise_map]
  constructor
  · intro h
    refine h.imp_of_mem fun hd he hkeys hcollide => hkeys ?_
    exact (Value.key?_eq_iff (hk _ hd) (hk _ he)).2 (.inr hcollide)
  · intro h
    refine (hne.and h).imp_of_mem fun hd he hapart hkeys => ?_
    rcases (Value.key?_eq_iff (hk _ hd) (hk _ he)).1 hkeys with heq | hcollide
    · exact hapart.1 heq
    · exact hapart.2 hcollide

/-- **Keys tell values apart, unless texts collide.**  Two values have one key just when they are
equal or collide.  A table literal whose keys differ from each other has as many entries as were
written, and gives for each key what was written for it, just when no two of the keys collide. -/
theorem keys_tell_apart_iff [Mark μ] (n : Nat) :
    (∀ (a b : Value μ) k l, a.key? = some k → b.key? = some l →
      (k = l ↔ a = b ∨ Value.Collide a b)) ∧
    ∀ (m : μ) es frame s s' entries, GivesEntries (eval n) frame es s entries s' →
      (entries.Pairwise fun d e => d.2.1 ≠ e.2.1) →
      ∃ id table s'', eval (n + 1) (.table m es) frame s = some (.table id table, s'') ∧
        ((table.length = es.length ∧
            ∀ e ∈ entries, (Value.table id table).index e.2.1 = .ok e.2.2) ↔
          entries.Pairwise fun d e => ¬ Value.Collide d.2.1 e.2.1) := by
  refine ⟨fun _ _ _ _ => Value.key?_eq_iff, fun m es frame s s' entries hes hne => ?_⟩
  have hk := hes.key?_eq
  have hrun : eval (n + 1) (.table m es) frame s =
      some (.table s'.nextIdentity (Table.insertAll [] entries),
        { s' with nextIdentity := s'.nextIdentity + 1 }) := by
    change (evalEntries (eval n) frame [] es s).bind _ = _
    rw [evalEntries_of_gives hes []]
    rfl
  refine ⟨_, _, _, hrun, ?_⟩
  rw [← hes.length_eq, ← nodup_keys_iff hk hne]
  constructor
  · exact fun h => Table.length_insertAll_eq_iff.1 h.1
  · intro hnodup
    refine ⟨Table.length_insertAll_eq_iff.2 hnodup, fun e he => ?_⟩
    have hreverse : (entries.reverse.map Prod.fst).Nodup := by
      rw [List.map_reverse, List.nodup_reverse]
      exact hnodup
    rw [index_insertAll _ _ (hk e he),
      Table.find?_eq_of_mem hreverse (List.mem_reverse.2 he)]
    rfl

/-- The entries of `{"a" + "b": 1, "b": 2, true: 3, 1: 4}`. -/
def mixedKeys : List (Expr String × Expr String) :=
  [(.binary "" (.string "" "a") .add (.string "" "b"), .int "" 1), (.string "" "b", .int "" 2),
    (.bool "" true, .int "" 3), (.int "" 1, .int "" 4)]

/-- What the entries of `mixedKeys` give. -/
def mixedEntries : List (Key × Value String × Value String) :=
  [(⟨.string, Digest.ofText "ab"⟩, .string "ab", .int 1),
    (⟨.string, Digest.ofText "b"⟩, .string "b", .int 2), (⟨.boolean, 1⟩, .bool true, .int 3),
    (⟨.integer, 1⟩, .int 1, .int 4)]

/-- Keys of all three kinds, two of which are texts: no two of them collide. -/
theorem keys_tell_apart_iff_mixed :
    (GivesEntries (eval 2) 0 mixedKeys Store.empty mixedEntries Store.empty ∧
      mixedEntries.Pairwise fun d e => d.2.1 ≠ e.2.1) ∧
    ∃ id table s'', eval 3 (.table "" mixedKeys) 0 Store.empty = some (.table id table, s'') ∧
      table.length = 4 ∧ ∀ e ∈ mixedEntries, (Value.table id table).index e.2.1 = .ok e.2.2 := by
  have hes : GivesEntries (eval 2) 0 mixedKeys Store.empty mixedEntries Store.empty :=
    .cons rfl rfl rfl rfl (.cons rfl rfl rfl rfl (.cons rfl rfl rfl rfl (.cons rfl rfl rfl rfl
      (.nil _))))
  have hne : mixedEntries.Pairwise fun d e => d.2.1 ≠ e.2.1 := by simp [mixedEntries]
  have hnodup : (mixedEntries.map Prod.fst).Nodup := by decide +kernel
  obtain ⟨id, table, s'', hrun, hiff⟩ := (keys_tell_apart_iff 2).2 "" mixedKeys 0 _ _ _ hes hne
  exact ⟨⟨hes, hne⟩, id, table, s'', hrun, hiff.2 ((nodup_keys_iff hes.key?_eq hne).1 hnodup)⟩

/-- The program `{"olllecjpniahihbl": 1, "dfbccgjcjkajlkjh": 2}["olllecjpniahihbl"]`. -/
def indexesCollision : Program String :=
  [.expr "" (.index "" (.table "" [(.string "" "olllecjpniahihbl", .int "" 1),
    (.string "" "dfbccgjcjkajlkjh", .int "" 2)]) (.string "" "olllecjpniahihbl"))]

/-- The number that a program gave. -/
def numberGiven : Option (Value μ) → Option Int64
  | some (.int n) => some n
  | _ => none

theorem numberGiven_eq_some_iff {r : Option (Value μ)} {n : Int64} :
    numberGiven r = some n ↔ r = some (.int n) := by
  cases r with
  | none => simp [numberGiven]
  | some v => cases v <;> simp [numberGiven]

/-- Two different texts have one key, and the entry of the second takes the place of the first. -/
theorem keys_of_different_texts :
    (Value.string "olllecjpniahihbl" : Value String).key? =
        (Value.string "dfbccgjcjkajlkjh" : Value String).key? ∧
      "olllecjpniahihbl" ≠ "dfbccgjcjkajlkjh" ∧
      ∃ s', evaluate 4 indexesCollision 0 (Store.empty.newFrame none).2 =
        some (some (.int 2), s') := by
  have hdigest : Digest.ofText "olllecjpniahihbl" = Digest.ofText "dfbccgjcjkajlkjh" := by
    decide +kernel
  refine ⟨by rw [Value.key?, Value.key?, hdigest], by decide, ?_⟩
  have hrun : (evaluate 4 indexesCollision 0 (Store.empty.newFrame none).2).map
      (fun x => numberGiven x.1) = some (some 2) := by
    decide +kernel
  obtain ⟨⟨r, s'⟩, h, hr⟩ := Option.map_eq_some_iff.1 hrun
  obtain rfl := numberGiven_eq_some_iff.1 hr
  exact ⟨s', h⟩

end Run

end Treewalk
