import Treewalk.Proofs.Run.Literal
import Treewalk.Proofs.Value.Indexed

/-! # A table keeps the order of insertion

A table that keeps what was put in and an index of positions (`Indexed`) is an association list of
the last entries under each key, in the order in which the keys first came, and so is the table
that a literal makes (`insertion_ordered`).

* Each pair stands at the position that the index holds for its key, and the index holds no other
  position (`position?_insertAll_iff`).
* What an index of a literal gives is read off the entries of the literal (`eval_index_literal`). -/

namespace Treewalk

variable {μ : Type}

namespace Indexed

variable {es : List (Key × Value μ × Value μ)}

/-- Pairs put in under the keys of their first parts stand under these keys. -/
theorem position?_insertAll_iff (hes : ∀ e ∈ es, e.2.1.key? = some e.1) {k : Key} {i : Nat} :
    (insertAll empty es).position? k = some i ↔
      ∃ p, (insertAll empty es).items[i]? = some p ∧ p.1.key? = some k := by
  have hagrees := agrees_insertAll es
  have hkeys : ∀ e ∈ Table.insertAll [] es, e.2.1.key? = some e.1 := fun e he =>
    hes e ((Table.mem_of_mem_insertAll he).resolve_left List.not_mem_nil)
  rw [hagrees.position? k i, ← Array.getElem?_toList, hagrees.items, List.getElem?_map,
    List.getElem?_map]
  cases he : (Table.insertAll [] es)[i]? with
  | none => simp
  | some e => simp [hkeys e (List.mem_of_getElem? he)]

end Indexed

namespace Run

variable {n frame : Nat} {es : List (Key × Value μ × Value μ)}
  {exprs : List (Expr μ × Expr μ)} {s s' : Store μ}

theorem eval_table_of_gives [Mark μ] (m : μ) (hes : GivesEntries (eval n) frame exprs s es s') :
    eval (n + 1) (.table m exprs) frame s =
      some (.table s'.nextIdentity (Table.insertAll [] es),
        { s' with nextIdentity := s'.nextIdentity + 1 }) := by
  change (evalEntries (eval n) frame [] exprs s).bind _ = _
  rw [evalEntries_of_gives hes []]
  rfl

theorem index_table_eq (id : Nat) {a : Value μ} {k : Key} (hk : a.key? = some k) :
    (Value.table id (Table.insertAll [] es)).index a =
      .ok (((lastUnder k es).map Prod.snd).getD .null) := by
  rw [index_insertAll id es hk, Table.find?_reverse]

/-- An index that can be a key gives what the last entry with this key has. -/
theorem eval_index_literal [Mark μ] (m m' : μ) (hes : GivesEntries (eval n) frame exprs s es s')
    {q : Expr μ} {a : Value μ} {k : Key} {t : Store μ}
    (hq : eval (n + 1) q frame { s' with nextIdentity := s'.nextIdentity + 1 } = some (a, t))
    (hk : a.key? = some k) :
    eval (n + 2) (.index m' (.table m exprs) q) frame s =
      some (((lastUnder k es).map Prod.snd).getD .null, t) := by
  change onValue (eval (n + 1) (.table m exprs) frame) _ s = _
  rw [onValue_of_not_isControl (eval_table_of_gives m hes) rfl,
    onValue_of_not_isControl hq (Value.isControl_of_key? hk), index_table_eq _ hk]
  rfl

/-- **A table is a map in order of insertion.**  Let pairs be put one after the other into an empty
table with an index, each under the key of its first part.

* Under a key stands the pair that was put in last under it, and none if there was none.
* The pairs stand one for each key, in the order in which the keys first came, each of them the one
  that was put in last.
* A key has a position just where a pair with this key stands.
* The table that a run makes of the same pairs has these pairs in this order, each beside its key.

So a literal whose parts give no control value, and whose keys all can be keys, is a table that has
under each index the value of the last pair with its key, and `null` if no pair has it. -/
theorem insertion_ordered [Mark μ] :
    (∀ es : List (Key × Value μ × Value μ), (∀ e ∈ es, e.2.1.key? = some e.1) →
      ∀ h keys, h = Indexed.insertAll Indexed.empty es → keys = (es.map Prod.fst).eraseDups →
        (∀ k, h.get? k = lastUnder k es) ∧
        h.items.toList.map some = keys.map (fun k => lastUnder k es) ∧
        h.items.size = keys.length ∧
        (∀ k i, h.position? k = some i ↔ ∃ p, h.items[i]? = some p ∧ p.1.key? = some k) ∧
        Table.insertAll [] es = keys.zip h.items.toList) ∧
    ∀ n (m : μ) exprs frame s s' es, GivesEntries (eval n) frame exprs s es s' →
      ∃ id s'', eval (n + 1) (.table m exprs) frame s =
          some (.table id (Table.insertAll [] es), s'') ∧
        (∀ a k, Value.key? a = some k → (Value.table id (Table.insertAll [] es)).index a =
          .ok (((lastUnder k es).map Prod.snd).getD .null)) ∧
        ∀ m' q a k t, eval (n + 1) q frame s'' = some (a, t) → a.key? = some k →
          eval (n + 2) (.index m' (.table m exprs) q) frame s =
            some (((lastUnder k es).map Prod.snd).getD .null, t) := by
  constructor
  · rintro es hes _ _ rfl rfl
    have hagrees := Indexed.agrees_insertAll es
    have hitems := Table.map_some_insertAll es
    rw [← hagrees.items] at hitems
    refine ⟨fun k => ?_, hitems, ?_, fun k i => Indexed.position?_insertAll_iff hes, ?_⟩
    · rw [hagrees.get?_eq (Table.nodup_insertAll (t := []) List.nodup_nil es),
        Table.find?_insertAll_nil]
    · rw [hagrees.size_eq, ← Table.keys_insertAll, List.length_map]
    · exact List.zip_of_prod (Table.keys_insertAll es) hagrees.items.symm
  · intro n m exprs frame s s' es hes
    exact ⟨_, _, eval_table_of_gives m hes, fun a k hk => index_table_eq _ hk,
      fun m' q a k t hq hk => eval_index_literal m m' hes hq hk⟩

/-- The entries of `{1: "a", true: "b", 1: "c"}`. -/
def repeatedKey : List (Expr String × Expr String) :=
  [(.int "" 1, .string "" "a"), (.bool "" true, .string "" "b"), (.int "" 1, .string "" "c")]

/-- What the entries of `repeatedKey` give. -/
def repeatedEntries : List (Key × Value String × Value String) :=
  [(⟨.integer, 1⟩, .int 1, .string "a"), (⟨.boolean, 1⟩, .bool true, .string "b"),
    (⟨.integer, 1⟩, .int 1, .string "c")]

/-- A key that comes twice keeps its place and has what was put in last. -/
theorem insertion_ordered_repeated :
    ((∀ e ∈ repeatedEntries, e.2.1.key? = some e.1) ∧
      (Indexed.insertAll Indexed.empty repeatedEntries).items.toList =
        [(.int 1, .string "c"), (.bool true, .string "b")]) ∧
    GivesEntries (eval 1) 0 repeatedKey Store.empty repeatedEntries Store.empty ∧
    ∃ t, eval 3 (.index "" (.table "" repeatedKey) (.int "" 1)) 0 Store.empty =
      some (.string "c", t) := by
  have hkeys : ∀ e ∈ repeatedEntries, e.2.1.key? = some e.1 := by decide
  have hes : GivesEntries (eval 1) 0 repeatedKey Store.empty repeatedEntries Store.empty :=
    .cons rfl rfl rfl rfl (.cons rfl rfl rfl rfl (.cons rfl rfl rfl rfl (.nil _)))
  obtain ⟨-, hitems, -⟩ := insertion_ordered.1 repeatedEntries hkeys _ _ rfl rfl
  obtain ⟨id, s'', -, -, hindex⟩ := insertion_ordered.2 1 "" repeatedKey 0 _ _ _ hes
  refine ⟨⟨hkeys, ?_⟩, hes, _, hindex "" (.int "" 1) (.int 1) ⟨.integer, 1⟩ s'' rfl rfl⟩
  exact List.map_injective_iff.2 (fun _ _ => Option.some.inj) hitems

end Run

end Treewalk
