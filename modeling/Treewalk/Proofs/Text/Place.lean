import Treewalk.Text.Line

/-! # Lines and columns

Each character of a text has one place, a line and a column, and no two characters have the same.

* `StandsAt cs k line column` says which place that of the offset `k` is, in terms of the lines alone.
* `lineAt` finds the line (`standsAt_lineAt`), and the place leads back to the offset
  (`StandsAt.unique`). -/

namespace Treewalk.Text

variable {cs : List Char} {k : Nat}

/-- The character at the offset `k` stands in a line and a column, both counted from one.  The end of a
text counts as a character of its last line. -/
def StandsAt (cs : List Char) (k line column : Nat) : Prop :=
  ∃ before l after, (lines cs).map Line.chars = before ++ l :: after ∧
    line = before.length + 1 ∧
    0 < column ∧ k + 1 = before.flatten.length + column ∧
    (after ≠ [] → k < before.flatten.length + l.length)

/-- The place of a character tells which one it is. -/
theorem StandsAt.unique {k' line column : Nat} (h : StandsAt cs k line column)
    (h' : StandsAt cs k' line column) : k = k' := by
  obtain ⟨before, l, after, hlines, hline, -, hcolumn, -⟩ := h
  obtain ⟨before', l', after', hlines', hline', -, hcolumn', -⟩ := h'
  obtain ⟨rfl, -⟩ := List.append_inj (hlines.symm.trans hlines') (by omega)
  omega

/-! ### Finding the line -/

/-- The numbers and offsets of lines count the lines and the characters before them. -/
theorem enumerate_eq_append {n o : Nat} {ls : List (List Char)} {before after : List Line} {l : Line}
    (h : enumerate n o ls = before ++ l :: after) :
    l.number = n + before.length ∧ l.offset = o + (before.map Line.chars).flatten.length := by
  induction ls generalizing n o before with
  | nil => simp [enumerate] at h
  | cons cs ls ih =>
      cases before with
      | nil =>
          obtain ⟨rfl, -⟩ := List.cons.inj h
          exact ⟨rfl, rfl⟩
      | cons first before =>
          obtain ⟨rfl, htail⟩ := List.cons.inj h
          obtain ⟨hnumber, hoffset⟩ := ih htail
          constructor
          · rw [hnumber, List.length_cons]
            omega
          · rw [hoffset, List.map_cons, List.flatten_cons, List.length_append]
            show o + cs.length + _ = o + (cs.length + _)
            omega

theorem exists_lines_eq (cs : List Char) : ∃ ls, lines cs = enumerate 0 0 ls ∧ ls ≠ [] := by
  unfold lines
  cases split cs with
  | nil => exact ⟨[[]], rfl, List.cons_ne_nil _ _⟩
  | cons l ls => exact ⟨l :: ls, rfl, List.cons_ne_nil _ _⟩

/-- The line at an offset does not start behind it, and all later ones do. -/
theorem exists_lineAt (cs : List Char) (k : Nat) :
    ∃ before after, lines cs = before ++ lineAt cs k :: after ∧ (lineAt cs k).offset ≤ k ∧
      ∀ l ∈ after, k < l.offset := by
  unfold lineAt
  cases hfound : (lines cs).reverse.find? fun l => l.offset ≤ k with
  | none =>
      obtain ⟨ls, hls, hne⟩ := exists_lines_eq cs
      obtain ⟨l, ls, rfl⟩ := List.exists_cons_of_ne_nil hne
      have hfirst := List.find?_eq_none.1 hfound ⟨0, 0, l⟩
        (List.mem_reverse.2 (hls ▸ List.mem_cons_self))
      simp at hfirst
  | some l =>
      obtain ⟨hle, later, earlier, hreverse, hlater⟩ := List.find?_eq_some_iff_append.1 hfound
      refine ⟨earlier.reverse, later.reverse, ?_, of_decide_eq_true hle, fun m hm => ?_⟩
      · rw [← List.reverse_reverse (lines cs), hreverse]
        simp
      · have hnot := hlater m (List.mem_reverse.1 hm)
        simpa using hnot

/-- The line at an offset gives the place of the character there. -/
theorem standsAt_lineAt (cs : List Char) (k : Nat) :
    StandsAt cs k ((lineAt cs k).number + 1) (k - (lineAt cs k).offset + 1) := by
  obtain ⟨before, after, hlines, hle, hafter⟩ := exists_lineAt cs k
  obtain ⟨ls, hls, -⟩ := exists_lines_eq cs
  have hsplit := hls.symm.trans hlines
  obtain ⟨hnumber, hoffset⟩ := enumerate_eq_append hsplit
  refine ⟨before.map Line.chars, (lineAt cs k).chars, after.map Line.chars, ?_, ?_, ?_, ?_, ?_⟩
  · rw [hlines, List.map_append, List.map_cons]
  · rw [hnumber, List.length_map, Nat.zero_add]
  · exact Nat.succ_pos _
  · omega
  · intro hne
    cases after with
    | nil => exact absurd rfl hne
    | cons next after =>
        have hnext : enumerate 0 0 ls = (before ++ [lineAt cs k]) ++ next :: after := by
          rw [hsplit, List.append_assoc]
          rfl
        have hlt := hafter next List.mem_cons_self
        rw [(enumerate_eq_append hnext).2, List.map_append, List.flatten_append, List.length_append] at hlt
        simpa using hlt

end Treewalk.Text
