import Treewalk.Proofs.Run.Frames

/-! # Names along a path

The value of a name in a frame is the one bound in the frame itself, or else its value in the outer
frame (`lookup_eq`).  So a name that has a value keeps one as a store grows (`Binds.isSome_lookup`), and
keeps its value if nothing binds it (`Binds.lookup_eq`), and the names of a frame are those that have
a value there (`mem_names`).

A binding changes what one name means in one frame (`local?_define_eq`), and a new frame binds nothing
yet (`local?_newFrame`). -/

namespace Treewalk

variable {μ : Type}

namespace Store

variable {s s' : Store μ} {W : Nat → String → Prop} {frame : Nat} {name : String}

theorem path_of_outer {outer : Nat} (h : s.outer? frame = some outer) (hlt : outer < frame) :
    s.path frame = frame :: s.path outer := by
  rw [path, h]
  exact if_pos hlt

theorem path_of_outermost (h : ∀ outer, s.outer? frame = some outer → ¬ outer < frame) :
    s.path frame = [frame] := by
  rw [path]
  cases ho : s.outer? frame with
  | none => rfl
  | some outer => exact if_neg (h outer ho)

/-- A name means what the frame itself binds it to, or what it means further out. -/
theorem lookup_eq (s : Store μ) (frame : Nat) (name : String) :
    s.lookup frame name = (s.local? frame name).or
      ((s.outer? frame).bind fun outer => if outer < frame then s.lookup outer name else none) := by
  by_cases h : ∃ outer, s.outer? frame = some outer ∧ outer < frame
  · obtain ⟨outer, ho, hlt⟩ := h
    rw [lookup, path_of_outer ho hlt, List.findSome?_cons, ho, Option.bind_some, if_pos hlt]
    cases s.local? frame name <;> rfl
  · have hout : ∀ outer, s.outer? frame = some outer → ¬ outer < frame :=
      fun outer ho hlt => h ⟨outer, ho, hlt⟩
    have hnone : ((s.outer? frame).bind fun outer =>
        if outer < frame then s.lookup outer name else none) = none := by
      cases ho : s.outer? frame with
      | none => rfl
      | some outer => exact if_neg (hout outer ho)
    rw [hnone, Option.or_none, lookup, path_of_outermost hout, List.findSome?_cons]
    cases s.local? frame name <;> rfl

theorem lookup_of_local? {v : Value μ} (h : s.local? frame name = some v) :
    s.lookup frame name = some v := by
  rw [lookup_eq, h, Option.some_or]

/-- A name means the same in two stores whose frames lie in the same frames, if each frame binds it to
the same. -/
theorem lookup_congr (houter : ∀ i, s'.outer? i = s.outer? i)
    (hlocal : ∀ i, s'.local? i name = s.local? i name) :
    s'.lookup frame name = s.lookup frame name := by
  induction frame using Nat.strongRecOn with
  | ind frame ih =>
      rw [lookup_eq, lookup_eq, houter, hlocal]
      cases s.outer? frame with
      | none => rfl
      | some outer =>
          rw [Option.bind_some, Option.bind_some]
          by_cases hlt : outer < frame
          · rw [if_pos hlt, if_pos hlt, ih outer hlt]
          · rw [if_neg hlt, if_neg hlt]

theorem lookup_of_frames_eq (h : s'.frames = s.frames) :
    s'.lookup frame name = s.lookup frame name :=
  lookup_congr (fun i => by rw [outer?, outer?, h]) fun i => by rw [local?, local?, h]

theorem isSome_lookup_iff : (s.lookup frame name).isSome = true ↔
    (s.local? frame name).isSome = true ∨
      ∃ outer, s.outer? frame = some outer ∧ outer < frame ∧
        (s.lookup outer name).isSome = true := by
  rw [lookup_eq, Option.isSome_or, Bool.or_eq_true]
  cases s.outer? frame with
  | none => simp
  | some outer =>
      by_cases hlt : outer < frame
      · simp [hlt]
      · simp [hlt]

/-- A name that has a value in a frame keeps one. -/
theorem Binds.isSome_lookup (h : Binds W s s') (hsome : (s.lookup frame name).isSome = true) :
    (s'.lookup frame name).isSome = true := by
  induction frame using Nat.strongRecOn with
  | ind frame ih =>
      rw [isSome_lookup_iff] at hsome ⊢
      rcases hsome with hlocal | ⟨outer, ho, hlt, hout⟩
      · exact .inl (h.isSome_local? hlocal)
      · refine .inr ⟨outer, ?_, hlt, ih outer hlt hout⟩
        have hsize : frame < s.frames.size := Nat.lt_of_not_le fun hge => by
          rw [outer?, Array.getElem?_eq_none hge] at ho
          cases ho
        rw [h.outer?_eq hsize, ho]

theorem lookup_of_size_le (h : s.frames.size ≤ frame) (name : String) :
    s.lookup frame name = none := by
  have hlocal : s.local? frame name = none := by rw [local?, Array.getElem?_eq_none h]
  have houter : s.outer? frame = none := by rw [outer?, Array.getElem?_eq_none h]
  rw [lookup_eq, hlocal, houter]
  rfl

/-- A name that nothing may bind means what it meant before. -/
theorem Binds.lookup_eq (h : Binds W s s') (hframe : frame < s.frames.size)
    (hW : ∀ i, ¬ W i name) : s'.lookup frame name = s.lookup frame name := by
  induction frame using Nat.strongRecOn with
  | ind frame ih =>
      rw [Store.lookup_eq, Store.lookup_eq, h.local?_eq hframe (hW frame), h.outer?_eq hframe]
      cases s.outer? frame with
      | none => rfl
      | some outer =>
          rw [Option.bind_some, Option.bind_some]
          by_cases hlt : outer < frame
          · rw [if_pos hlt, if_pos hlt, ih outer hlt (Nat.lt_trans hlt hframe)]
          · rw [if_neg hlt, if_neg hlt]

theorem mem_localNames : name ∈ s.localNames frame ↔ (s.local? frame name).isSome = true := by
  unfold localNames local?
  cases s.frames[frame]? with
  | none => simp
  | some f =>
      simp only [List.mem_eraseDups]
      induction f.bindings with
      | nil => simp
      | cons b bs ih =>
          rw [List.map_cons, List.mem_cons, List.lookup_cons, ih]
          by_cases hb : name = b.1
          · simp [hb]
          · rw [beq_eq_false_iff_ne.2 hb]
            exact or_iff_right hb

/-- The names of a frame are those that have a value there. -/
theorem mem_names : name ∈ s.names frame ↔ (s.lookup frame name).isSome = true := by
  rw [names, List.mem_mergeSort, List.mem_eraseDups, List.mem_flatMap, lookup,
    List.findSome?_isSome_iff]
  simp only [mem_localNames]

/-! ### What a binding and a new frame change -/

theorem size_define (frame : Nat) (name : String) (v : Value μ) :
    (s.define frame name v).frames.size = s.frames.size :=
  Array.size_modify

theorem outer?_define (frame : Nat) (name : String) (v : Value μ) (i : Nat) :
    (s.define frame name v).outer? i = s.outer? i := by
  rw [outer?, outer?, define, Array.getElem?_modify]
  by_cases hi : frame = i
  · rw [if_pos hi]
    cases s.frames[i]? <;> rfl
  · rw [if_neg hi]

/-- After a binding in a frame that is there, the name means what was bound, and all else means what it
meant before. -/
theorem local?_define_eq {frame : Nat} (h : frame < s.frames.size) (name : String) (v : Value μ)
    (i : Nat) (name' : String) : (s.define frame name v).local? i name' =
      if i = frame ∧ name' = name then some v else s.local? i name' := by
  rw [local?, local?, define, Array.getElem?_modify]
  by_cases hi : frame = i
  · subst hi
    rw [if_pos rfl, Array.getElem?_eq_getElem h]
    simp only [Option.map_some, List.lookup_cons, true_and]
    by_cases hname : name' = name
    · rw [hname, beq_self_eq_true, if_pos rfl]
    · rw [beq_eq_false_iff_ne.2 hname, if_neg hname]
  · rw [if_neg hi, if_neg fun heq => hi heq.1.symm]

theorem local?_define_of_le {frame : Nat} (h : s.frames.size ≤ frame) (name : String) (v : Value μ)
    (i : Nat) (name' : String) : (s.define frame name v).local? i name' = s.local? i name' := by
  rw [local?, local?, define, Array.getElem?_modify]
  by_cases hi : frame = i
  · subst hi
    rw [if_pos rfl, Array.getElem?_eq_none h]
    rfl
  · rw [if_neg hi]

theorem local?_newFrame (outer : Option Nat) (i : Nat) (name : String) :
    (s.newFrame outer).2.local? i name = s.local? i name := by
  rw [local?, local?, newFrame, Array.getElem?_push]
  by_cases hi : i = s.frames.size
  · rw [if_pos hi, Array.getElem?_eq_none (Nat.le_of_eq hi.symm)]
    rfl
  · rw [if_neg hi]

theorem outer?_newFrame (outer : Option Nat) (i : Nat) :
    (s.newFrame outer).2.outer? i = if i = s.frames.size then outer else s.outer? i := by
  rw [outer?, outer?, newFrame, Array.getElem?_push]
  by_cases hi : i = s.frames.size
  · rw [if_pos hi, if_pos hi]
  · rw [if_neg hi, if_neg hi]

end Store

end Treewalk
