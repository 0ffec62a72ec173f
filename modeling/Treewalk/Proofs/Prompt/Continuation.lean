import Treewalk.Prompt.Bracket

/-! # What an input can become

The verdict on an input tells what the verdicts on its continuations can be.

* A character either leads from what is open to what is open after it, or it is a closing bracket
  without match (`Open.next?`).
* A closing bracket without match decides the verdict on all that follows, and every other input
  leads to something open from which the verdict goes on (`Open.judge_append`).
* Only opening brackets are ever left open (`Open.Sound`), so all that is open can be closed: the
  quote first, then the brackets, the last one first (`Open.judge_closing`). -/

namespace Treewalk.Prompt

namespace Open

/-! ### One character -/

/-- What is open after one more character.  Nothing follows a closing bracket without match. -/
def next? (o : Open) (c : Char) : Option Open :=
  if o.quoted then some { o with quoted := c != '"' }
  else if c = '"' then some { o with quoted := true }
  else if isOpening c then some { o with brackets := c :: o.brackets }
  else if isClosing c then
    match o.brackets with
    | b :: bs => if closes b c then some { o with brackets := bs } else none
    | [] => none
  else some o

/-- The verdict on an input is one on what is open after its first character. -/
theorem judge_cons (o : Open) (i : Nat) (c : Char) (cs : List Char) :
    o.judge i (c :: cs) =
      match o.next? c with
      | some o' => o'.judge (i + 1) cs
      | none => .invalid c i := by
  rw [judge, next?]
  by_cases hquoted : o.quoted
  · rw [if_pos hquoted, if_pos hquoted]
  rw [if_neg hquoted, if_neg hquoted]
  by_cases hquote : c = '"'
  · rw [if_pos hquote, if_pos hquote]
  rw [if_neg hquote, if_neg hquote]
  by_cases hopening : isOpening c
  · rw [if_pos hopening, if_pos hopening]
  rw [if_neg hopening, if_neg hopening]
  by_cases hclosing : isClosing c
  · rw [if_pos hclosing, if_pos hclosing]
    cases o.brackets with
    | nil => rfl
    | cons b bs =>
        by_cases hcloses : closes b c = true
        · simp only [if_pos hcloses]
        · simp only [if_neg hcloses]
  · rw [if_neg hclosing, if_neg hclosing]

/-- All that is left open are opening brackets. -/
def Sound (o : Open) : Prop :=
  ∀ b ∈ o.brackets, isOpening b = true

theorem sound_start : Sound ⟨[], false⟩ := by
  simp [Sound]

theorem Sound.next {o o' : Open} {c : Char} (h : o.Sound) (hnext : o.next? c = some o') :
    o'.Sound := by
  unfold next? at hnext
  split at hnext
  · obtain rfl := Option.some.inj hnext
    exact h
  split at hnext
  · obtain rfl := Option.some.inj hnext
    exact h
  split at hnext
  · rename_i hopening
    obtain rfl := Option.some.inj hnext
    exact List.forall_mem_cons.2 ⟨hopening, h⟩
  split at hnext
  · split at hnext
    · rename_i b bs hbrackets
      split at hnext
      · obtain rfl := Option.some.inj hnext
        intro d hd
        exact h d (by rw [hbrackets]; exact List.mem_cons_of_mem b hd)
      · cases hnext
    · cases hnext
  · obtain rfl := Option.some.inj hnext
    exact h

/-! ### Many characters -/

/-- At the end of an input no bracket is without match. -/
theorem judge_nil_ne (o : Open) (i : Nat) (c : Char) (j : Nat) : o.judge i [] ≠ .invalid c j := by
  rw [judge]
  split <;> simp

/-- An input leads to something open, from which the verdict on all its continuations goes on, or it
decides the verdict on all of them. -/
theorem judge_append {o : Open} (h : o.Sound) (i : Nat) (xs : List Char) :
    (∃ o' : Open, o'.Sound ∧ ∀ ys, o.judge i (xs ++ ys) = o'.judge (i + xs.length) ys) ∨
      ∃ c j, ∀ ys, o.judge i (xs ++ ys) = .invalid c j := by
  induction xs generalizing o i with
  | nil => exact .inl ⟨o, h, fun ys => rfl⟩
  | cons x xs ih =>
      simp only [List.cons_append, judge_cons, List.length_cons]
      cases hnext : o.next? x with
      | none => exact .inr ⟨x, i, fun ys => rfl⟩
      | some o' =>
          have hlength : i + (xs.length + 1) = i + 1 + xs.length := by omega
          rw [hlength]
          exact ih (h.next hnext) (i + 1)

/-! ### Closing what is open -/

/-- The bracket that closes an opening one. -/
def closer (b : Char) : Char :=
  if b = '(' then ')' else if b = '[' then ']' else '}'

/-- The characters that close all that is open. -/
def closing (o : Open) : List Char :=
  (if o.quoted then ['"'] else []) ++ o.brackets.map closer

theorem next?_closer {b : Char} (h : isOpening b = true) (bs : List Char) :
    next? ⟨b :: bs, false⟩ (closer b) = some ⟨bs, false⟩ := by
  simp only [isOpening, Bool.or_eq_true, beq_iff_eq] at h
  rcases h with (rfl | rfl) | rfl <;> rfl

theorem judge_closers (i : Nat) {bs : List Char} (h : ∀ b ∈ bs, isOpening b = true) :
    judge ⟨bs, false⟩ i (bs.map closer) = .valid := by
  induction bs generalizing i with
  | nil => rfl
  | cons b bs ih =>
      rw [List.forall_mem_cons] at h
      rw [List.map_cons, judge_cons, next?_closer h.1]
      exact ih (i + 1) h.2

/-- Closing all that is open makes an input valid. -/
theorem judge_closing {o : Open} (h : o.Sound) (i : Nat) : o.judge i o.closing = .valid := by
  obtain ⟨bs, quoted⟩ := o
  cases quoted with
  | false => exact judge_closers i h
  | true =>
      have hquote : next? ⟨bs, true⟩ '"' = some ⟨bs, false⟩ := rfl
      rw [closing, if_pos rfl, List.singleton_append, judge_cons, hquote]
      exact judge_closers (i + 1) h

end Open

/-! ### The verdict -/

theorem judge_append_toList (w t : String) :
    judge (w ++ t) = Open.judge ⟨[], false⟩ 0 (w.toList ++ t.toList) := by
  rw [judge, String.toList_append]

/-- An input names no bracket and can be made valid, or it names the same closing bracket whatever
follows. -/
theorem exists_valid_or_invalid (w : String) :
    ((∀ c i, judge w ≠ .invalid c i) ∧ ∃ t, judge (w ++ t) = .valid) ∨
      ∃ c i, ∀ t, judge (w ++ t) = .invalid c i := by
  rcases Open.judge_append Open.sound_start 0 w.toList with ⟨o, hsound, ho⟩ | ⟨c, i, hinvalid⟩
  · refine .inl ⟨fun c i => ?_, String.ofList o.closing, ?_⟩
    · have hend := ho []
      rw [List.append_nil] at hend
      rw [judge, hend]
      exact o.judge_nil_ne _ c i
    · rw [judge_append_toList, ho, String.toList_ofList]
      exact Open.judge_closing hsound _
  · exact .inr ⟨c, i, fun t => by rw [judge_append_toList, hinvalid]⟩

/-- **The verdict on an input says what can still follow.**  A closing bracket without match stays
the one that is named, an incomplete input has a valid continuation, and an input is invalid exactly
when no continuation of it is valid. -/
theorem judge_continuations (w : String) :
    (∀ c i, judge w = .invalid c i → ∀ t,
      judge (w ++ t) = .invalid c i ∧ (judge (w ++ t)).message? = (judge w).message?) ∧
    (judge w = .incomplete → ∃ t, judge (w ++ t) = .valid) ∧
    ((∃ c i, judge w = .invalid c i) ↔ ∀ t, judge (w ++ t) ≠ .valid) := by
  rcases exists_valid_or_invalid w with ⟨hnamed, t, ht⟩ | ⟨c, i, hinvalid⟩
  · refine ⟨fun c i hw => absurd hw (hnamed c i), fun _ => ⟨t, ht⟩, ?_, fun hnone => ?_⟩
    · rintro ⟨c, i, hw⟩
      exact absurd hw (hnamed c i)
    · exact absurd ht (hnone t)
  · have hw : judge w = .invalid c i := by
      have hself := hinvalid ""
      rwa [String.append_empty] at hself
    refine ⟨fun d j hd t => ?_, fun hincomplete => ?_, fun _ t => ?_, fun _ => ⟨c, i, hw⟩⟩
    · rw [hinvalid t, ← hd, hw]
      exact ⟨rfl, rfl⟩
    · rw [hw] at hincomplete
      cases hincomplete
    · rw [hinvalid t]
      exact Verdict.noConfusion

/-- A bracket that does not match, and a string with two brackets open around it. -/
theorem judge_continuations_open :
    judge "f(a]" = .invalid ']' 3 ∧ judge "f(a] + (b)" = .invalid ']' 3 ∧
      judge "[f(\"a)" = .incomplete ∧ ∃ t, judge ("[f(\"a)" ++ t) = .valid := by
  have hnamed : judge "f(a]" = .invalid ']' 3 := by decide
  have hopen : judge "[f(\"a)" = .incomplete := by decide
  exact ⟨hnamed, ((judge_continuations "f(a]").1 ']' 3 hnamed " + (b)").1, hopen,
    (judge_continuations "[f(\"a)").2.1 hopen⟩

end Treewalk.Prompt
