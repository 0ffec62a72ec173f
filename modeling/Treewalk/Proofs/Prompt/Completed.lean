import Mathlib.Data.List.Nodup
import Mathlib.Data.List.Sort
import Treewalk.Prompt.Completion
import Treewalk.Proofs.Run.Spoken
import Treewalk.Proofs.Token.Beginning

/-! # What completing offers

The names that can be completed to are the known ones: the keywords, the functions of the language
itself and the names that have a value.

* What is offered behind a name is the rest of each longer name that begins with it
  (`mem_completions_iff`), each once and in order (`pairwise_completions`).
* All known names of a session are runs of letters and underscores (`isWord_of_known`), so what is
  put in makes one token with the name before it (`completions_right`).
* Nothing is missing behind a run of letters and underscores, unless the run is itself a keyword:
  there the text ends in no name, and nothing is offered (`completions_complete`). -/

namespace Treewalk

namespace Prompt

open Token Text

variable {s : Store Token} {frame : Nat} {name start rest line : String}

/-- A keyword, a function of the language itself, or a name that has a value. -/
def Known (s : Store Token) (frame : Nat) (name : String) : Prop :=
  name ∈ Kind.keywords.map Prod.fst ∨ name ∈ Builtin.all.map Builtin.name ∨
    (s.lookup frame name).isSome = true

theorem mem_candidates : name ∈ candidates s frame ↔ Known s frame name := by
  rw [candidates, List.mem_eraseDups, List.mem_append, List.mem_append, Store.mem_names, Known]
  tauto

theorem isWord_of_known (hs : Run.ReachedByTexts s) (h : Known s frame name) : IsWord name := by
  have hkeywords : ∀ name ∈ Kind.keywords.map Prod.fst, IsWord name := by decide
  have hbuiltins : ∀ name ∈ Builtin.all.map Builtin.name, IsWord name := by decide
  rcases h with hkeyword | hbuiltin | hvalue
  · exact hkeywords name hkeyword
  · exact hbuiltins name hbuiltin
  · exact hs.isWord hvalue

theorem nodup_eraseDups {α : Type} [DecidableEq α] (xs : List α) : xs.eraseDups.Nodup := by
  match xs with
  | [] => exact .nil
  | x :: xs =>
      rw [List.eraseDups_cons, List.nodup_cons, List.mem_eraseDups]
      exact ⟨by simp, nodup_eraseDups _⟩
termination_by xs.length
decreasing_by exact Nat.lt_succ_of_le (List.length_filter_le _ _)

/-! ### The rest of a name -/

theorem afterStart?_eq_some_iff {ps cs rs : List Char} :
    afterStart? ps cs = some rs ↔ cs = ps ++ rs := by
  induction ps generalizing cs with
  | nil => rw [afterStart?, Option.some.injEq, List.nil_append]
  | cons p ps ih =>
      cases cs with
      | nil => simp [afterStart?]
      | cons c cs =>
          rw [afterStart?, List.cons_append, List.cons.injEq]
          by_cases hc : p = c
          · rw [if_pos hc, ih]
            exact ⟨fun h => ⟨hc.symm, h⟩, And.right⟩
          · rw [if_neg hc]
            exact ⟨fun h => (by cases h), fun h => absurd h.1.symm hc⟩

/-- What a name that begins with another one adds to it. -/
theorem completion?_eq_some_iff :
    completion? start name = some rest ↔ rest ≠ "" ∧ name = start ++ rest := by
  have happend : name = start ++ rest ↔
      afterStart? start.toList name.toList = some rest.toList := by
    rw [afterStart?_eq_some_iff, ← String.toList_append, String.toList_inj]
  rw [happend, completion?]
  cases afterStart? start.toList name.toList with
  | none => simp
  | some cs =>
      cases cs with
      | nil =>
          refine ⟨fun h => (by cases h), fun h => absurd ?_ h.1⟩
          exact String.toList_eq_nil_iff.1 (Option.some.inj h.2).symm
      | cons c cs =>
          constructor
          · intro h
            obtain rfl := Option.some.inj h
            simp
          · intro h
            exact congrArg some (by rw [Option.some.inj h.2, String.ofList_toList])

/-! ### What is offered -/

/-- The name in which a text ends is its last token. -/
theorem lastName?_eq_some_iff : lastName? line = some name ↔
    ∃ t, (tokens line).getLast? = some t ∧ t.kind = .ident ∧ t.span.stop = line.utf8ByteSize ∧
      t.literal = name := by
  unfold lastName?
  cases (tokens line).getLast? with
  | none => simp
  | some t =>
      simp only [Option.some.injEq, exists_eq_left']
      split
      · rename_i h
        simp [h.1, h.2]
      · rename_i h
        simp only [reduceCtorEq, false_iff]
        tauto

/-- The text up to a place is what stands before it. -/
theorem ofList_takeBytes (before after : String) :
    String.ofList (takeBytes before.utf8ByteSize (before ++ after).toList) = before := by
  rw [String.toList_append, ← byteLength_toList, takeBytes_append, String.ofList_toList]

/-- What is offered at a place: the rests of the known names that begin with the one before the place
and are longer. -/
theorem mem_completions_iff {before after : String} :
    rest ∈ completions s frame (before ++ after) before.utf8ByteSize ↔
      rest ≠ "" ∧ ∃ name, lastName? before = some name ∧ Known s frame (name ++ rest) := by
  rw [completions, ofList_takeBytes]
  cases lastName? before with
  | none => simp
  | some name =>
      simp only [sorted, List.mem_mergeSort, List.mem_filterMap, mem_candidates,
        completion?_eq_some_iff, Option.some.injEq, exists_eq_left']
      constructor
      · rintro ⟨_, hknown, hne, rfl⟩
        exact ⟨hne, hknown⟩
      · rintro ⟨hne, hknown⟩
        exact ⟨_, hknown, hne, rfl⟩

/-- No completion is offered twice, and they come in the order of their code points. -/
theorem pairwise_completions (s : Store Token) (frame : Nat) (before after : String) :
    (completions s frame (before ++ after) before.utf8ByteSize).Pairwise (· < ·) := by
  rw [completions, ofList_takeBytes]
  cases lastName? before with
  | none => exact .nil
  | some name =>
      have hnodup : (sorted ((candidates s frame).filterMap (completion? name))).Nodup := by
        rw [sorted, (List.mergeSort_perm _ _).nodup_iff]
        refine (nodup_eraseDups _).filterMap fun a b rest ha hb => ?_
        rw [(completion?_eq_some_iff.1 ha).2, (completion?_eq_some_iff.1 hb).2]
      refine (List.pairwise_mergeSort' (· ≤ ·) _).imp₂ ?_ hnodup
      exact fun _ _ hle hne => String.not_le.1 fun hge => hne (String.le_antisymm hle hge)

/-! ### The text with a completion put in -/

/-- **Every offered completion is right.**  In a store that program texts led to, completing puts in at
the place where it is asked for, and offers each text once, in order.  None is empty; and behind the
text up to that place each makes its last token, where that starts, a known name that ends with the
text. -/
theorem completions_right (hs : Run.ReachedByTexts s) (frame : Nat) (before after : String) :
    ∃ cs, complete s frame (before ++ after) before.utf8ByteSize = (before.utf8ByteSize, cs) ∧
      cs.Pairwise (· < ·) ∧
      ∀ c ∈ cs, c ≠ "" ∧ ∃ t u, (tokens before).getLast? = some t ∧
        (tokens (before ++ c)).getLast? = some u ∧ u.span.stop = (before ++ c).utf8ByteSize ∧
        u.span.start = t.span.start ∧ Known s frame u.literal := by
  refine ⟨_, rfl, pairwise_completions s frame before after, fun c hc => ?_⟩
  obtain ⟨hne, name, hname, hknown⟩ := mem_completions_iff.1 hc
  obtain ⟨t, ht, hk, hstop, rfl⟩ := lastName?_eq_some_iff.1 hname
  refine ⟨hne, t, ?_⟩
  have hword : ∀ d ∈ c.toList, isWordChar d = true := by
    have hboth := (isWord_of_known hs hknown).2
    rw [String.toList_append, List.forall_mem_append] at hboth
    exact hboth.2
  obtain ⟨ts, hconcat⟩ := List.getLast?_eq_some_iff.1 ht
  have hisWord : t.kind.isWord = true := by
    rw [hk]
    rfl
  rw [← byteLength_toList, ← Nat.zero_add (byteLength _)] at hstop
  have hscan := scan_append_word hconcat hisWord hstop hword
  rw [← String.toList_append, String.ofList_toList, byteLength_toList, Nat.zero_add] at hscan
  exact ⟨_, ht, List.getLast?_eq_some_iff.2 ⟨ts, hscan⟩, rfl, rfl, hknown⟩

/-- The session that has read `let letter = 1`, and the line `f(lett)`. -/
theorem completions_right_letter :
    ∃ s, Run.ReachedByTexts s ∧ complete s 0 ("f(lett" ++ ")") 6 = (6, ["er"]) ∧
      ∃ cs, complete s 0 ("f(lett" ++ ")") "f(lett".utf8ByteSize = (6, cs) ∧ cs.Pairwise (· < ·) ∧
        ∀ c ∈ cs, c ≠ "" ∧ ∃ t u, (tokens "f(lett").getLast? = some t ∧
          (tokens ("f(lett" ++ c)).getLast? = some u ∧
          u.span.stop = ("f(lett" ++ c).utf8ByteSize ∧ u.span.start = t.span.start ∧
          Known s 0 u.literal := by
  have hfeed : ((Session.start.feed "let letter = 1" false).map fun x =>
      complete x.2.store 0 ("f(lett" ++ ")") 6) = some (6, ["er"]) := by decide +kernel
  obtain ⟨⟨step, session⟩, hread, hcomplete⟩ := Option.map_eq_some_iff.1 hfeed
  have hs : Run.ReachedByTexts session.store := .feed .start hread
  exact ⟨_, hs, hcomplete, completions_right hs 0 "f(lett" ")"⟩

/-! ### No name is missing -/

/-- A text ends within a string: one of its quotes is not closed. -/
def EndsInString (text : String) : Prop :=
  text.toList.count '"' % 2 = 1

instance (text : String) : Decidable (EndsInString text) :=
  inferInstanceAs (Decidable (_ = _))

/-- **No completion is missing.**  Behind a run of letters and underscores, not within a string, the
rest of every known name that begins with the run is offered, unless the run is a keyword.  Behind a
keyword nothing is. -/
theorem completions_complete {before w : String} (hw : IsWord w)
    (hlast : ∀ c, before.toList.getLast? = some c → isWordChar c = false)
    (hstring : ¬ EndsInString before) (s : Store Token) (frame : Nat) (after : String) :
    (w ∉ Kind.keywords.map Prod.fst → ∀ rest, rest ≠ "" → Known s frame (w ++ rest) →
      rest ∈ (complete s frame (before ++ w ++ after) (before ++ w).utf8ByteSize).2) ∧
    (w ∈ Kind.keywords.map Prod.fst →
      (complete s frame (before ++ w ++ after) (before ++ w).utf8ByteSize).2 = []) := by
  have hclosed : (tokens before).getLast?.any isUnclosed = false := by
    rw [Bool.eq_false_iff]
    exact mt (any_isUnclosed_iff 0 before.toList).1 hstring
  have hne : w.toList ≠ [] := mt String.toList_eq_nil_iff.1 hw.1
  have hscan := scan_append_run hclosed hlast hne hw.2
  rw [← String.toList_append, String.ofList_toList, Nat.zero_add, byteLength_toList,
    byteLength_toList, ← String.utf8ByteSize_append] at hscan
  have htoken : (tokens (before ++ w)).getLast? =
      some ⟨Kind.ofWord w, w, ⟨before.utf8ByteSize, (before ++ w).utf8ByteSize⟩⟩ :=
    List.getLast?_eq_some_iff.2 ⟨_, hscan⟩
  constructor
  · intro hkeyword rest hrest hknown
    refine mem_completions_iff.2 ⟨hrest, w, ?_, hknown⟩
    exact lastName?_eq_some_iff.2 ⟨_, htoken, ofWord_eq_ident_iff.2 hkeyword, rfl, rfl⟩
  · intro hkeyword
    refine List.eq_nil_iff_forall_not_mem.2 fun rest hmem => ?_
    obtain ⟨-, name, hname, -⟩ := mem_completions_iff.1 hmem
    obtain ⟨t, ht, hk, -⟩ := lastName?_eq_some_iff.1 hname
    rw [htoken] at ht
    obtain rfl := Option.some.inj ht
    exact ofWord_eq_ident_iff.1 hk hkeyword

/-- The session that has read `let letter = 1`, and the lines `f(le)` and `f(let)`. -/
theorem completions_complete_letter :
    ∃ s, Run.ReachedByTexts s ∧ IsWord "le" ∧
      (∀ c, "f(".toList.getLast? = some c → isWordChar c = false) ∧ ¬ EndsInString "f(" ∧
      Known s 0 ("le" ++ "tter") ∧
      "tter" ∈ (complete s 0 ("f(" ++ "le" ++ ")") ("f(" ++ "le").utf8ByteSize).2 ∧
      (complete s 0 ("f(" ++ "let" ++ ")") ("f(" ++ "let").utf8ByteSize).2 = [] := by
  have hfeed : ((Session.start.feed "let letter = 1" false).map fun x =>
      (x.2.store.lookup 0 "letter").isSome) = some true := by decide +kernel
  obtain ⟨⟨step, session⟩, hread, hletter⟩ := Option.map_eq_some_iff.1 hfeed
  have hlast : ∀ c, "f(".toList.getLast? = some c → isWordChar c = false := by
    rintro c ⟨⟩
    rfl
  have hstring : ¬ EndsInString "f(" := by decide
  have hknown : Known session.store 0 ("le" ++ "tter") := .inr (.inr hletter)
  exact ⟨_, .feed .start hread, by decide, hlast, hstring, hknown,
    (completions_complete (by decide) hlast hstring session.store 0 ")").1 (by decide) "tter"
      (by decide) hknown,
    (completions_complete (by decide) hlast hstring session.store 0 ")").2 (by decide)⟩

/-- Behind the keyword `let` the rest of a longer name is not offered. -/
theorem not_completions_complete :
    ¬ ∀ (s : Store Token) (frame : Nat) (before w after rest : String),
      Run.ReachedByTexts s → IsWord w →
      (∀ c, before.toList.getLast? = some c → isWordChar c = false) → ¬ EndsInString before →
      rest ≠ "" → Known s frame (w ++ rest) →
      rest ∈ (complete s frame (before ++ w ++ after) (before ++ w).utf8ByteSize).2 := by
  have hfeed : ((Session.start.feed "let letter = 1" false).map fun x =>
      ((x.2.store.lookup 0 "letter").isSome, complete x.2.store 0 "let" 3)) =
        some (true, 3, []) := by decide +kernel
  obtain ⟨⟨step, session⟩, hread, hresult⟩ := Option.map_eq_some_iff.1 hfeed
  obtain ⟨hletter, hcomplete⟩ := Prod.mk.inj hresult
  intro hall
  have hmem := hall session.store 0 "" "let" "" "ter" (.feed .start hread) (by decide)
    (fun c hc => by cases hc) (by decide) (by decide) (.inr (.inr hletter))
  change "ter" ∈ (complete session.store 0 "let" 3).2 at hmem
  rw [hcomplete] at hmem
  cases hmem

end Prompt

end Treewalk
