import Treewalk.Proofs.Run.Keeping
import Treewalk.Proofs.Syntax.Targets

/-! # What a run writes

A program writes to the frame that it is run in and to frames made meanwhile, and to no other.

* `Binds W s s'` says of two stores that every frame of the first is a frame of the second, with the
  same outer frame and the same bindings, but for new ones.  `W` says which names may have become
  bound anew in which frames.
* `Within W m` says that `m` binds only what `W` allows.
* In the frame that a tree is evaluated in, only the targets of its own `let` statements are bound
  (`Local`).
* A call binds in a frame of its own, which it makes first.  So it leaves all frames as they were
  that existed before (`within_apply`).

`Local ev` is the assumption on the evaluator for the parts of an expression, and `local_eval`
discharges it for any depth of nesting. -/

namespace Treewalk

variable {μ : Type}

namespace Store

/-- Each frame of a store is still there, with new bindings at most, all of which `W` allows. -/
def Binds (W : Nat → String → Prop) (s s' : Store μ) : Prop :=
  ∀ i f, s.frames[i]? = some f →
    ∃ new, s'.frames[i]? = some { f with bindings := new ++ f.bindings } ∧ ∀ b ∈ new, W i b.1

variable {W W' : Nat → String → Prop} {s s' s'' : Store μ}

theorem Binds.of_frames_eq (h : s'.frames = s.frames) : Binds W s s' := by
  intro i f hf
  refine ⟨[], ?_, by simp⟩
  rw [h, hf, List.nil_append]

theorem Binds.trans (h : Binds W s s') (h' : Binds W s' s'') : Binds W s s'' := by
  intro i f hf
  obtain ⟨new, hnew, hW⟩ := h i f hf
  obtain ⟨new', hnew', hW'⟩ := h' i _ hnew
  refine ⟨new' ++ new, ?_, ?_⟩
  · rw [hnew', List.append_assoc]
  · rw [List.forall_mem_append]
    exact ⟨hW', hW⟩

theorem Binds.mono (h : Binds W s s') (hW : ∀ i name, W i name → W' i name) : Binds W' s s' := by
  intro i f hf
  obtain ⟨new, hnew, hall⟩ := h i f hf
  exact ⟨new, hnew, fun b hb => hW i b.1 (hall b hb)⟩

theorem binds_newFrame (outer : Option Nat) : Binds W s (s.newFrame outer).2 := by
  intro i f hf
  refine ⟨[], ?_, by simp⟩
  have hlt := (Array.getElem?_eq_some_iff.1 hf).1
  rw [Store.newFrame, Array.getElem?_push, if_neg (Nat.ne_of_lt hlt), hf, List.nil_append]

theorem binds_define {frame : Nat} {name : String} (v : Value μ) (h : W frame name) :
    Binds W s (s.define frame name v) := by
  intro i f hf
  rw [Store.define, Array.getElem?_modify, hf]
  by_cases hi : frame = i
  · subst hi
    rw [if_pos rfl]
    exact ⟨[(name, v)], rfl, by simpa using h⟩
  · rw [if_neg hi]
    exact ⟨[], rfl, by simp⟩

/-- New bindings in frames that were not there before leave all frames as they were. -/
theorem Binds.getElem?_eq (h : Binds W s s') {i : Nat} (hi : i < s.frames.size)
    (hW : ∀ name, ¬ W i name) : s'.frames[i]? = s.frames[i]? := by
  have hf := Array.getElem?_eq_getElem hi
  obtain ⟨new, hnew, hall⟩ := h i _ hf
  have hnil : new = [] := List.eq_nil_iff_forall_not_mem.2 fun b hb => hW b.1 (hall b hb)
  rw [hnew, hf, hnil, List.nil_append]

theorem Binds.outer?_eq (h : Binds W s s') {i : Nat} (hi : i < s.frames.size) :
    s'.outer? i = s.outer? i := by
  have hf := Array.getElem?_eq_getElem hi
  obtain ⟨new, hnew, -⟩ := h i _ hf
  rw [outer?, outer?, hnew, hf]

theorem lookup_append_of_ne {name : String} {new bindings : List (String × Value μ)}
    (h : ∀ b ∈ new, b.1 ≠ name) : (new ++ bindings).lookup name = bindings.lookup name := by
  induction new with
  | nil => rfl
  | cons b new ih =>
      rw [List.forall_mem_cons] at h
      rw [List.cons_append, List.lookup_cons, beq_eq_false_iff_ne.2 (Ne.symm h.1)]
      exact ih h.2

/-- A name that nothing may bind in a frame means there what it meant before. -/
theorem Binds.local?_eq (h : Binds W s s') {i : Nat} (hi : i < s.frames.size) {name : String}
    (hW : ¬ W i name) : s'.local? i name = s.local? i name := by
  have hf := Array.getElem?_eq_getElem hi
  obtain ⟨new, hnew, hall⟩ := h i _ hf
  rw [local?, local?, hnew, hf]
  refine lookup_append_of_ne fun b hb heq => hW ?_
  rw [← heq]
  exact hall b hb

theorem isSome_lookup_append {name : String} (new : List (String × Value μ))
    {bindings : List (String × Value μ)} (h : (bindings.lookup name).isSome = true) :
    ((new ++ bindings).lookup name).isSome = true := by
  induction new with
  | nil => exact h
  | cons b new ih =>
      rw [List.cons_append, List.lookup_cons]
      split
      · rfl
      · exact ih

/-- No binding is removed. -/
theorem Binds.isSome_local? (h : Binds W s s') {i : Nat} {name : String}
    (hsome : (s.local? i name).isSome = true) : (s'.local? i name).isSome = true := by
  unfold local? at hsome ⊢
  cases hf : s.frames[i]? with
  | none =>
      rw [hf] at hsome
      cases hsome
  | some f =>
      obtain ⟨new, hnew, -⟩ := h i f hf
      rw [hf] at hsome
      rw [hnew]
      exact isSome_lookup_append new hsome

end Store

namespace Run

open Store

variable {α β : Type} {W W' : Nat → String → Prop}

/-- Whenever a step ends, it has bound only what `W` allows. -/
def Within (W : Nat → String → Prop) (m : Run μ α) : Prop :=
  ∀ ⦃s s' : Store μ⦄ ⦃a : α⦄, m s = some (a, s') → Binds W s s'

theorem Within.mono {m : Run μ α} (h : Within W m) (hW : ∀ i name, W i name → W' i name) :
    Within W' m :=
  fun _ _ _ hm => (h hm).mono hW

theorem Within.pure (a : α) : Within W (Pure.pure a : Run μ α) := by
  rintro s _ _ ⟨⟩
  exact .of_frames_eq rfl

theorem Within.bind {m : Run μ α} {f : α → Run μ β} (hm : Within W m) (hf : ∀ a, Within W (f a)) :
    Within W (m >>= f) := by
  intro s s' b hrun
  obtain ⟨a, t, hr, hrest⟩ := exists_of_bind hrun
  exact (hm hr).trans (hf a hrest)

theorem Within.ite {c : Prop} [Decidable c] {m m' : Run μ α} (h : Within W m) (h' : Within W m') :
    Within W (if c then m else m') := by
  by_cases hc : c
  · rw [if_pos hc]
    exact h
  · rw [if_neg hc]
    exact h'

/-! ### Single steps -/

/-- A change of the store that keeps its frames. -/
theorem within_step {f : Store μ → α × Store μ} (h : ∀ s, (f s).2.frames = s.frames) :
    Within W (fun s => some (f s)) := by
  intro s s' a hm
  have hframes := h s
  rw [Option.some.inj hm] at hframes
  exact .of_frames_eq hframes

theorem within_note (e : Event μ) : Within W (note e) :=
  within_step fun _ => rfl

theorem within_newIdentity : Within W (newIdentity : Run μ Nat) :=
  within_step fun _ => rfl

theorem within_lookup (frame : Nat) (name : String) :
    Within W (lookup frame name : Run μ (Option (Value μ))) :=
  within_step fun _ => rfl

theorem within_define {frame : Nat} {name : String} (v : Value μ) (h : W frame name) :
    Within W (define frame name v) := by
  refine (within_note _).bind fun _ => ?_
  rintro s _ _ ⟨⟩
  exact binds_define v h

theorem within_defineAll {frame : Nat} (bs : List (String × Value μ)) (h : ∀ name, W frame name) :
    Within W (defineAll frame bs) := by
  induction bs with
  | nil => exact Within.pure ()
  | cons b bs ih => exact (within_define b.2 (h b.1)).bind fun _ => ih

theorem within_raise (e : Fault) : Within W (raise e : Run μ (Value μ)) :=
  (within_note _).bind fun _ => Within.pure _

theorem within_ofExcept (r : Except Fault (Value μ)) : Within W (ofExcept r) := by
  cases r with
  | ok v => exact Within.pure v
  | error e => exact within_raise e

theorem within_onValue {m : Run μ (Value μ)} {next : Value μ → Run μ (Value μ)} (hm : Within W m)
    (hnext : ∀ v, Within W (next v)) : Within W (onValue m next) :=
  hm.bind fun v => Within.ite (Within.pure v) (hnext v)

/-- What is done in a new frame, and binds in that frame alone, leaves all others as they were. -/
theorem within_enter {outer : Nat} {next : Nat → Run μ α}
    (h : ∀ frame, Within (fun i _ => i = frame) (next frame)) : Within W (enter outer >>= next) := by
  intro s s' a hrun
  obtain ⟨frame, t, henter, hrest⟩ := exists_of_bind hrun
  obtain ⟨⟩ := henter
  have hnew : Binds W s (s.newFrame (some outer)).2 := binds_newFrame _
  have hbody := h _ hrest
  intro i f hf
  have hlt := (Array.getElem?_eq_some_iff.1 hf).1
  obtain ⟨new, hstill, hall⟩ := hnew i f hf
  refine ⟨new, ?_, hall⟩
  rw [← hstill]
  refine hbody.getElem?_eq ?_ fun _ heq => Nat.ne_of_lt hlt heq
  exact (Array.getElem?_eq_some_iff.1 hstill).1

/-! ### The functions of the language itself -/

theorem within_newArray (items : List (Value μ)) : Within W (Builtin.newArray items) :=
  within_newIdentity.bind fun _ => Within.pure _

theorem within_withOne {args : List (Value μ)} {next : Value μ → Run μ (Value μ)}
    (h : ∀ v, Within W (next v)) : Within W (Builtin.withOne args next) := by
  unfold Builtin.withOne
  split
  · exact h _
  · exact within_raise _

theorem within_withItems {which : Builtin} {v : Value μ} {next : List (Value μ) → Run μ (Value μ)}
    (h : ∀ items, Within W (next items)) : Within W (Builtin.withItems which v next) := by
  unfold Builtin.withItems
  split
  · exact h _
  · exact within_raise _

theorem within_printAll [Mark μ] (vs : List (Value μ)) : Within W (Builtin.printAll vs) := by
  induction vs with
  | nil => exact Within.pure ()
  | cons v vs ih => exact (within_note _).bind fun _ => ih

/-- A function of the language itself binds nothing. -/
theorem within_builtin [Mark μ] (b : Builtin) (args : List (Value μ)) : Within W (b.run args) := by
  cases b with
  | len =>
      refine within_withOne fun v => ?_
      split
      · exact Within.pure _
      · exact Within.pure _
      · exact within_raise _
  | puts => exact (within_printAll args).bind fun _ => Within.pure _
  | first => exact within_withOne fun v => within_withItems fun items => Within.pure _
  | last => exact within_withOne fun v => within_withItems fun items => Within.pure _
  | rest =>
      refine within_withOne fun v => within_withItems fun items => ?_
      cases items with
      | nil => exact Within.pure _
      | cons w items => exact within_newArray items
  | push =>
      simp only [Builtin.run]
      split
      · exact within_withItems fun items => within_newArray _
      · exact within_raise _

/-! ### The evaluator -/

/-- Some names in one frame. -/
def Names (frame : Nat) (names : List String) (i : Nat) (name : String) : Prop :=
  i = frame ∧ name ∈ names

/-- An evaluator that binds only the targets of a tree in the frame of the tree. -/
def Local (ev : Evaluator μ) : Prop :=
  ∀ e frame, Within (Names frame e.targets) (ev e frame)

section

variable {ev : Evaluator μ}

theorem within_evalAll {frame : Nat} {es : List (Expr μ)}
    (h : ∀ e ∈ es, Within W (ev e frame)) : Within W (evalAll ev frame es) := by
  induction es with
  | nil => exact Within.pure _
  | cons e es ih =>
      rw [List.forall_mem_cons] at h
      unfold evalAll
      refine h.1.bind fun v => Within.ite (Within.pure _) ((ih h.2).bind fun r => ?_)
      cases r with
      | ok vs => exact Within.pure _
      | error c => exact Within.pure _

theorem within_evalEntries {frame : Nat} {es : List (Expr μ × Expr μ)}
    (h : ∀ e ∈ es, Within W (ev e.1 frame) ∧ Within W (ev e.2 frame))
    (done : Table Key (Value μ × Value μ)) : Within W (evalEntries ev frame done es) := by
  induction es generalizing done with
  | nil => exact Within.pure _
  | cons e es ih =>
      obtain ⟨k, e⟩ := e
      rw [List.forall_mem_cons] at h
      unfold evalEntries
      refine h.1.1.bind fun key => Within.ite (Within.pure _) ?_
      split
      · exact (within_raise _).bind fun _ => Within.pure _
      · exact h.1.2.bind fun v => Within.ite (Within.pure _) (ih h.2 _)

variable (hev : Local ev)
include hev

/-- A part of a tree binds no more than the tree. -/
theorem Local.part {e : Expr μ} {frame : Nat} {names : List String}
    (h : e.targets ⊆ names) : Within (Names frame names) (ev e frame) :=
  (hev e frame).mono fun _ _ hname => ⟨hname.1, h hname.2⟩

theorem within_evalStmt {frame : Nat} {s : Stmt μ} {names : List String}
    (h : s.targets ⊆ names) : Within (Names frame names) (evalStmt ev frame s) := by
  unfold evalStmt
  cases s with
  | bind _ target e =>
      rw [Stmt.targets, List.cons_subset] at h
      refine (hev.part h.2).bind fun v => Within.ite (Within.pure _) ?_
      exact (within_define v ⟨rfl, h.1⟩).bind fun _ => Within.pure _
  | ret _ value =>
      cases value with
      | none => exact Within.pure _
      | some e => exact (hev.part h).bind fun _ => Within.pure _
  | expr _ e => exact (hev.part h).bind fun _ => Within.pure _

theorem within_evalBody {frame : Nat} {ss : List (Stmt μ)} {names : List String}
    (h : Stmt.allTargets ss ⊆ names) (last : Option (Value μ)) :
    Within (Names frame names) (evalBody ev frame last ss) := by
  induction ss generalizing last with
  | nil => exact Within.pure last
  | cons s ss ih =>
      rw [Stmt.allTargets, List.append_subset] at h
      unfold evalBody
      exact (within_evalStmt hev h.1).bind fun r => Within.ite (Within.pure r) (ih h.2 r)

/-- **A call binds nothing in frames that existed before.** -/
theorem within_apply [Mark μ] (callee : Value μ) (args : List (Value μ)) :
    Within W (apply ev callee args) := by
  unfold apply
  split
  · rename_i params body outer
    refine Within.ite ((within_note _).bind fun _ => within_enter fun frame => ?_) (within_raise _)
    refine (within_defineAll _ fun _ => rfl).bind fun _ => ?_
    have hbody : Within (Names frame (Stmt.allTargets body.body))
        (evalBody ev frame none body.body) := within_evalBody hev (List.Subset.refl _) none
    exact (hbody.mono fun _ _ h => h.1).bind fun _ => Within.pure _
  · exact (within_note _).bind fun _ => within_builtin _ args
  · exact within_raise _

theorem within_evalBranch {frame : Nat} {b : Block μ} {names : List String}
    (h : b.targets ⊆ names) : Within (Names frame names) (evalBranch ev frame b) := by
  cases b with
  | mk m ss => exact (within_evalBody hev h none).bind fun _ => Within.pure _

omit hev in
theorem within_evalName (frame : Nat) (name : String) :
    Within W (evalName frame name : Run μ (Value μ)) := by
  unfold evalName
  refine (within_lookup frame name).bind fun r => ?_
  cases r with
  | some v => exact Within.pure v
  | none =>
      cases Builtin.ofName? name with
      | some b => exact within_newIdentity.bind fun _ => Within.pure _
      | none => exact within_raise _

/-- One level of nesting. -/
theorem local_evalNode [Mark μ] : Local (evalNode ev) := by
  intro e frame
  cases e with
  | name i => exact within_evalName frame i.name
  | int _ v => exact Within.pure _
  | string _ s => exact Within.pure _
  | bool _ b => exact Within.pure _
  | unary _ op e =>
      exact within_onValue (hev.part (List.Subset.refl _)) fun v => within_ofExcept _
  | binary _ l op r =>
      refine within_onValue (hev.part (List.subset_append_left _ _)) fun a => ?_
      exact within_onValue (hev.part (List.subset_append_right _ _)) fun b => within_ofExcept _
  | cond _ t y n =>
      cases n with
      | none =>
          refine within_onValue (hev.part (List.subset_append_left _ _)) fun v => ?_
          exact Within.ite (within_evalBranch hev (List.subset_append_right _ _)) (Within.pure _)
      | some n =>
          refine within_onValue (hev.part (List.subset_append_left _ _)) fun v => ?_
          refine Within.ite (within_evalBranch hev ?_) (within_evalBranch hev ?_)
          · exact List.subset_append_of_subset_right _ (List.subset_append_left _ _)
          · exact List.subset_append_of_subset_right _ (List.subset_append_right _ _)
  | func _ ps body => exact within_newIdentity.bind fun _ => Within.pure _
  | call _ c as =>
      refine within_onValue (hev.part (List.subset_append_left _ _)) fun callee => ?_
      refine (within_evalAll fun e he => hev.part ?_).bind fun r => ?_
      · exact List.subset_append_of_subset_right _ (Expr.targets_subset_allTargets he)
      · cases r with
        | ok args => exact within_apply hev callee args
        | error control => exact Within.pure _
  | array _ es =>
      refine (within_evalAll fun e he => hev.part (Expr.targets_subset_allTargets he)).bind
        fun r => ?_
      cases r with
      | ok items => exact within_newIdentity.bind fun _ => Within.pure _
      | error control => exact Within.pure _
  | index _ t k =>
      refine within_onValue (hev.part (List.subset_append_left _ _)) fun target => ?_
      exact within_onValue (hev.part (List.subset_append_right _ _)) fun key => within_ofExcept _
  | table _ es =>
      refine (within_evalEntries (fun e he => ?_) []).bind fun r => ?_
      · obtain ⟨hk, hv⟩ := Expr.targets_subset_entryTargets he
        exact ⟨hev.part hk, hev.part hv⟩
      · cases r with
        | ok entries => exact within_newIdentity.bind fun _ => Within.pure _
        | error control => exact Within.pure _

end

/-- Any depth of nesting. -/
theorem local_eval [Mark μ] (n : Nat) : Local (eval n : Evaluator μ) := by
  induction n with
  | zero => rintro e frame s s' a ⟨⟩
  | succ n ih => exact local_evalNode ih

theorem within_evaluate [Mark μ] (n : Nat) (p : Program μ) (frame : Nat) :
    Within (Names frame (Stmt.allTargets p)) (evaluate n p frame) :=
  (within_evalBody (local_eval n) (List.Subset.refl _) none).bind fun _ => Within.pure _

/-- **A run writes to its own frame only.**  When a program that is run in a frame ends, every other
frame that existed before is as it was.  Each still lies in the same frame, has lost no binding, and
gives every name that is no target of the program the meaning it had.  A call changes no frame that
existed before at all. -/
theorem run_writes_own_frame [Mark μ] (n : Nat) (s : Store μ) :
    (∀ p frame r s', evaluate n p frame s = some (r, s') → ∀ i < s.frames.size,
      (i ≠ frame → s'.frames[i]? = s.frames[i]?) ∧ s'.outer? i = s.outer? i ∧
        (∀ name, (s.local? i name).isSome = true → (s'.local? i name).isSome = true) ∧
        ∀ name, name ∉ Stmt.allTargets p → s'.local? i name = s.local? i name) ∧
    (∀ callee args v s', apply (eval n) callee args s = some (v, s') → ∀ i < s.frames.size,
      s'.frames[i]? = s.frames[i]?) := by
  constructor
  · intro p frame r s' h i hi
    have hbinds := within_evaluate n p frame h
    refine ⟨fun hne => ?_, hbinds.outer?_eq hi, fun _ => hbinds.isSome_local?, fun name hname => ?_⟩
    · exact hbinds.getElem?_eq hi fun _ hnames => hne hnames.1
    · exact hbinds.local?_eq hi fun hnames => hname hnames.2
  · intro callee args v s' h i hi
    have hbinds : Binds (fun _ _ => False) s s' := within_apply (local_eval n) callee args h
    exact hbinds.getElem?_eq hi fun _ => id

/-- A frame inside another one, which binds `a`. -/
def nestedFrames : Store String :=
  (((Store.empty.newFrame none).2.define 0 "a" (.int 1)).newFrame (some 0)).2

/-- The program `if (true) { let a = 2 }; fn(x) { let b = x; }(3)`. -/
def bindsInBranch : Program String :=
  [.expr "" (.cond "" (.bool "" true) (.mk "" [.bind "let" ⟨"", "a"⟩ (.int "" 2)]) none),
    .expr "" (.call "" (.func "fn" [⟨"", "x"⟩]
      (.mk "" [.bind "let" ⟨"", "b"⟩ (.name ⟨"", "x"⟩)])) [.int "" 3])]

/-- The inner frame shadows a name of the outer one, and a call binds names of its own. -/
theorem run_writes_own_frame_branch :
    ∃ r s', evaluate 9 bindsInBranch 1 nestedFrames = some (r, s') ∧
      ∀ i < nestedFrames.frames.size,
        (i ≠ 1 → s'.frames[i]? = nestedFrames.frames[i]?) ∧ s'.outer? i = nestedFrames.outer? i ∧
          (∀ name, (nestedFrames.local? i name).isSome = true → (s'.local? i name).isSome = true) ∧
          ∀ name, name ∉ Stmt.allTargets bindsInBranch →
            s'.local? i name = nestedFrames.local? i name := by
  have hends : (evaluate 9 bindsInBranch 1 nestedFrames).isSome = true := by
    decide +kernel
  obtain ⟨⟨r, s'⟩, h⟩ := Option.isSome_iff_exists.1 hends
  exact ⟨r, s', h, (run_writes_own_frame 9 nestedFrames).1 _ _ _ _ h⟩

end Run

end Treewalk
