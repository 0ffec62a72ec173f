import Treewalk.Proofs.Run.Keeping
import Treewalk.Proofs.Value.Data

/-! # Control values do not become data

A store is **clean** if all that is bound in it is data (`Value.isData`).  A run that starts in a clean
store leaves a clean one.

* Whatever one part of the evaluator hands to another is passing: data, a fault, or a return of
  data (`Value.isPassing`).
* What goes into an array, a table or a binding is data, since every control value is handed on
  before.
* A call and a program give outcomes: a return goes no further (`isOutcome_leave`,
  `isOutcome_settle`).

`Sound ev` is the assumption on the evaluator for the parts of an expression, and `sound_eval`
discharges it for any depth of nesting. -/

namespace Treewalk

variable {μ : Type}

/-- No binding that counts is a control value or holds one. -/
def Store.Clean (s : Store μ) : Prop :=
  ∀ frame name v, s.local? frame name = some v → v.isData = true

namespace Store

variable {s : Store μ}

theorem Clean.lookup (h : s.Clean) {frame : Nat} {name : String} {v : Value μ}
    (hv : s.lookup frame name = some v) : v.isData = true := by
  obtain ⟨i, -, hi⟩ := List.exists_of_findSome?_eq_some hv
  exact h i name v hi

theorem clean_empty : (empty : Store μ).Clean := by
  intro frame name v hv
  simp [empty, local?] at hv

theorem Clean.newFrame (h : s.Clean) (outer : Option Nat) : (s.newFrame outer).2.Clean := by
  intro frame name v hv
  unfold local? Store.newFrame at hv
  by_cases hsize : frame = s.frames.size
  · subst hsize
    simp at hv
  · refine h frame name v ?_
    rw [Array.getElem?_push, if_neg hsize] at hv
    exact hv

/-- After a binding, a name means what was bound or what it meant before. -/
theorem local?_define {frame frame' : Nat} {name name' : String} {v w : Value μ}
    (h : (s.define frame name v).local? frame' name' = some w) :
    w = v ∨ s.local? frame' name' = some w := by
  unfold local? Store.define at h
  rw [Array.getElem?_modify] at h
  unfold local?
  by_cases hframe : frame = frame'
  · rw [if_pos hframe] at h
    cases hf : s.frames[frame']? with
    | none =>
        rw [hf] at h
        cases h
    | some f =>
        rw [hf] at h
        simp only [Option.map_some, List.lookup_cons] at h
        by_cases hname : name' = name
        · rw [hname, beq_self_eq_true] at h
          exact .inl (Option.some.inj h).symm
        · rw [beq_eq_false_iff_ne.2 hname] at h
          exact .inr h
  · rw [if_neg hframe] at h
    exact .inr h

theorem Clean.define (h : s.Clean) (frame : Nat) (name : String) {v : Value μ}
    (hv : v.isData = true) : (s.define frame name v).Clean := by
  intro frame' name' w hw
  rcases local?_define hw with rfl | hw
  · exact hv
  · exact h frame' name' w hw

end Store

namespace Run

open Value

variable {α : Type}

/-- A step that starts in a clean store leaves a clean one and gives a result that satisfies `P`. -/
abbrev Cleanly (m : Run μ α) (P : α → Prop) : Prop :=
  Keeps Store.Clean m P

/-! ### Single steps -/

theorem cleanly_note (e : Event μ) : Cleanly (note e) fun _ => True :=
  Keeps.step fun _ hs => ⟨hs, trivial⟩

theorem cleanly_newIdentity : Cleanly (newIdentity : Run μ Nat) fun _ => True :=
  Keeps.step fun _ hs => ⟨hs, trivial⟩

theorem cleanly_lookup (frame : Nat) (name : String) :
    Cleanly (lookup frame name : Run μ (Option (Value μ)))
      fun r => ∀ v, r = some v → v.isData = true :=
  Keeps.step fun _ hs => ⟨hs, fun _ hv => hs.lookup hv⟩

theorem cleanly_enter (outer : Nat) : Cleanly (enter outer : Run μ Nat) fun _ => True :=
  Keeps.step fun _ hs => ⟨hs.newFrame (some outer), trivial⟩

theorem cleanly_define (frame : Nat) (name : String) {v : Value μ} (hv : v.isData = true) :
    Cleanly (define frame name v) fun _ => True :=
  (cleanly_note _).bind fun _ _ =>
    Keeps.step fun _ hs => ⟨hs.define frame name hv, trivial⟩

theorem cleanly_defineAll (frame : Nat) {bs : List (String × Value μ)}
    (h : ∀ b ∈ bs, b.2.isData = true) : Cleanly (defineAll frame bs) fun _ => True := by
  induction bs with
  | nil => exact Keeps.pure trivial
  | cons b bs ih =>
      rw [List.forall_mem_cons] at h
      exact (cleanly_define frame b.1 h.1).bind fun _ _ => ih h.2

theorem cleanly_raise (e : Fault) :
    Cleanly (raise e : Run μ (Value μ)) fun v => v.isOutcome = true :=
  (cleanly_note _).bind fun _ _ => Keeps.pure rfl

theorem cleanly_ofExcept {r : Except Fault (Value μ)} (h : GivesData r) :
    Cleanly (ofExcept r) fun v => v.isOutcome = true := by
  cases r with
  | ok v => exact Keeps.pure (isOutcome_of_isData (h v rfl))
  | error e => exact cleanly_raise e

theorem Keeps.passing {m : Run μ (Value μ)} (h : Cleanly m fun v => v.isOutcome = true) :
    Cleanly m fun v => v.isPassing = true :=
  h.mono fun _ => isPassing_of_isOutcome

/-- What follows a value that is handed on when it is a control value starts with data. -/
theorem cleanly_onValue {m : Run μ (Value μ)} {next : Value μ → Run μ (Value μ)}
    (h : Cleanly m fun v => v.isPassing = true)
    (hnext : ∀ v, v.isData = true → Cleanly (next v) fun w => w.isPassing = true) :
    Cleanly (onValue m next) fun v => v.isPassing = true := by
  unfold onValue
  refine h.bind fun v hv => ?_
  refine Keeps.ite (fun _ => Keeps.pure hv) fun hc => ?_
  exact hnext v (isData_of_isPassing hv hc)

/-! ### The functions of the language itself -/

theorem cleanly_newArray {items : List (Value μ)} (h : ∀ v ∈ items, v.isData = true) :
    Cleanly (Builtin.newArray items) fun v => v.isOutcome = true := by
  unfold Builtin.newArray
  refine cleanly_newIdentity.bind fun i _ => Keeps.pure ?_
  have hdata : (array i items).isData = true := by
    rw [isData, allData_iff]
    exact h
  exact isOutcome_of_isData hdata

theorem cleanly_withOne {args : List (Value μ)} {next : Value μ → Run μ (Value μ)}
    (h : ∀ v ∈ args, Cleanly (next v) fun v => v.isOutcome = true) :
    Cleanly (Builtin.withOne args next) fun v => v.isOutcome = true := by
  unfold Builtin.withOne
  split
  · exact h _ List.mem_cons_self
  · exact cleanly_raise _

theorem cleanly_withItems (which : Builtin) {v : Value μ} (hv : v.isData = true)
    {next : List (Value μ) → Run μ (Value μ)}
    (h : ∀ items, (∀ v ∈ items, v.isData = true) →
      Cleanly (next items) fun v => v.isOutcome = true) :
    Cleanly (Builtin.withItems which v next) fun v => v.isOutcome = true := by
  unfold Builtin.withItems
  split
  · rw [isData, allData_iff] at hv
    exact h _ hv
  · exact cleanly_raise _

theorem cleanly_printAll [Mark μ] (vs : List (Value μ)) :
    Cleanly (Builtin.printAll vs) fun _ => True := by
  induction vs with
  | nil => exact Keeps.pure trivial
  | cons v vs ih => exact (cleanly_note _).bind fun _ _ => ih

/-- A function of the language itself makes data out of data, or fails. -/
theorem cleanly_builtin [Mark μ] (b : Builtin) {args : List (Value μ)}
    (h : ∀ v ∈ args, v.isData = true) :
    Cleanly (b.run args) fun v => v.isOutcome = true := by
  cases b with
  | len =>
      refine cleanly_withOne fun v _ => ?_
      split
      · exact Keeps.pure rfl
      · exact Keeps.pure rfl
      · exact cleanly_raise _
  | puts => exact (cleanly_printAll args).bind fun _ _ => Keeps.pure rfl
  | first =>
      refine cleanly_withOne fun v hv => cleanly_withItems _ (h v hv) fun items hitems => ?_
      have hdata := isData_getD fun w hw => hitems w (List.mem_of_mem_head? hw)
      exact Keeps.pure (isOutcome_of_isData hdata)
  | last =>
      refine cleanly_withOne fun v hv => cleanly_withItems _ (h v hv) fun items hitems => ?_
      have hdata := isData_getD fun w hw => hitems w (List.mem_of_mem_getLast? hw)
      exact Keeps.pure (isOutcome_of_isData hdata)
  | rest =>
      refine cleanly_withOne fun v hv => cleanly_withItems _ (h v hv) fun items hitems => ?_
      cases items with
      | nil => exact Keeps.pure rfl
      | cons w items => exact cleanly_newArray (List.forall_mem_cons.1 hitems).2
  | push =>
      simp only [Builtin.run]
      split
      · rw [List.forall_mem_cons, List.forall_mem_singleton] at h
        refine cleanly_withItems _ h.1 fun items hitems => cleanly_newArray ?_
        rw [List.forall_mem_append, List.forall_mem_singleton]
        exact ⟨hitems, h.2⟩
      · exact cleanly_raise _

/-! ### The evaluator -/

/-- An evaluator that keeps the store clean and hands on what may be passed. -/
def Sound (ev : Evaluator μ) : Prop :=
  ∀ e frame, Cleanly (ev e frame) fun v => v.isPassing = true

/-- What may be passed on where there need not be a value. -/
def Passes (r : Option (Value μ)) : Prop :=
  ∀ v, r = some v → v.isPassing = true

/-- Data, or a control value that may be passed on instead. -/
def PassesAll {β : Type} (P : β → Prop) : Except (Value μ) β → Prop
  | .ok b => P b
  | .error v => v.isPassing = true

theorem passes_some {v : Value μ} (h : v.isPassing = true) : Passes (some v) := by
  rintro w ⟨⟩
  exact h

theorem passes_none : Passes (none : Option (Value μ)) := by
  rintro w ⟨⟩

/-- A `return` ends at the call it was made in. -/
theorem isOutcome_leave {r : Option (Value μ)} (h : Passes r) : (leave r).isOutcome = true := by
  cases r with
  | none => rfl
  | some v =>
      have hv := h v rfl
      cases v with
      | returned w => exact isOutcome_of_isData hv
      | _ => exact hv

/-- A `return` ends at the program it was made in. -/
theorem isOutcome_settle {r : Option (Value μ)} (h : Passes r) :
    ∀ v, settle r = some v → v.isOutcome = true := by
  intro v hv
  cases r with
  | none => cases hv
  | some w =>
      have hw := h w rfl
      cases w with
      | returned u =>
          obtain rfl := Option.some.inj hv
          exact isOutcome_of_isData hw
      | _ =>
          obtain rfl := Option.some.inj hv
          exact hw

section

variable {ev : Evaluator μ} (hev : Sound ev)
include hev

theorem cleanly_evalAll (frame : Nat) (es : List (Expr μ)) :
    Cleanly (evalAll ev frame es) (PassesAll fun vs => ∀ v ∈ vs, v.isData = true) := by
  induction es with
  | nil => exact Keeps.pure (by simp [PassesAll])
  | cons e es ih =>
      unfold evalAll
      refine (hev e frame).bind fun v hv => ?_
      refine Keeps.ite (fun _ => Keeps.pure hv) fun hc => ?_
      have hdata := isData_of_isPassing hv hc
      refine ih.bind fun r hr => ?_
      cases r with
      | ok vs => exact Keeps.pure (List.forall_mem_cons.2 ⟨hdata, hr⟩)
      | error c => exact Keeps.pure hr

theorem cleanly_evalEntries (frame : Nat) (es : List (Expr μ × Expr μ))
    {done : Table Key (Value μ × Value μ)}
    (hdone : ∀ e ∈ done, e.2.1.isData = true ∧ e.2.2.isData = true) :
    Cleanly (evalEntries ev frame done es)
      (PassesAll fun t => ∀ e ∈ t, e.2.1.isData = true ∧ e.2.2.isData = true) := by
  induction es generalizing done with
  | nil => exact Keeps.pure hdone
  | cons e es ih =>
      obtain ⟨k, e⟩ := e
      unfold evalEntries
      refine (hev k frame).bind fun key hkey => ?_
      refine Keeps.ite (fun _ => Keeps.pure hkey) fun hc => ?_
      have hkeyData := isData_of_isPassing hkey hc
      split
      · exact (cleanly_raise _).passing.bind fun v hv => Keeps.pure hv
      · rename_i h _
        refine (hev e frame).bind fun v hv => ?_
        refine Keeps.ite (fun _ => Keeps.pure hv) fun hc' => ?_
        have hdata := isData_of_isPassing hv hc'
        exact ih (entriesData_insert hdone hkeyData hdata h)

theorem cleanly_evalStmt (frame : Nat) (s : Stmt μ) :
    Cleanly (evalStmt ev frame s) Passes := by
  unfold evalStmt
  cases s with
  | bind _ target e =>
      refine (hev e frame).bind fun v hv => ?_
      refine Keeps.ite (fun _ => Keeps.pure (passes_some hv)) fun hc => ?_
      have hdata := isData_of_isPassing hv hc
      exact (cleanly_define frame target.name hdata).bind fun _ _ => Keeps.pure passes_none
  | ret _ value =>
      cases value with
      | none => exact Keeps.pure (passes_some rfl)
      | some e =>
          refine (hev e frame).bind fun v hv => Keeps.pure (passes_some ?_)
          by_cases hc : v.isControl = true
          · rw [if_pos hc]
            exact hv
          · rw [if_neg hc]
            exact isData_of_isPassing hv hc
  | expr _ e => exact (hev e frame).bind fun v hv => Keeps.pure (passes_some hv)

theorem cleanly_evalBody (frame : Nat) (ss : List (Stmt μ)) {last : Option (Value μ)}
    (hlast : Passes last) : Cleanly (evalBody ev frame last ss) Passes := by
  induction ss generalizing last with
  | nil => exact Keeps.pure hlast
  | cons s ss ih =>
      unfold evalBody
      refine (cleanly_evalStmt hev frame s).bind fun r hr => ?_
      exact Keeps.ite (fun _ => Keeps.pure hr) fun _ => ih hr

/-- **A return crosses one call**: a call of data with data gives data or a fault. -/
theorem cleanly_apply [Mark μ] {callee : Value μ} {args : List (Value μ)}
    (h : ∀ v ∈ args, v.isData = true) :
    Cleanly (apply ev callee args) fun v => v.isOutcome = true := by
  unfold apply
  split
  · rename_i params body outer
    refine Keeps.ite (fun _ => ?_) fun _ => cleanly_raise _
    refine (cleanly_note _).bind fun _ _ => ?_
    refine (cleanly_enter outer).bind fun frame _ => ?_
    have hargs : ∀ b ∈ (params.map Ident.name).zip args, b.2.isData = true :=
      fun b hb => h b.2 (List.of_mem_zip hb).2
    refine (cleanly_defineAll frame hargs).bind fun _ _ => ?_
    refine (cleanly_evalBody hev frame body.body passes_none).bind fun r hr => ?_
    exact Keeps.pure (isOutcome_leave hr)
  · exact (cleanly_note _).bind fun _ _ => cleanly_builtin _ h
  · exact cleanly_raise _

theorem cleanly_evalBranch (frame : Nat) (b : Block μ) :
    Cleanly (evalBranch ev frame b) fun v => v.isPassing = true := by
  unfold evalBranch
  refine (cleanly_evalBody hev frame b.body passes_none).bind fun r hr => Keeps.pure ?_
  cases r with
  | none => rfl
  | some v => exact hr v rfl

omit hev in
theorem cleanly_evalName (frame : Nat) (name : String) :
    Cleanly (evalName frame name : Run μ (Value μ)) fun v => v.isPassing = true := by
  unfold evalName
  refine (cleanly_lookup frame name).bind fun r hr => ?_
  cases r with
  | some v => exact Keeps.pure (isPassing_of_isData (hr v rfl))
  | none =>
      cases Builtin.ofName? name with
      | some b => exact cleanly_newIdentity.bind fun _ _ => Keeps.pure rfl
      | none => exact (cleanly_raise _).passing

/-- One level of nesting. -/
theorem sound_evalNode [Mark μ] : Sound (evalNode ev) := by
  intro e frame
  cases e with
  | name i => exact cleanly_evalName frame i.name
  | int _ v => exact Keeps.pure rfl
  | string _ s => exact Keeps.pure rfl
  | bool _ b => exact Keeps.pure rfl
  | unary _ op e =>
      refine cleanly_onValue (hev e frame) fun v _ => ?_
      exact (cleanly_ofExcept (op.givesData_apply v)).passing
  | binary _ l op r =>
      refine cleanly_onValue (hev l frame) fun a _ => ?_
      refine cleanly_onValue (hev r frame) fun b _ => ?_
      exact (cleanly_ofExcept (op.givesData_apply a b)).passing
  | cond _ t y n =>
      refine cleanly_onValue (hev t frame) fun v _ => ?_
      refine Keeps.ite (fun _ => cleanly_evalBranch hev frame y) fun _ => ?_
      cases n with
      | none => exact Keeps.pure rfl
      | some n => exact cleanly_evalBranch hev frame n
  | func _ ps body => exact cleanly_newIdentity.bind fun _ _ => Keeps.pure rfl
  | call _ c as =>
      refine cleanly_onValue (hev c frame) fun callee _ => ?_
      refine (cleanly_evalAll hev frame as).bind fun r hr => ?_
      cases r with
      | ok args => exact (cleanly_apply hev hr).passing
      | error control => exact Keeps.pure hr
  | array _ es =>
      refine (cleanly_evalAll hev frame es).bind fun r hr => ?_
      cases r with
      | ok items =>
          refine cleanly_newIdentity.bind fun _ _ => Keeps.pure (isPassing_of_isData ?_)
          rw [isData, allData_iff]
          exact hr
      | error control => exact Keeps.pure hr
  | index _ t k =>
      refine cleanly_onValue (hev t frame) fun target htarget => ?_
      refine cleanly_onValue (hev k frame) fun key _ => ?_
      exact (cleanly_ofExcept (givesData_index htarget)).passing
  | table _ es =>
      refine (cleanly_evalEntries hev frame es (by simp)).bind fun r hr => ?_
      cases r with
      | ok entries =>
          refine cleanly_newIdentity.bind fun _ _ => Keeps.pure (isPassing_of_isData ?_)
          rw [isData, entriesData_iff]
          exact hr
      | error control => exact Keeps.pure hr

end

/-- Any depth of nesting. -/
theorem sound_eval [Mark μ] (n : Nat) : Sound (eval n : Evaluator μ) := by
  induction n with
  | zero => exact fun _ _ => Keeps.exhausted
  | succ n ih => exact sound_evalNode ih

theorem cleanly_evaluate [Mark μ] (n : Nat) (p : Program μ) (frame : Nat) :
    Cleanly (evaluate n p frame) fun r => ∀ v, r = some v → v.isOutcome = true :=
  (cleanly_evalBody (sound_eval n) frame p passes_none).bind fun _ hr =>
    Keeps.pure (isOutcome_settle hr)

/-- **Control values never become data.**  Every part of the evaluator that ends, started in a clean
store, leaves a clean one.  A program and a call give data or a fault, so no return leaves them;
whatever is handed on inside is data, a fault or a return of data; and the values that go into an
array or a table are data. -/
theorem control_values_contained [Mark μ] {s : Store μ} (hs : s.Clean) (n : Nat) :
    (∀ p frame r s', evaluate n p frame s = some (r, s') →
      s'.Clean ∧ ∀ v, r = some v → v.isOutcome = true) ∧
    (∀ callee args v s', (∀ a ∈ args, a.isData = true) →
      apply (eval n) callee args s = some (v, s') → s'.Clean ∧ v.isOutcome = true) ∧
    (∀ e frame v s', eval n e frame s = some (v, s') → s'.Clean ∧ v.isPassing = true) ∧
    (∀ st frame r s', evalStmt (eval n) frame st s = some (r, s') → s'.Clean ∧ Passes r) ∧
    (∀ ss frame r s', evalBody (eval n) frame none ss s = some (r, s') → s'.Clean ∧ Passes r) ∧
    (∀ es frame r s', evalAll (eval n) frame es s = some (r, s') →
      s'.Clean ∧ PassesAll (fun vs => ∀ v ∈ vs, v.isData = true) r) ∧
    (∀ es frame r s', evalEntries (eval n) frame [] es s = some (r, s') →
      s'.Clean ∧
        PassesAll (fun t => ∀ e ∈ t, e.2.1.isData = true ∧ e.2.2.isData = true) r) := by
  have hev : Sound (eval n : Evaluator μ) := sound_eval n
  refine ⟨?_, ?_, ?_, ?_, ?_, ?_, ?_⟩
  · exact fun p frame r s' h => cleanly_evaluate n p frame hs h
  · exact fun callee args v s' hargs h => cleanly_apply hev hargs hs h
  · exact fun e frame v s' h => hev e frame hs h
  · exact fun st frame r s' h => cleanly_evalStmt hev frame st hs h
  · exact fun ss frame r s' h => cleanly_evalBody hev frame ss passes_none hs h
  · exact fun es frame r s' h => cleanly_evalAll hev frame es hs h
  · exact fun es frame r s' h => cleanly_evalEntries hev frame es (by simp) hs h

/-- The call `fn() { [1, if (true) { return 7 }] }()`. -/
def returnInArray : Program String :=
  [.expr "" (.call "" (.func "fn" [] (.mk "" [.expr "" (.array "" [.int "" 1,
    .cond "" (.bool "" true) (.mk "" [.ret "return" (some (.int "" 7))]) none])])) [])]

theorem control_values_contained_return :
    ∃ r s', evaluate 9 returnInArray 0 (Store.empty.newFrame none).2 = some (r, s') ∧
      s'.Clean ∧ ∀ v, r = some v → v.isOutcome = true := by
  have hclean := (Store.clean_empty : (Store.empty : Store String).Clean).newFrame none
  have hends : (evaluate 9 returnInArray 0 (Store.empty.newFrame none).2).isSome = true := rfl
  obtain ⟨⟨r, s'⟩, h⟩ := Option.isSome_iff_exists.1 hends
  exact ⟨r, s', h, (control_values_contained hclean 9).1 _ _ _ _ h⟩

end Run

end Treewalk
