import Treewalk.Proofs.Run.Control
import Treewalk.Session

/-! # The first fault ends a run

A fault is noted where it is made, and nothing is noted after it: every part of the evaluator that
meets it hands it on unchanged.

* `EndsWith f es` says of the events of a stretch of a run, the latest first, that they hold no fault,
  or none but the latest, which is `f`.
* `Reports fault? m` says that the events noted by the step `m` end with the fault that `fault?` finds
  in its result.  A step that goes on after `m` has to give back what `m` gave if that is a fault
  (`Reports.bind`).
* That a value looked up or taken out of an array is not itself a fault is known from clean stores
  (`Cleanly`).

`Honest ev` is the assumption on the evaluator for the parts of an expression, and `honest_eval`
discharges it for any depth of nesting. -/

namespace Treewalk

variable {μ : Type}

/-- No event is a fault. -/
def Quiet (es : List (Event μ)) : Prop :=
  ∀ f, .failed f ∉ es

/-- The events, the latest first, hold no fault but the latest, and that one only if it is given. -/
def EndsWith : Option Fault → List (Event μ) → Prop
  | none, es => Quiet es
  | some f, es => ∃ rest, es = .failed f :: rest ∧ Quiet rest

theorem quiet_nil : Quiet ([] : List (Event μ)) :=
  fun _ => List.not_mem_nil

theorem Quiet.append {es ds : List (Event μ)} (hes : Quiet es) (hds : Quiet ds) :
    Quiet (es ++ ds) := by
  intro f hf
  rcases List.mem_append.1 hf with h | h
  · exact hes f h
  · exact hds f h

/-- Events without a fault before those of a stretch do not change how it ends. -/
theorem EndsWith.append {fault? : Option Fault} {es ds : List (Event μ)} (h : EndsWith fault? es)
    (hds : Quiet ds) : EndsWith fault? (es ++ ds) := by
  cases fault? with
  | none => exact Quiet.append h hds
  | some f =>
      obtain ⟨rest, rfl, hrest⟩ := h
      exact ⟨rest ++ ds, rfl, hrest.append hds⟩

namespace Run

open Value

variable {α β : Type}

/-- The events that a step notes, started in a clean store, end with the fault in its result. -/
def Reports (fault? : α → Option Fault) (m : Run μ α) : Prop :=
  ∀ ⦃s s' : Store μ⦄ ⦃a : α⦄, s.Clean → m s = some (a, s') →
    ∃ es, s'.events = es ++ s.events ∧ EndsWith (fault? a) es

/-- A step whose result is never a fault. -/
abbrev Silent (m : Run μ α) : Prop :=
  Reports (fun _ => none) m

/-- The fault that a value is. -/
def faultOf (v : Value μ) : Option Fault :=
  stoppedBy (some v)

/-- The fault that a list of values broke off with. -/
def faultIn : Except (Value μ) β → Option Fault
  | .ok _ => none
  | .error c => faultOf c

theorem faultOf_eq_some_iff {v : Value μ} {f : Fault} : faultOf v = some f ↔ v = .error f := by
  cases v <;> simp [faultOf, stoppedBy]

theorem stoppedBy_eq_some_iff {r : Option (Value μ)} {f : Fault} :
    stoppedBy r = some f ↔ r = some (.error f) := by
  cases r with
  | none => simp [stoppedBy]
  | some v => rw [← faultOf, faultOf_eq_some_iff, Option.some_inj]

theorem faultOf_of_isData {v : Value μ} (h : v.isData = true) : faultOf v = none := by
  cases v with
  | error f => cases h
  | _ => rfl

theorem isControl_of_faultOf {v : Value μ} {f : Fault} (h : faultOf v = some f) :
    v.isControl = true := by
  rw [faultOf_eq_some_iff.1 h]
  rfl

/-! ### Combining steps -/

section

variable {fault? : α → Option Fault} {m : Run μ α} {P : α → Prop}

theorem Reports.pure {a : α} (h : fault? a = none) : Reports fault? (Pure.pure a : Run μ α) := by
  rintro s _ _ - ⟨⟩
  refine ⟨[], rfl, ?_⟩
  rw [h]
  exact quiet_nil

/-- A step that goes on after another.  Only if that one gave no fault may it note anything; else it
has to give the fault again. -/
theorem Reports.bind {f : α → Run μ β} {next? : β → Option Fault} (hclean : Cleanly m P)
    (hm : Reports fault? m) (hf : ∀ a, P a → fault? a = none → Reports next? (f a))
    (hstop : ∀ a, P a → ∀ e, fault? a = some e → ∃ b, f a = Pure.pure b ∧ next? b = some e) :
    Reports next? (m >>= f) := by
  intro s s' b hs hrun
  obtain ⟨a, t, hr, hrest⟩ := exists_of_bind hrun
  obtain ⟨ht, ha⟩ := hclean hs hr
  obtain ⟨ds, hds, hend⟩ := hm hs hr
  cases hfault : fault? a with
  | none =>
      rw [hfault] at hend
      obtain ⟨es, hes, hlast⟩ := hf a ha hfault ht hrest
      refine ⟨es ++ ds, ?_, hlast.append hend⟩
      rw [hes, hds, List.append_assoc]
  | some e =>
      rw [hfault] at hend
      obtain ⟨b', hpure, hnext⟩ := hstop a ha e hfault
      rw [hpure] at hrest
      obtain ⟨⟩ := hrest
      refine ⟨ds, hds, ?_⟩
      rw [hnext]
      exact hend

/-- What follows a step whose result is never a fault. -/
theorem Reports.after {f : α → Run μ β} {next? : β → Option Fault} (hclean : Cleanly m P)
    (hm : Silent m) (hf : ∀ a, P a → Reports next? (f a)) : Reports next? (m >>= f) := by
  refine hm.bind hclean (fun a ha _ => hf a ha) ?_
  rintro a - e ⟨⟩

/-- A result is changed in a way that keeps its fault. -/
theorem Reports.map {g : α → β} {next? : β → Option Fault} (hclean : Cleanly m P)
    (hm : Reports fault? m) (hg : ∀ a, P a → next? (g a) = fault? a) :
    Reports next? (m >>= fun a => Pure.pure (g a)) := by
  refine hm.bind hclean (fun a ha hnone => Reports.pure ((hg a ha).trans hnone)) ?_
  exact fun a ha e hsome => ⟨g a, rfl, (hg a ha).trans hsome⟩

theorem Reports.ite {c : Prop} [Decidable c] {m' : Run μ α} (h : c → Reports fault? m)
    (h' : ¬ c → Reports fault? m') : Reports fault? (if c then m else m') := by
  by_cases hc : c
  · rw [if_pos hc]
    exact h hc
  · rw [if_neg hc]
    exact h' hc

end

/-! ### Single steps -/

theorem silent_note {e : Event μ} (h : ∀ f, e ≠ .failed f) : Silent (note e) := by
  rintro s s' _ - ⟨⟩
  refine ⟨[e], rfl, fun f hf => ?_⟩
  exact h f (List.mem_singleton.1 hf).symm

/-- A change of the store that notes nothing. -/
theorem silent_step {f : Store μ → α × Store μ} (h : ∀ s, (f s).2.events = s.events) :
    Silent (fun s => some (f s)) := by
  rintro s s' a - hm
  have hevents := h s
  rw [Option.some.inj hm] at hevents
  exact ⟨[], hevents, quiet_nil⟩

theorem silent_newIdentity : Silent (newIdentity : Run μ Nat) :=
  silent_step fun _ => rfl

theorem silent_lookup (frame : Nat) (name : String) :
    Silent (lookup frame name : Run μ (Option (Value μ))) :=
  silent_step fun _ => rfl

theorem silent_enter (outer : Nat) : Silent (enter outer : Run μ Nat) :=
  silent_step fun _ => rfl

theorem silent_define (frame : Nat) (name : String) (v : Value μ) : Silent (define frame name v) :=
  (silent_note (by simp)).after (cleanly_note _) fun _ _ => silent_step fun _ => rfl

theorem silent_defineAll (frame : Nat) {bs : List (String × Value μ)}
    (h : ∀ b ∈ bs, b.2.isData = true) : Silent (defineAll frame bs) := by
  induction bs with
  | nil => exact Reports.pure rfl
  | cons b bs ih =>
      rw [List.forall_mem_cons] at h
      exact (silent_define frame b.1 b.2).after (cleanly_define frame b.1 h.1) fun _ _ => ih h.2

/-- A fault is noted where it is made. -/
theorem reports_raise (e : Fault) : Reports faultOf (raise e : Run μ (Value μ)) := by
  rintro s s' _ - ⟨⟩
  exact ⟨[.failed e], rfl, [], rfl, quiet_nil⟩

theorem reports_data {v : Value μ} (h : v.isData = true) :
    Reports faultOf (Pure.pure v : Run μ (Value μ)) :=
  Reports.pure (faultOf_of_isData h)

theorem reports_ofExcept {r : Except Fault (Value μ)} (h : GivesData r) :
    Reports faultOf (ofExcept r) := by
  cases r with
  | ok v => exact reports_data (h v rfl)
  | error e => exact reports_raise e

/-- A control value is handed back as it is. -/
theorem reports_onValue {m : Run μ (Value μ)} {next : Value μ → Run μ (Value μ)}
    (hclean : Cleanly m fun v => v.isPassing = true) (hm : Reports faultOf m)
    (hnext : ∀ v, v.isData = true → Reports faultOf (next v)) :
    Reports faultOf (onValue m next) := by
  unfold onValue
  refine hm.bind hclean (fun v hv hnone => ?_) fun v _ e he => ?_
  · refine Reports.ite (fun _ => Reports.pure hnone) fun hc => ?_
    exact hnext v (isData_of_isPassing hv hc)
  · rw [if_pos (isControl_of_faultOf he)]
    exact ⟨v, rfl, he⟩

/-! ### The functions of the language itself -/

theorem reports_newArray (items : List (Value μ)) : Reports faultOf (Builtin.newArray items) :=
  silent_newIdentity.after cleanly_newIdentity fun _ _ => Reports.pure rfl

theorem reports_withOne {args : List (Value μ)} {next : Value μ → Run μ (Value μ)}
    (h : ∀ v ∈ args, Reports faultOf (next v)) : Reports faultOf (Builtin.withOne args next) := by
  unfold Builtin.withOne
  split
  · exact h _ List.mem_cons_self
  · exact reports_raise _

theorem reports_withItems (which : Builtin) {v : Value μ} (hv : v.isData = true)
    {next : List (Value μ) → Run μ (Value μ)}
    (h : ∀ items, (∀ v ∈ items, v.isData = true) → Reports faultOf (next items)) :
    Reports faultOf (Builtin.withItems which v next) := by
  unfold Builtin.withItems
  split
  · rw [isData, allData_iff] at hv
    exact h _ hv
  · exact reports_raise _

theorem silent_printAll [Mark μ] (vs : List (Value μ)) : Silent (Builtin.printAll vs) := by
  induction vs with
  | nil => exact Reports.pure rfl
  | cons v vs ih => exact (silent_note (by simp)).after (cleanly_note _) fun _ _ => ih

theorem reports_builtin [Mark μ] (b : Builtin) {args : List (Value μ)}
    (h : ∀ v ∈ args, v.isData = true) :
    Reports faultOf (b.run args) := by
  cases b with
  | len =>
      refine reports_withOne fun v _ => ?_
      split
      · exact Reports.pure rfl
      · exact Reports.pure rfl
      · exact reports_raise _
  | puts =>
      exact (silent_printAll args).after (cleanly_printAll args) fun _ _ => Reports.pure rfl
  | first =>
      refine reports_withOne fun v hv => reports_withItems _ (h v hv) fun items hitems => ?_
      exact reports_data (isData_getD fun w hw => hitems w (List.mem_of_mem_head? hw))
  | last =>
      refine reports_withOne fun v hv => reports_withItems _ (h v hv) fun items hitems => ?_
      exact reports_data (isData_getD fun w hw => hitems w (List.mem_of_mem_getLast? hw))
  | rest =>
      refine reports_withOne fun v hv => reports_withItems _ (h v hv) fun items _ => ?_
      cases items with
      | nil => exact Reports.pure rfl
      | cons w items => exact reports_newArray items
  | push =>
      simp only [Builtin.run]
      split
      · refine reports_withItems _ ?_ fun items _ => reports_newArray _
        exact h _ List.mem_cons_self
      · exact reports_raise _

/-! ### The evaluator -/

/-- An evaluator that notes a fault last and gives it as its result. -/
def Honest (ev : Evaluator μ) : Prop :=
  ∀ e frame, Reports faultOf (ev e frame)

/-- A call takes no fault away and makes none. -/
theorem faultOf_leave {r : Option (Value μ)} (h : Passes r) : faultOf (leave r) = stoppedBy r := by
  cases r with
  | none => rfl
  | some v =>
      cases v with
      | returned w => exact faultOf_of_isData (h _ rfl)
      | _ => rfl

/-- The end of a program takes no fault away and makes none. -/
theorem stoppedBy_settle {r : Option (Value μ)} (h : Passes r) :
    stoppedBy (settle r) = stoppedBy r := by
  cases r with
  | none => rfl
  | some v =>
      cases v with
      | returned w => exact faultOf_of_isData (h _ rfl)
      | _ => rfl

/-- What is done with the values of a list, which may have broken off with a control value. -/
theorem Reports.collect {m : Run μ (Except (Value μ) β)} {P : β → Prop}
    {f : Except (Value μ) β → Run μ (Value μ)} (hclean : Cleanly m (PassesAll P))
    (hm : Reports faultIn m)
    (hok : ∀ b, P b → Reports faultOf (f (.ok b))) (hcontrol : ∀ c, f (.error c) = Pure.pure c) :
    Reports faultOf (m >>= f) := by
  refine hm.bind hclean (fun r hr hnone => ?_) fun r _ e he => ?_
  · cases r with
    | ok b => exact hok b hr
    | error c =>
        rw [hcontrol]
        exact Reports.pure hnone
  · cases r with
    | ok b => cases he
    | error c => exact ⟨c, hcontrol c, he⟩

section

variable {ev : Evaluator μ} (hsound : Sound ev) (hev : Honest ev)
include hsound hev

theorem reports_evalAll (frame : Nat) (es : List (Expr μ)) :
    Reports faultIn (evalAll ev frame es) := by
  induction es with
  | nil => exact Reports.pure rfl
  | cons e es ih =>
      unfold evalAll
      refine (hev e frame).bind (hsound e frame) (fun v _ hnone => ?_) fun v _ f hf => ?_
      · refine Reports.ite (fun _ => Reports.pure hnone) fun _ => ?_
        refine ih.bind (cleanly_evalAll hsound frame es) (fun r _ hr => ?_) fun r _ f hr => ?_
        · cases r with
          | ok vs => exact Reports.pure rfl
          | error c => exact Reports.pure hr
        · cases r with
          | ok vs => cases hr
          | error c => exact ⟨.error c, rfl, hr⟩
      · rw [if_pos (isControl_of_faultOf hf)]
        exact ⟨.error v, rfl, hf⟩

theorem reports_evalEntries (frame : Nat) (es : List (Expr μ × Expr μ))
    {done : Table Key (Value μ × Value μ)}
    (hdone : ∀ e ∈ done, e.2.1.isData = true ∧ e.2.2.isData = true) :
    Reports faultIn (evalEntries ev frame done es) := by
  induction es generalizing done with
  | nil => exact Reports.pure rfl
  | cons e es ih =>
      obtain ⟨k, e⟩ := e
      unfold evalEntries
      refine (hev k frame).bind (hsound k frame) (fun key hkey hnone => ?_) fun key _ f hf => ?_
      · refine Reports.ite (fun _ => Reports.pure hnone) fun hc => ?_
        have hkeyData := isData_of_isPassing hkey hc
        split
        · exact (reports_raise _).map (cleanly_raise _) fun _ _ => rfl
        · rename_i h _
          refine (hev e frame).bind (hsound e frame) (fun v hv hnone => ?_) fun v _ f hf => ?_
          · refine Reports.ite (fun _ => Reports.pure hnone) fun hc' => ?_
            have hdata := isData_of_isPassing hv hc'
            exact ih (entriesData_insert hdone hkeyData hdata h)
          · rw [if_pos (isControl_of_faultOf hf)]
            exact ⟨.error v, rfl, hf⟩
      · rw [if_pos (isControl_of_faultOf hf)]
        exact ⟨.error key, rfl, hf⟩

theorem reports_evalStmt (frame : Nat) (s : Stmt μ) :
    Reports stoppedBy (evalStmt ev frame s) := by
  unfold evalStmt
  cases s with
  | bind _ target e =>
      refine (hev e frame).bind (hsound e frame) (fun v hv hnone => ?_) fun v _ f hf => ?_
      · refine Reports.ite (fun _ => Reports.pure hnone) fun hc => ?_
        have hdata := isData_of_isPassing hv hc
        refine (silent_define frame target.name v).after (cleanly_define frame _ hdata) ?_
        exact fun _ _ => Reports.pure rfl
      · rw [if_pos (isControl_of_faultOf hf)]
        exact ⟨some v, rfl, hf⟩
  | ret _ value =>
      cases value with
      | none => exact Reports.pure rfl
      | some e =>
          refine (hev e frame).map (hsound e frame) fun v hv => ?_
          by_cases hc : v.isControl = true
          · rw [if_pos hc]
            rfl
          · rw [if_neg hc, faultOf_of_isData (isData_of_isPassing hv hc)]
            rfl
  | expr _ e => exact (hev e frame).map (hsound e frame) fun _ _ => rfl

theorem reports_evalBody (frame : Nat) (ss : List (Stmt μ)) {last : Option (Value μ)}
    (hlast : stoppedBy last = none) : Reports stoppedBy (evalBody ev frame last ss) := by
  induction ss generalizing last with
  | nil => exact Reports.pure hlast
  | cons s ss ih =>
      unfold evalBody
      refine (reports_evalStmt hsound hev frame s).bind (cleanly_evalStmt hsound frame s) ?_ ?_
      · exact fun r _ hr => Reports.ite (fun _ => Reports.pure hr) fun _ => ih hr
      · intro r _ f hf
        have hr := stoppedBy_eq_some_iff.1 hf
        refine ⟨r, ?_, hf⟩
        rw [hr]
        rfl

theorem reports_apply [Mark μ] {callee : Value μ} {args : List (Value μ)}
    (h : ∀ v ∈ args, v.isData = true) :
    Reports faultOf (apply ev callee args) := by
  unfold apply
  split
  · rename_i params body outer
    refine Reports.ite (fun _ => ?_) fun _ => reports_raise _
    refine (silent_note (by simp)).after (cleanly_note _) fun _ _ => ?_
    refine (silent_enter outer).after (cleanly_enter outer) fun frame _ => ?_
    have hargs : ∀ b ∈ (params.map Ident.name).zip args, b.2.isData = true :=
      fun b hb => h b.2 (List.of_mem_zip hb).2
    refine (silent_defineAll frame hargs).after (cleanly_defineAll frame hargs) fun _ _ => ?_
    exact Reports.map (cleanly_evalBody hsound frame _ passes_none)
      (reports_evalBody hsound hev frame _ rfl) fun _ hr => faultOf_leave hr
  · exact (silent_note (by simp)).after (cleanly_note _) fun _ _ => reports_builtin _ h
  · exact reports_raise _

theorem reports_evalBranch (frame : Nat) (b : Block μ) :
    Reports faultOf (evalBranch ev frame b) := by
  unfold evalBranch
  refine Reports.map (cleanly_evalBody hsound frame _ passes_none)
    (reports_evalBody hsound hev frame _ rfl) fun r _ => ?_
  cases r <;> rfl

omit hsound hev in
theorem reports_evalName (frame : Nat) (name : String) :
    Reports faultOf (evalName frame name : Run μ (Value μ)) := by
  unfold evalName
  refine (silent_lookup frame name).after (cleanly_lookup frame name) fun r hr => ?_
  cases r with
  | some v => exact reports_data (hr v rfl)
  | none =>
      cases Builtin.ofName? name with
      | some b =>
          exact silent_newIdentity.after cleanly_newIdentity fun _ _ => Reports.pure rfl
      | none => exact reports_raise _

/-- One level of nesting. -/
theorem honest_evalNode [Mark μ] : Honest (evalNode ev) := by
  intro e frame
  cases e with
  | name i => exact reports_evalName frame i.name
  | int _ v => exact Reports.pure rfl
  | string _ s => exact Reports.pure rfl
  | bool _ b => exact Reports.pure rfl
  | unary _ op e =>
      refine reports_onValue (hsound e frame) (hev e frame) fun v _ => ?_
      exact reports_ofExcept (op.givesData_apply v)
  | binary _ l op r =>
      refine reports_onValue (hsound l frame) (hev l frame) fun a _ => ?_
      refine reports_onValue (hsound r frame) (hev r frame) fun b _ => ?_
      exact reports_ofExcept (op.givesData_apply a b)
  | cond _ t y n =>
      refine reports_onValue (hsound t frame) (hev t frame) fun v _ => ?_
      refine Reports.ite (fun _ => reports_evalBranch hsound hev frame y) fun _ => ?_
      cases n with
      | none => exact Reports.pure rfl
      | some n => exact reports_evalBranch hsound hev frame n
  | func _ ps body =>
      exact silent_newIdentity.after cleanly_newIdentity fun _ _ => Reports.pure rfl
  | call _ c as =>
      refine reports_onValue (hsound c frame) (hev c frame) fun callee _ => ?_
      exact (reports_evalAll hsound hev frame as).collect (cleanly_evalAll hsound frame as)
        (fun args hargs => reports_apply hsound hev hargs) fun _ => rfl
  | array _ es =>
      refine (reports_evalAll hsound hev frame es).collect (cleanly_evalAll hsound frame es)
        (fun items _ => ?_) fun _ => rfl
      exact silent_newIdentity.after cleanly_newIdentity fun _ _ => Reports.pure rfl
  | index _ t k =>
      refine reports_onValue (hsound t frame) (hev t frame) fun target htarget => ?_
      refine reports_onValue (hsound k frame) (hev k frame) fun key _ => ?_
      exact reports_ofExcept (givesData_index htarget)
  | table _ es =>
      refine Reports.collect (cleanly_evalEntries hsound frame es (by simp))
        (reports_evalEntries hsound hev frame es (by simp)) (fun entries _ => ?_) fun _ => rfl
      exact silent_newIdentity.after cleanly_newIdentity fun _ _ => Reports.pure rfl

end

/-- Any depth of nesting. -/
theorem honest_eval [Mark μ] (n : Nat) : Honest (eval n : Evaluator μ) := by
  induction n with
  | zero =>
      rintro e frame s s' a - ⟨⟩
  | succ n ih => exact honest_evalNode (sound_eval n) ih

theorem reports_evaluate [Mark μ] (n : Nat) (p : Program μ) (frame : Nat) :
    Reports stoppedBy (evaluate n p frame) :=
  Reports.map (cleanly_evalBody (sound_eval n) frame p passes_none)
    (reports_evalBody (sound_eval n) (honest_eval n) frame p rfl) fun _ hr => stoppedBy_settle hr

/-- **The first fault ends the run and is its result.**  Of the events noted by a program that
ends, run in a clean store, at most the latest is a fault.  If it is, the program gives this fault,
and else it gives none. -/
theorem first_fault_ends_run [Mark μ] {s s' : Store μ} (hs : s.Clean) {n : Nat} {p : Program μ}
    {frame : Nat} {r : Option (Value μ)} (h : evaluate n p frame s = some (r, s')) :
    ∃ es, s'.events = es ++ s.events ∧
      ((∃ f rest, es = .failed f :: rest ∧ (∀ g, .failed g ∉ rest) ∧ r = some (.error f)) ∨
        ((∀ g, .failed g ∉ es) ∧ ∀ f, r ≠ some (.error f))) := by
  obtain ⟨es, hes, hend⟩ := reports_evaluate n p frame hs h
  refine ⟨es, hes, ?_⟩
  cases hr : stoppedBy r with
  | none =>
      rw [hr] at hend
      refine .inr ⟨hend, fun f hf => ?_⟩
      rw [stoppedBy_eq_some_iff.2 hf] at hr
      cases hr
  | some f =>
      rw [hr] at hend
      obtain ⟨rest, hrest, hquiet⟩ := hend
      exact .inl ⟨f, rest, hrest, hquiet, stoppedBy_eq_some_iff.1 hr⟩

/-- The array `[puts("a"), fn(x) { x + true }(1), puts("b")]`. -/
def faultInCall : Program String :=
  [.expr "" (.array "" [.call "" (.name ⟨"", "puts"⟩) [.string "" "a"],
    .call "" (.func "fn" [⟨"", "x"⟩] (.mk "" [.expr "" (.binary "" (.name ⟨"", "x"⟩) .add
      (.bool "" true))])) [.int "" 1],
    .call "" (.name ⟨"", "puts"⟩) [.string "" "b"]])]

/-- The fault is met in a call, after a line was printed and before another one would be. -/
theorem first_fault_ends_run_call :
    ∃ s', evaluate 9 faultInCall 0 (Store.empty.newFrame none).2 =
        some (some (.error (.typeMismatch .integer .add .boolean)), s') ∧
      ∃ es, s'.events = es ++ (Store.empty.newFrame none).2.events ∧
        ((∃ f rest, es = .failed f :: rest ∧ (∀ g, .failed g ∉ rest) ∧
            some (.error (.typeMismatch .integer .add .boolean)) =
              some (.error f : Value String)) ∨
          ((∀ g, .failed g ∉ es) ∧
            ∀ f, some (.error (.typeMismatch .integer .add .boolean)) ≠
              some (.error f : Value String))) := by
  have hresult : (evaluate 9 faultInCall 0 (Store.empty.newFrame none).2).map
      (fun x => stoppedBy x.1) = some (some (.typeMismatch .integer .add .boolean)) := by
    decide +kernel
  obtain ⟨⟨r, s'⟩, h, hr⟩ := Option.map_eq_some_iff.1 hresult
  obtain rfl := stoppedBy_eq_some_iff.1 hr
  exact ⟨s', h, first_fault_ends_run (Store.clean_empty.newFrame none) h⟩

end Run

end Treewalk
