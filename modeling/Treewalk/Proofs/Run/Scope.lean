import Treewalk.Proofs.Run.Fault
import Treewalk.Proofs.Run.Path
import Treewalk.Proofs.Syntax.Scoped
import Treewalk.Proofs.Value.Functions

/-! # Bound names stay bound

A program whose names are bound meets no fault about a name, however far from where they were made its
functions are called.

* A function is **bound** in a store if the frames that its body will lie in bind all names which the
  body uses and does not bind itself (`Closure.Bound`).
* A store is **closed** if all functions in it are bound, and no fault about a name was met
  (`Store.Closed`).
* Stores only grow: no name loses its value (`Store.Grows`), so what was bound stays bound.
* `Leads s m P` follows a step from the store `s` at which it starts.

`Scopes ev` is the assumption on the evaluator for the parts of an expression, and `scopes_eval`
discharges it for any depth of nesting. -/

namespace Treewalk

variable {μ : Type}

/-- A name has a value in a frame. -/
def Store.Sees (s : Store μ) (frame : Nat) (name : String) : Prop :=
  (s.lookup frame name).isSome = true

/-- The frame in which a function was made is there, and all names that its body uses are bound in it
or are parameters. -/
structure Closure.Bound (s : Store μ) (c : Closure μ) : Prop where
  isFrame : c.frame < s.frames.size
  names : c.body.Scoped fun name => name ∈ c.params ∨ s.Sees c.frame name

namespace Store

/-- All functions bound to names are bound, and no fault about a name was met. -/
structure Closed (s : Store μ) : Prop where
  bound {i : Nat} {name : String} {v : Value μ} :
    s.local? i name = some v → v.Carries (Closure.Bound s)
  quiet (name : String) : .failed (.unbound name) ∉ s.events

/-- No frame and no binding is lost. -/
def Grows (s t : Store μ) : Prop :=
  Binds (fun _ _ => True) s t

variable {s t u : Store μ} {frame : Nat} {name : String} {v : Value μ}

theorem Grows.refl (s : Store μ) : s.Grows s :=
  .of_frames_eq rfl

theorem Grows.trans (h : s.Grows t) (h' : t.Grows u) : s.Grows u :=
  Binds.trans h h'

theorem Grows.sees (h : s.Grows t) (hs : s.Sees frame name) : t.Sees frame name :=
  h.isSome_lookup hs

theorem Grows.lt_size (h : s.Grows t) (hs : frame < s.frames.size) : frame < t.frames.size := by
  obtain ⟨new, hnew, -⟩ := h frame _ (Array.getElem?_eq_getElem hs)
  exact (Array.getElem?_eq_some_iff.1 hnew).1

theorem Grows.bound (h : s.Grows t) {c : Closure μ} (hc : c.Bound s) : c.Bound t where
  isFrame := h.lt_size hc.isFrame
  names := hc.names.mono fun _ hname => hname.imp id h.sees

theorem Grows.carries (h : s.Grows t) (hv : v.Carries (Closure.Bound s)) :
    v.Carries (Closure.Bound t) :=
  hv.mono fun _ => h.bound

theorem Grows.scoped {e : Expr μ} (h : s.Grows t) (he : e.Scoped (s.Sees frame)) :
    e.Scoped (t.Sees frame) :=
  he.mono fun _ => h.sees

theorem sees_of_local? {v : Value μ} (h : s.local? frame name = some v) : s.Sees frame name :=
  isSome_lookup_iff.2 (.inl (by rw [h]; rfl))

theorem sees_define (h : frame < s.frames.size) : (s.define frame name v).Sees frame name := by
  refine sees_of_local? (v := v) ?_
  simp [local?, define, Array.getElem?_modify, Array.getElem?_eq_getElem h]

/-- In a new frame the names of the outer one have their values. -/
theorem sees_newFrame {outer : Nat} (h : outer < s.frames.size) (hname : s.Sees outer name) :
    (s.newFrame (some outer)).2.Sees s.frames.size name := by
  have hgrows : s.Grows (s.newFrame (some outer)).2 := binds_newFrame _
  refine isSome_lookup_iff.2 (.inr ⟨outer, ?_, h, hgrows.sees hname⟩)
  rw [outer?_newFrame, if_pos rfl]

end Store

namespace Run

open Value

variable {α β : Type} {s : Store μ}

/-- Whenever a step that starts in the store `s` ends, it leaves a closed store that has grown out of
`s`, of which and of the result `P` holds. -/
def Leads (s : Store μ) (m : Run μ α) (P : α → Store μ → Prop) : Prop :=
  ∀ ⦃a : α⦄ ⦃t : Store μ⦄, m s = some (a, t) → s.Grows t ∧ t.Closed ∧ P a t

/-- The functions in a value are bound. -/
abbrev Safe (v : Value μ) (t : Store μ) : Prop :=
  v.Carries (Closure.Bound t)

/-- The functions in a value that need not be there are bound. -/
abbrev SafeIfAny (r : Option (Value μ)) (t : Store μ) : Prop :=
  ∀ v, r = some v → Safe v t

/-- The functions in the values of a list are bound, or those in the control value it broke off
with. -/
def SafeAll (P : α → Store μ → Prop) : Except (Value μ) α → Store μ → Prop
  | .ok a, t => P a t
  | .error c, t => Safe c t

theorem safeIfAny_none {t : Store μ} : SafeIfAny none t := by
  rintro v ⟨⟩

theorem safeIfAny_some {v : Value μ} {t : Store μ} (h : Safe v t) : SafeIfAny (some v) t := by
  rintro w ⟨⟩
  exact h

variable {P : α → Store μ → Prop} {Q : β → Store μ → Prop} {m m' : Run μ α}

theorem Leads.pure {a : α} (hs : s.Closed) (h : P a s) : Leads s (Pure.pure a) P := by
  rintro _ _ ⟨⟩
  exact ⟨.refl s, hs, h⟩

theorem Leads.bind {f : α → Run μ β} (h : Leads s m P)
    (hf : ∀ a t, s.Grows t → t.Closed → P a t → Leads t (f a) Q) : Leads s (m >>= f) Q := by
  intro b u hrun
  obtain ⟨a, t, hm, hrest⟩ := exists_of_bind hrun
  obtain ⟨hgrows, hclosed, ha⟩ := h hm
  obtain ⟨hgrows', hclosed', hb⟩ := hf a t hgrows hclosed ha hrest
  exact ⟨hgrows.trans hgrows', hclosed', hb⟩

theorem Leads.ite {c : Prop} [Decidable c] (h : c → Leads s m P) (h' : ¬ c → Leads s m' P) :
    Leads s (if c then m else m') P := by
  by_cases hc : c
  · rw [if_pos hc]
    exact h hc
  · rw [if_neg hc]
    exact h' hc

/-! ### Single steps -/

section

variable (hs : s.Closed)
include hs

theorem leads_note {e : Event μ} (h : ∀ name, e ≠ .failed (.unbound name)) :
    Leads s (note e) fun _ _ => True := by
  rintro _ _ ⟨⟩
  have hgrows : s.Grows { s with events := e :: s.events } := .of_frames_eq rfl
  refine ⟨hgrows, ⟨fun hv => hgrows.carries (hs.bound hv), fun name hmem => ?_⟩, trivial⟩
  rcases List.mem_cons.1 hmem with heq | hold
  · exact h name heq.symm
  · exact hs.quiet name hold

theorem leads_newIdentity : Leads s newIdentity fun _ _ => True := by
  rintro _ _ ⟨⟩
  have hgrows : s.Grows { s with nextIdentity := s.nextIdentity + 1 } := .of_frames_eq rfl
  exact ⟨hgrows, ⟨fun hv => hgrows.carries (hs.bound hv), hs.quiet⟩, trivial⟩

theorem leads_lookup (frame : Nat) (name : String) : Leads s (lookup frame name) fun r t =>
    SafeIfAny r t ∧ (s.Sees frame name → r.isSome = true) := by
  rintro _ _ ⟨⟩
  refine ⟨.refl s, hs, fun v hv => ?_, id⟩
  obtain ⟨i, -, hi⟩ := List.exists_of_findSome?_eq_some hv
  exact hs.bound hi

/-- A new frame is there, and sees what the outer one does. -/
theorem leads_enter {outer : Nat} (h : outer < s.frames.size) : Leads s (enter outer) fun frame t =>
    frame < t.frames.size ∧ ∀ name, s.Sees outer name → t.Sees frame name := by
  rintro _ _ ⟨⟩
  have hgrows : s.Grows (s.newFrame (some outer)).2 := Store.binds_newFrame _
  refine ⟨hgrows, ⟨fun hv => ?_, hs.quiet⟩, ?_, fun name => Store.sees_newFrame h⟩
  · exact hgrows.carries (hs.bound ((Store.local?_newFrame _ _ _).symm.trans hv))
  · simp

theorem leads_define {frame : Nat} (hframe : frame < s.frames.size) (name : String) {v : Value μ}
    (hv : Safe v s) : Leads s (define frame name v) fun _ t => t.Sees frame name := by
  refine (leads_note hs (by simp)).bind fun _ t hgrows ht _ => ?_
  rintro _ _ ⟨⟩
  have hgrows' : t.Grows (t.define frame name v) := Store.binds_define v trivial
  refine ⟨hgrows', ⟨fun hw => ?_, ht.quiet⟩, Store.sees_define (hgrows.lt_size hframe)⟩
  rcases Store.local?_define hw with rfl | hold
  · exact (hgrows.trans hgrows').carries hv
  · exact hgrows'.carries (ht.bound hold)

theorem leads_defineAll {frame : Nat} (hframe : frame < s.frames.size)
    {bs : List (String × Value μ)} (h : ∀ b ∈ bs, Safe b.2 s) :
    Leads s (defineAll frame bs) fun _ t => ∀ b ∈ bs, t.Sees frame b.1 := by
  induction bs generalizing s with
  | nil => exact Leads.pure hs (by simp)
  | cons b bs ih =>
      rw [List.forall_mem_cons] at h
      refine (leads_define hs hframe b.1 h.1).bind fun _ t hgrows ht hb => ?_
      have hrest := ih ht (hgrows.lt_size hframe) fun b' hb' => hgrows.carries (h.2 b' hb')
      intro _ u hrun
      obtain ⟨hgrows', hu, hall⟩ := hrest hrun
      exact ⟨hgrows', hu, List.forall_mem_cons.2 ⟨hgrows'.sees hb, hall⟩⟩

/-- A fault that is not about a name. -/
theorem leads_raise {e : Fault} (h : ∀ name, e ≠ .unbound name) : Leads s (raise e) Safe :=
  (leads_note hs (by simpa using h)).bind fun _ _ _ ht _ => Leads.pure ht (carries_error e)

theorem leads_ofExcept {r : Except Fault (Value μ)} (hok : ∀ v, r = .ok v → Safe v s)
    (herror : ∀ e, r = .error e → ∀ name, e ≠ .unbound name) : Leads s (ofExcept r) Safe := by
  cases r with
  | ok v => exact Leads.pure hs (hok v rfl)
  | error e => exact leads_raise hs (herror e rfl)

theorem leads_ofExcept_of_elementary {r : Except Fault (Value μ)} (h : Elementary r) :
    Leads s (ofExcept r) Safe := by
  refine leads_ofExcept hs ?_ ?_
  · rintro v rfl
    exact carries_of_functions_eq_nil (functions_of_isScalar h)
  · rintro e rfl
    exact h

omit hs in
theorem leads_onValue {m : Run μ (Value μ)} {next : Value μ → Run μ (Value μ)} (h : Leads s m Safe)
    (hnext : ∀ v t, s.Grows t → t.Closed → Safe v t → Leads t (next v) Safe) :
    Leads s (onValue m next) Safe := by
  unfold onValue
  refine h.bind fun v t hgrows ht hv => Leads.ite (fun _ => Leads.pure ht hv) fun _ => ?_
  exact hnext v t hgrows ht hv

/-! ### The functions of the language itself -/

theorem leads_newArray {items : List (Value μ)} (h : ∀ v ∈ items, Safe v s) :
    Leads s (Builtin.newArray items) Safe := by
  unfold Builtin.newArray
  refine (leads_newIdentity hs).bind fun i t hgrows ht _ => Leads.pure ht ?_
  exact carries_array_iff.2 fun v hv => hgrows.carries (h v hv)

theorem leads_withOne {args : List (Value μ)} {next : Value μ → Run μ (Value μ)}
    (h : ∀ v ∈ args, Leads s (next v) Safe) : Leads s (Builtin.withOne args next) Safe := by
  unfold Builtin.withOne
  split
  · exact h _ List.mem_cons_self
  · exact leads_raise hs (by simp)

theorem leads_withItems (which : Builtin) {v : Value μ} (hv : Safe v s)
    {next : List (Value μ) → Run μ (Value μ)}
    (h : ∀ items, (∀ v ∈ items, Safe v s) → Leads s (next items) Safe) :
    Leads s (Builtin.withItems which v next) Safe := by
  unfold Builtin.withItems
  split
  · exact h _ (carries_array_iff.1 hv)
  · exact leads_raise hs (by simp)

theorem leads_printAll [Mark μ] (vs : List (Value μ)) :
    Leads s (Builtin.printAll vs) fun _ _ => True := by
  induction vs generalizing s with
  | nil => exact Leads.pure hs trivial
  | cons v vs ih => exact (leads_note hs (by simp)).bind fun _ _ _ ht _ => ih ht

/-- A function of the language itself has no functions but those in its arguments. -/
theorem leads_builtin [Mark μ] (b : Builtin) {args : List (Value μ)} (h : ∀ v ∈ args, Safe v s) :
    Leads s (b.run args) Safe := by
  cases b with
  | len =>
      refine leads_withOne hs fun v _ => ?_
      split
      · exact Leads.pure hs (carries_of_functions_eq_nil rfl)
      · exact Leads.pure hs (carries_of_functions_eq_nil rfl)
      · exact leads_raise hs (by simp)
  | puts => exact (leads_printAll hs args).bind fun _ _ _ ht _ => Leads.pure ht carries_null
  | first =>
      refine leads_withOne hs fun v hv => leads_withItems hs _ (h v hv) fun items hitems => ?_
      exact Leads.pure hs (carries_getD fun w hw => hitems w (List.mem_of_mem_head? hw))
  | last =>
      refine leads_withOne hs fun v hv => leads_withItems hs _ (h v hv) fun items hitems => ?_
      exact Leads.pure hs (carries_getD fun w hw => hitems w (List.mem_of_mem_getLast? hw))
  | rest =>
      refine leads_withOne hs fun v hv => leads_withItems hs _ (h v hv) fun items hitems => ?_
      cases items with
      | nil => exact Leads.pure hs carries_null
      | cons w items => exact leads_newArray hs (List.forall_mem_cons.1 hitems).2
  | push =>
      simp only [Builtin.run]
      split
      · rw [List.forall_mem_cons, List.forall_mem_singleton] at h
        refine leads_withItems hs _ h.1 fun items hitems => leads_newArray hs ?_
        rw [List.forall_mem_append, List.forall_mem_singleton]
        exact ⟨hitems, h.2⟩
      · exact leads_raise hs (by simp)

end

/-! ### The evaluator -/

/-- An evaluator under which bound names stay bound. -/
def Scopes (ev : Evaluator μ) : Prop :=
  ∀ ⦃e : Expr μ⦄ ⦃frame : Nat⦄ ⦃s : Store μ⦄, s.Closed → frame < s.frames.size →
    e.Scoped (s.Sees frame) → Leads s (ev e frame) Safe

section

variable {ev : Evaluator μ} (hev : Scopes ev) {frame : Nat} (hs : s.Closed)
  (hframe : frame < s.frames.size)
include hev hs hframe

theorem leads_evalAll {es : List (Expr μ)} (h : Expr.AllScoped (s.Sees frame) es) :
    Leads s (evalAll ev frame es) (SafeAll fun vs t => ∀ v ∈ vs, Safe v t) := by
  induction es generalizing s with
  | nil => exact Leads.pure hs (by simp [SafeAll])
  | cons e es ih =>
      unfold evalAll
      refine (hev hs hframe h.1).bind fun v t hgrows ht hv => Leads.ite ?_ fun _ => ?_
      · exact fun _ => Leads.pure ht hv
      refine (ih ht (hgrows.lt_size hframe) (h.2.mono fun _ => hgrows.sees)).bind ?_
      intro r u hgrows' hu hr
      cases r with
      | ok vs => exact Leads.pure hu (List.forall_mem_cons.2 ⟨hgrows'.carries hv, hr⟩)
      | error c => exact Leads.pure hu hr

theorem leads_evalEntries {es : List (Expr μ × Expr μ)}
    (h : Expr.EntriesScoped (s.Sees frame) es) {done : Table Key (Value μ × Value μ)}
    (hdone : ∀ e ∈ done, Safe e.2.1 s ∧ Safe e.2.2 s) :
    Leads s (evalEntries ev frame done es)
      (SafeAll fun d t => ∀ e ∈ d, Safe e.2.1 t ∧ Safe e.2.2 t) := by
  induction es generalizing s done with
  | nil => exact Leads.pure hs hdone
  | cons e es ih =>
      obtain ⟨k, e⟩ := e
      unfold evalEntries
      refine (hev hs hframe h.1).bind fun key t hgrows ht hkey => Leads.ite ?_ fun _ => ?_
      · exact fun _ => Leads.pure ht hkey
      split
      · exact (leads_raise ht (by simp)).bind fun v u _ hu hv => Leads.pure hu hv
      rename_i d _
      refine (hev ht (hgrows.lt_size hframe) (hgrows.scoped h.2.1)).bind ?_
      intro v u hgrows' hu hv
      refine Leads.ite (fun _ => Leads.pure hu hv) fun _ => ?_
      have hboth := hgrows.trans hgrows'
      refine ih hu (hboth.lt_size hframe) (h.2.2.mono fun _ => hboth.sees) ?_
      refine carries_insert (fun e he => ?_) (hgrows'.carries hkey) hv d
      exact ⟨hboth.carries (hdone e he).1, hboth.carries (hdone e he).2⟩

/-- After a statement the names that it binds are bound too, unless it gives a control value. -/
theorem leads_evalStmt {st : Stmt μ} (h : st.Scoped (s.Sees frame)) :
    Leads s (evalStmt ev frame st) fun r t => SafeIfAny r t ∧
      (r.any isControl = false → ∀ name, st.after (s.Sees frame) name → t.Sees frame name) := by
  unfold evalStmt
  cases st with
  | bind _ target e =>
      refine (hev hs hframe h).bind fun v t hgrows ht hv => Leads.ite (fun hc => ?_) fun _ => ?_
      · refine Leads.pure ht ⟨safeIfAny_some hv, fun hnot => ?_⟩
        rw [Option.any_some, hc] at hnot
        cases hnot
      · refine (leads_define ht (hgrows.lt_size hframe) target.name hv).bind ?_
        intro _ u hgrows' hu htarget
        refine Leads.pure hu ⟨safeIfAny_none, fun _ name hname => ?_⟩
        rcases hname with rfl | hname
        · exact htarget
        · exact (hgrows.trans hgrows').sees hname
  | ret _ value =>
      cases value with
      | none =>
          have hnull : SafeIfAny (some (.returned .null)) s := safeIfAny_some carries_null
          exact Leads.pure hs ⟨hnull, fun _ name hname => hname⟩
      | some e =>
          refine (hev hs hframe h).bind fun v t hgrows ht hv => Leads.pure ht ⟨?_, ?_⟩
          · refine safeIfAny_some ?_
            by_cases hc : v.isControl = true
            · rw [if_pos hc]
              exact hv
            · rw [if_neg hc]
              exact hv
          · exact fun _ name hname => hgrows.sees hname
  | expr _ e =>
      refine (hev hs hframe h).bind fun v t hgrows ht hv => ?_
      exact Leads.pure ht ⟨safeIfAny_some hv, fun _ name hname => hgrows.sees hname⟩

theorem leads_evalBody {ss : List (Stmt μ)} (h : Stmt.AllScoped (s.Sees frame) ss)
    {last : Option (Value μ)} (hlast : SafeIfAny last s) :
    Leads s (evalBody ev frame last ss) SafeIfAny := by
  induction ss generalizing s last with
  | nil => exact Leads.pure hs hlast
  | cons st ss ih =>
      unfold evalBody
      refine (leads_evalStmt hev hs hframe h.1).bind fun r t hgrows ht hr => ?_
      refine Leads.ite (fun _ => Leads.pure ht hr.1) fun hc => ?_
      rw [Bool.not_eq_true] at hc
      exact ih ht (hgrows.lt_size hframe) (h.2.mono (hr.2 hc)) hr.1

omit hev hs hframe in
theorem safe_leave {r : Option (Value μ)} (h : SafeIfAny r s) : Safe (leave r) s := by
  cases r with
  | none => exact carries_null
  | some v =>
      have hv := h v rfl
      cases v with
      | returned w => exact hv
      | _ => exact hv

omit hframe in
/-- **A function finds its names where it was made.**  Its parameters are bound in the frame of the
call, and the others further out. -/
theorem leads_apply [Mark μ] {callee : Value μ} {args : List (Value μ)} (hcallee : Safe callee s)
    (h : ∀ v ∈ args, Safe v s) : Leads s (apply ev callee args) Safe := by
  unfold apply
  split
  · rename_i i params body outer
    refine Leads.ite (fun hlength => ?_) fun _ => leads_raise hs (by simp)
    have hbound : Closure.Bound s ⟨params.map Ident.name, body, outer⟩ :=
      carries_function_iff.1 hcallee
    refine (leads_note hs (by simp)).bind fun _ t hst ht _ => ?_
    refine (leads_enter ht (hst.lt_size hbound.isFrame)).bind fun frame u htu hu hnew => ?_
    have hargs : ∀ b ∈ (params.map Ident.name).zip args, Safe b.2 u := fun b hb =>
      (hst.trans htu).carries (h b.2 (List.of_mem_zip hb).2)
    refine (leads_defineAll hu hnew.1 hargs).bind fun _ w huw hw hparams => ?_
    have hbody : Stmt.AllScoped (w.Sees frame) body.body := by
      cases body with
      | mk m ss =>
          refine hbound.names.mono fun name hname => ?_
          rcases hname with hparam | hout
          · have hnames : (params.map Ident.name).length ≤ args.length := by
              rw [List.length_map]
              exact Nat.le_of_eq hlength.symm
            rw [← List.map_fst_zip hnames] at hparam
            obtain ⟨b, hb, rfl⟩ := List.mem_map.1 hparam
            exact hparams b hb
          · exact huw.sees (hnew.2 name (hst.sees hout))
    refine (leads_evalBody hev hw (huw.lt_size hnew.1) hbody safeIfAny_none).bind ?_
    exact fun r x _ hx hr => Leads.pure hx (safe_leave hr)
  · exact (leads_note hs (by simp)).bind fun _ t hst ht _ =>
      leads_builtin ht _ fun v hv => hst.carries (h v hv)
  · exact leads_raise hs (by simp)

theorem leads_evalBranch {b : Block μ} (h : b.Scoped (s.Sees frame)) :
    Leads s (evalBranch ev frame b) Safe := by
  cases b with
  | mk m ss =>
      refine (leads_evalBody hev hs hframe h safeIfAny_none).bind fun r t _ ht hr => ?_
      exact Leads.pure ht (carries_getD hr)

omit hev hframe in
theorem leads_evalName {name : String}
    (h : (Builtin.ofName? name).isSome = true ∨ s.Sees frame name) :
    Leads s (evalName frame name) Safe := by
  unfold evalName
  refine (leads_lookup hs frame name).bind fun r t _ ht hr => ?_
  cases r with
  | some v => exact Leads.pure ht (hr.1 v rfl)
  | none =>
      cases hb : Builtin.ofName? name with
      | some b =>
          exact (leads_newIdentity ht).bind fun _ _ _ hu _ =>
            Leads.pure hu (carries_of_functions_eq_nil rfl)
      | none =>
          rcases h with h | h
          · rw [hb] at h
            cases h
          · cases hr.2 h

omit hs hframe in
/-- One level of nesting. -/
theorem scopes_evalNode [Mark μ] : Scopes (evalNode ev) := by
  intro e frame s hs hframe h
  cases e with
  | name i => exact leads_evalName hs h
  | int _ v => exact Leads.pure hs (carries_of_functions_eq_nil rfl)
  | string _ x => exact Leads.pure hs (carries_of_functions_eq_nil rfl)
  | bool _ b => exact Leads.pure hs (carries_of_functions_eq_nil rfl)
  | unary _ op e =>
      refine leads_onValue (hev hs hframe h) fun v t _ ht _ => ?_
      exact leads_ofExcept_of_elementary ht (op.elementary_apply v)
  | binary _ l op r =>
      refine leads_onValue (hev hs hframe h.1) fun a t hst ht _ => ?_
      refine leads_onValue (hev ht (hst.lt_size hframe) (hst.scoped h.2)) fun b u _ hu _ => ?_
      exact leads_ofExcept_of_elementary hu (op.elementary_apply a b)
  | cond _ test yes no =>
      cases no with
      | none =>
          refine leads_onValue (hev hs hframe h.1) fun v t hst ht _ => ?_
          refine Leads.ite (fun _ => ?_) fun _ => Leads.pure ht carries_null
          exact leads_evalBranch hev ht (hst.lt_size hframe) (h.2.mono fun _ => hst.sees)
      | some no =>
          refine leads_onValue (hev hs hframe h.1) fun v t hst ht _ => ?_
          refine Leads.ite (fun _ => ?_) fun _ => ?_
          · exact leads_evalBranch hev ht (hst.lt_size hframe) (h.2.1.mono fun _ => hst.sees)
          · exact leads_evalBranch hev ht (hst.lt_size hframe) (h.2.2.mono fun _ => hst.sees)
  | func _ ps body =>
      refine (leads_newIdentity hs).bind fun i t hst ht _ => Leads.pure ht ?_
      have hbound : Closure.Bound s ⟨ps.map Ident.name, body, frame⟩ := ⟨hframe, h⟩
      exact carries_function_iff.2 (hst.bound hbound)
  | call _ c as =>
      refine leads_onValue (hev hs hframe h.1) fun callee t hst ht hcallee => ?_
      refine (leads_evalAll hev ht (hst.lt_size hframe) (h.2.mono fun _ => hst.sees)).bind ?_
      intro r u htu hu hr
      cases r with
      | ok args => exact leads_apply hev hu (htu.carries hcallee) hr
      | error control => exact Leads.pure hu hr
  | array _ es =>
      refine (leads_evalAll hev hs hframe h).bind fun r t _ ht hr => ?_
      cases r with
      | ok items =>
          refine (leads_newIdentity ht).bind fun i u htu hu _ => Leads.pure hu ?_
          exact carries_array_iff.2 fun v hv => htu.carries (hr v hv)
      | error control => exact Leads.pure ht hr
  | index _ target key =>
      refine leads_onValue (hev hs hframe h.1) fun a t hst ht ha => ?_
      refine leads_onValue (hev ht (hst.lt_size hframe) (hst.scoped h.2)) fun b u htu hu _ => ?_
      exact leads_ofExcept hu (fun v hv => carries_index (htu.carries ha) hv)
        fun e he => index_ne_unbound he
  | table _ es =>
      refine (leads_evalEntries hev hs hframe h (by simp)).bind fun r t _ ht hr => ?_
      cases r with
      | ok entries =>
          refine (leads_newIdentity ht).bind fun i u htu hu _ => Leads.pure hu ?_
          exact carries_table_iff.2 fun e he =>
            ⟨htu.carries (hr e he).1, htu.carries (hr e he).2⟩
      | error control => exact Leads.pure ht hr

end

/-- Any depth of nesting. -/
theorem scopes_eval [Mark μ] (n : Nat) : Scopes (eval n : Evaluator μ) := by
  induction n with
  | zero => rintro e frame s - - - a t ⟨⟩
  | succ n ih => exact scopes_evalNode ih

/-! ### Sessions -/

/-- A store that a fresh session comes to by programs whose names are bound when they are run. -/
inductive Reached [Mark μ] : Store μ → Prop
  | start : Reached Session.start.store
  | run {s s' : Store μ} {p : Program μ} {n : Nat} {r : Option (Value μ)} (hs : Reached s)
      (hp : Stmt.AllScoped (· ∈ s.names (Session.start : Session μ).frame) p)
      (h : evaluate n p (Session.start : Session μ).frame s = some (r, s')) : Reached s'

variable {s s' : Store μ} {p : Program μ} {n : Nat} {frame : Nat} {r : Option (Value μ)}

/-- A program whose names are bound keeps the store closed. -/
theorem leads_evaluate [Mark μ] (hs : s.Closed) (hframe : frame < s.frames.size)
    (hp : Stmt.AllScoped (· ∈ s.names frame) p)
    (h : evaluate n p frame s = some (r, s')) : s.Grows s' ∧ s'.Closed := by
  have hsees : Stmt.AllScoped (s.Sees frame) p := hp.mono fun _ => Store.mem_names.1
  have hlead : Leads s (evaluate n p frame) fun _ _ => True :=
    (leads_evalBody (scopes_eval n) hs hframe hsees safeIfAny_none).bind
      fun _ _ _ ht _ => Leads.pure ht trivial
  obtain ⟨hgrows, hclosed, -⟩ := hlead h
  exact ⟨hgrows, hclosed⟩

/-- What holds in every store that is reached. -/
theorem Reached.invariant [Mark μ] (h : Reached s) :
    s.Closed ∧ s.Clean ∧ (Session.start : Session μ).frame < s.frames.size := by
  induction h with
  | start =>
      refine ⟨⟨?_, fun _ => List.not_mem_nil⟩, Store.clean_empty.newFrame none, Nat.zero_lt_one⟩
      intro i name v hv
      change (Store.empty.newFrame none).2.local? i name = some v at hv
      rw [Store.local?_newFrame] at hv
      simp [Store.local?, Store.empty] at hv
  | run _ hp h ih =>
      obtain ⟨hclosed, hclean, hframe⟩ := ih
      obtain ⟨hgrows, hclosed'⟩ := leads_evaluate hclosed hframe hp h
      exact ⟨hclosed', (cleanly_evaluate _ _ _ hclean h).1, hgrows.lt_size hframe⟩

/-- **Bound names stay bound.**  In a session in which each program used only names that were bound
when it was run, a program that uses only such names does not end with a fault about a name. -/
theorem scope_sound [Mark μ] (hs : Reached s)
    (hp : Stmt.AllScoped (· ∈ s.names (Session.start : Session μ).frame) p)
    (h : evaluate n p (Session.start : Session μ).frame s = some (r, s')) (name : String) :
    r ≠ some (.error (.unbound name)) := by
  obtain ⟨hclosed, hclean, hframe⟩ := hs.invariant
  obtain ⟨-, hclosed'⟩ := leads_evaluate hclosed hframe hp h
  obtain ⟨es, hes, hend⟩ := reports_evaluate n p (Session.start : Session μ).frame hclean h
  intro hr
  rw [stoppedBy_eq_some_iff.2 hr] at hend
  obtain ⟨rest, hrest, -⟩ := hend
  refine hclosed'.quiet name ?_
  rw [hes, hrest]
  exact List.mem_append_left _ List.mem_cons_self

/-- The program `let y = 1; let g = fn(x) { fn(z) { x + y + z } };`. -/
def makesAdder : Program String :=
  [.bind "let" ⟨"", "y"⟩ (.int "" 1),
    .bind "let" ⟨"", "g"⟩ (.func "fn" [⟨"", "x"⟩] (.mk "" [.expr "" (.func "fn" [⟨"", "z"⟩]
      (.mk "" [.expr "" (.binary "" (.binary "" (.name ⟨"", "x"⟩) .add (.name ⟨"", "y"⟩)) .add
        (.name ⟨"", "z"⟩))]))]))]

/-- The program `g(2)(3)`. -/
def callsAdder : Program String :=
  [.expr "" (.call "" (.call "" (.name ⟨"", "g"⟩) [.int "" 2]) [.int "" 3])]

/-- The inner function looks up a parameter of the outer one after that one has returned. -/
theorem scope_sound_closure :
    ∃ s r s', Reached s ∧
      Stmt.AllScoped (· ∈ s.names (Session.start : Session String).frame) callsAdder ∧
      evaluate 9 callsAdder (Session.start : Session String).frame s = some (r, s') ∧
      ∀ name, r ≠ some (.error (.unbound name)) := by
  have hends : ((evaluate 9 makesAdder (Session.start : Session String).frame
      Session.start.store).bind fun x =>
      (evaluate 9 callsAdder (Session.start : Session String).frame x.2).map fun _ =>
        (x.2.lookup (Session.start : Session String).frame "g").isSome) = some true := by
    decide +kernel
  obtain ⟨⟨r₁, s⟩, hfirst, hrest⟩ := Option.bind_eq_some_iff.1 hends
  obtain ⟨⟨r, s'⟩, hsecond, hg⟩ := Option.map_eq_some_iff.1 hrest
  have hreached : Reached s := by
    refine .run .start ?_ hfirst
    simp [makesAdder, Stmt.AllScoped, Stmt.Scoped, Stmt.after, Expr.Scoped, Block.Scoped]
  have hscoped : Stmt.AllScoped (· ∈ s.names (Session.start : Session String).frame) callsAdder :=
    ⟨⟨⟨.inr (Store.mem_names.2 hg), trivial, trivial⟩, trivial, trivial⟩, trivial⟩
  exact ⟨s, r, s', hreached, hscoped, hsecond, scope_sound hreached hscoped hsecond⟩

end Run

end Treewalk
