import Treewalk.Proofs.Syntax.Leaves
import Treewalk.Proofs.Value.Relabelled
import Treewalk.Run.Eval

/-! # Two runs side by side

Two runs of one program in stores that are related stay related, and give the same results but for
the numbers and the marks in them.

* `Tracks short R f P m m'` says of two steps that start in related stores that either both run out
  of their counts, or both end, in related stores; `f` takes the result of the first to that of the
  second, and `P` holds of the first.  If `short` holds the first may also run out alone.
* `Mirrors ρ ok R` says what a relation `R` between stores has to be good for: each single step of a
  run is to keep it.  Only names that satisfy `ok` count, and only values in whose functions all
  names do (`Value.Speaks`).
* From that the whole evaluator keeps it (`alongside_eval`), with the numbers and the marks of the
  second run given by `ρ`.

`Alongside ev ev'` is the assumption on the evaluators for the parts of an expression. -/

namespace Treewalk

variable {μ ν : Type} {ok : String → Prop}

/-- All names among the leaves of a tree satisfy `ok`. -/
def Named (ok : String → Prop) (ls : List (Leaf μ)) : Prop :=
  ∀ name, .name name ∈ ls → ok name

theorem named_append {ls ms : List (Leaf μ)} :
    Named ok (ls ++ ms) ↔ Named ok ls ∧ Named ok ms := by
  simp only [Named, List.mem_append, or_imp, forall_and]

theorem Named.tail {l : Leaf μ} {ls : List (Leaf μ)} (h : Named ok (l :: ls)) :
    Named ok ls :=
  fun name hname => h name (List.mem_cons_of_mem l hname)

/-- All names in a function satisfy `ok`. -/
def Closure.Speaks (ok : String → Prop) (c : Closure μ) : Prop :=
  (∀ name ∈ c.params, ok name) ∧ Named ok c.body.leaves

/-- All names in the functions inside a value satisfy `ok`. -/
def Value.Speaks (ok : String → Prop) (v : Value μ) : Prop :=
  v.Carries (Closure.Speaks ok)

namespace Run

variable {α β γ δ : Type} {short : Prop} {R : Store μ → Store ν → Prop} {f : α → β} {g : γ → δ}
  {P : α → Prop} {Q : γ → Prop} {m n : Run μ α} {m' n' : Run ν β}

/-- Two steps that start in related stores end in related stores, with results related by `f`, or do
not end. -/
def Tracks (short : Prop) (R : Store μ → Store ν → Prop) (f : α → β) (P : α → Prop) (m : Run μ α)
    (m' : Run ν β) : Prop :=
  ∀ ⦃s : Store μ⦄ ⦃t : Store ν⦄, R s t → (short ∧ m s = none) ∨
    Option.Rel (fun x y => y.1 = f x.1 ∧ P x.1 ∧ R x.2 y.2) (m s) (m' t)

theorem Tracks.pure {a : α} {b : β} (h : P a) (hb : b = f a) :
    Tracks short R f P (Pure.pure a) (Pure.pure b) :=
  fun _ _ hst => .inr (.some ⟨hb, h, hst⟩)

/-- Two steps that both end. -/
theorem Tracks.step {k : Store μ → α × Store μ} {k' : Store ν → β × Store ν}
    (h : ∀ s t, R s t → (k' t).1 = f (k s).1 ∧ P (k s).1 ∧ R (k s).2 (k' t).2) :
    Tracks short R f P (fun s => some (k s)) fun t => some (k' t) :=
  fun s t hst => .inr (.some (h s t hst))

theorem Tracks.bind {k : α → Run μ γ} {k' : β → Run ν δ} (h : Tracks short R f P m m')
    (hk : ∀ a, P a → Tracks short R g Q (k a) (k' (f a))) :
    Tracks short R g Q (m >>= k) (m' >>= k') := by
  intro s t hst
  change (short ∧ (m s).bind (fun x => k x.1 x.2) = none) ∨
    Option.Rel _ ((m s).bind fun x => k x.1 x.2) ((m' t).bind fun y => k' y.1 y.2)
  rcases h hst with ⟨hshort, hnone⟩ | hrel
  · rw [hnone]
    exact .inl ⟨hshort, rfl⟩
  · generalize m s = x at hrel ⊢
    generalize m' t = y at hrel ⊢
    cases hrel with
    | none => exact .inr .none
    | some hxy =>
        obtain ⟨hfa, ha, hstep⟩ := hxy
        have hnext := hk _ ha hstep
        rwa [← hfa] at hnext

theorem Tracks.ite {c c' : Prop} [Decidable c] [Decidable c'] (hcc : c ↔ c')
    (h : c → Tracks short R f P m m') (h' : ¬ c → Tracks short R f P n n') :
    Tracks short R f P (if c then m else n) (if c' then m' else n') := by
  by_cases hc : c
  · rw [if_pos hc, if_pos (hcc.1 hc)]
    exact h hc
  · rw [if_neg hc, if_neg (mt hcc.2 hc)]
    exact h' hc

theorem Tracks.exhausted : Tracks short R f P (exhausted : Run μ α) (exhausted : Run ν β) :=
  fun _ _ _ => .inr .none

/-! ### Single steps -/

variable [Mark μ] [Mark ν]

/-- What a relation between stores has to be good for: every single step of a run keeps it, as far as
names that satisfy `ok` are concerned. -/
structure Mirrors (ρ : Relabelling μ ν) (ok : String → Prop) (R : Store μ → Store ν → Prop) :
    Prop where
  note {s : Store μ} {t : Store ν} (e : Event μ) : R s t →
    R { s with events := e :: s.events } { t with events := e.relabel ρ :: t.events }
  newIdentity {s : Store μ} {t : Store ν} : R s t → t.nextIdentity = ρ.identity s.nextIdentity ∧
    R { s with nextIdentity := s.nextIdentity + 1 } { t with nextIdentity := t.nextIdentity + 1 }
  lookup {s : Store μ} {t : Store ν} {frame : Nat} {name : String} : R s t → ok name →
    t.lookup (ρ.frame frame) name = (s.lookup frame name).map (Value.relabel ρ) ∧
      ∀ v, s.lookup frame name = some v → v.Speaks ok
  enter {s : Store μ} {t : Store ν} (outer : Nat) : R s t → t.frames.size = ρ.frame s.frames.size ∧
    R (s.newFrame (some outer)).2 (t.newFrame (some (ρ.frame outer))).2
  define {s : Store μ} {t : Store ν} {frame : Nat} {name : String} {v : Value μ} : R s t → ok name →
    v.Speaks ok →
    R (s.define frame name v) (t.define (ρ.frame frame) name (v.relabel ρ))

open Value

section

variable {ρ : Relabelling μ ν} (hR : Mirrors ρ ok R)
include hR

/-- The values of two steps, the second with other labels. -/
abbrev Follows (short : Prop) (ρ : Relabelling μ ν) (ok : String → Prop)
    (R : Store μ → Store ν → Prop) (m : Run μ (Value μ)) (m' : Run ν (Value ν)) : Prop :=
  Tracks short R (relabel ρ) (Speaks ok) m m'

theorem tracks_note (e : Event μ) :
    Tracks short R id (fun _ => True) (note e) (note (e.relabel ρ)) :=
  Tracks.step fun _ _ hst => ⟨rfl, trivial, hR.note e hst⟩

theorem tracks_newIdentity : Tracks short R ρ.identity (fun _ => True) newIdentity newIdentity :=
  Tracks.step fun _ _ hst => ⟨(hR.newIdentity hst).1, trivial, (hR.newIdentity hst).2⟩

theorem tracks_lookup (frame : Nat) {name : String} (h : ok name) :
    Tracks short R (Option.map (relabel ρ)) (fun r => ∀ v, r = some v → v.Speaks ok)
      (lookup frame name) (lookup (ρ.frame frame) name) :=
  Tracks.step fun _ _ hst => ⟨(hR.lookup hst h).1, (hR.lookup hst h).2, hst⟩

theorem tracks_enter (outer : Nat) :
    Tracks short R ρ.frame (fun _ => True) (enter outer) (enter (ρ.frame outer)) :=
  Tracks.step fun _ _ hst => ⟨(hR.enter outer hst).1, trivial, (hR.enter outer hst).2⟩

theorem tracks_define (frame : Nat) {name : String} {v : Value μ} (h : ok name) (hv : v.Speaks ok) :
    Tracks short R id (fun _ => True) (define frame name v)
      (define (ρ.frame frame) name (v.relabel ρ)) :=
  (tracks_note hR (.bound frame name v)).bind fun _ _ =>
    Tracks.step fun _ _ hst => ⟨rfl, trivial, hR.define hst h hv⟩

theorem tracks_defineAll (frame : Nat) {bs : List (String × Value μ)}
    (h : ∀ b ∈ bs, ok b.1 ∧ b.2.Speaks ok) :
    Tracks short R id (fun _ => True) (defineAll frame bs)
      (defineAll (ρ.frame frame) (bs.map fun b => (b.1, b.2.relabel ρ))) := by
  induction bs with
  | nil => exact Tracks.pure trivial rfl
  | cons b bs ih =>
      rw [List.forall_mem_cons] at h
      exact (tracks_define hR frame h.1.1 h.1.2).bind fun _ _ => ih h.2

theorem tracks_raise (e : Fault) : Follows short ρ ok R (raise e) (raise e) :=
  (tracks_note hR (.failed e)).bind fun _ _ => Tracks.pure (carries_error e) rfl

theorem tracks_ofExcept {r : Except Fault (Value μ)} (h : ∀ v, r = .ok v → v.Speaks ok) :
    Follows short ρ ok R (ofExcept r) (ofExcept (r.map (relabel ρ))) := by
  cases r with
  | ok v => exact Tracks.pure (h v rfl) rfl
  | error e => exact tracks_raise hR e

/-- The result of an operator has no functions in it. -/
theorem tracks_ofExcept_of_elementary {r : Except Fault (Value μ)} (h : Elementary r) :
    Follows short ρ ok R (ofExcept r) (ofExcept (r.map (relabel ρ))) := by
  refine tracks_ofExcept hR ?_
  rintro v rfl
  exact carries_of_functions_eq_nil (functions_of_isScalar h)

omit hR in
theorem tracks_onValue {m : Run μ (Value μ)} {m' : Run ν (Value ν)}
    {next : Value μ → Run μ (Value μ)} {next' : Value ν → Run ν (Value ν)}
    (h : Follows short ρ ok R m m')
    (hnext : ∀ v, v.Speaks ok → Follows short ρ ok R (next v) (next' (v.relabel ρ))) :
    Follows short ρ ok R (onValue m next) (onValue m' next') := by
  unfold onValue
  refine h.bind fun v hv => Tracks.ite (by rw [isControl_relabel]) ?_ ?_
  · exact fun _ => Tracks.pure hv rfl
  · exact fun _ => hnext v hv

/-! ### The functions of the language itself -/

theorem tracks_newArray {items : List (Value μ)} (h : ∀ v ∈ items, v.Speaks ok) :
    Follows short ρ ok R (Builtin.newArray items) (Builtin.newArray (items.map (relabel ρ))) := by
  unfold Builtin.newArray
  refine (tracks_newIdentity hR).bind fun i _ => Tracks.pure (carries_array_iff.2 h) ?_
  rw [relabel, relabelAll_eq]

theorem tracks_withOne {args : List (Value μ)} {next : Value μ → Run μ (Value μ)}
    {next' : Value ν → Run ν (Value ν)}
    (h : ∀ v ∈ args, Follows short ρ ok R (next v) (next' (v.relabel ρ))) :
    Follows short ρ ok R (Builtin.withOne args next)
      (Builtin.withOne (args.map (relabel ρ)) next') := by
  match args with
  | [] => exact tracks_raise hR _
  | [v] => exact h v List.mem_cons_self
  | _ :: _ :: _ =>
      simp only [Builtin.withOne, List.map_cons, List.length_cons, List.length_map]
      exact tracks_raise hR _

theorem tracks_withItems (which : Builtin) {v : Value μ} (hv : v.Speaks ok)
    {next : List (Value μ) → Run μ (Value μ)} {next' : List (Value ν) → Run ν (Value ν)}
    (h : ∀ items, (∀ v ∈ items, v.Speaks ok) →
      Follows short ρ ok R (next items) (next' (items.map (relabel ρ)))) :
    Follows short ρ ok R (Builtin.withItems which v next)
      (Builtin.withItems which (v.relabel ρ) next') := by
  cases v with
  | array i items =>
      simp only [Builtin.withItems, relabel, relabelAll_eq]
      exact h items (carries_array_iff.1 hv)
  | _ => exact tracks_raise hR _

theorem tracks_printAll (vs : List (Value μ)) :
    Tracks short R id (fun _ => True) (Builtin.printAll vs)
      (Builtin.printAll (vs.map (relabel ρ))) := by
  induction vs with
  | nil => exact Tracks.pure trivial rfl
  | cons v vs ih =>
      simp only [List.map_cons, Builtin.printAll, inspect_relabel]
      exact (tracks_note hR (.printed v.inspect)).bind fun _ _ => ih

/-- A function of the language itself does not depend on labels. -/
theorem tracks_builtin (b : Builtin) {args : List (Value μ)} (h : ∀ v ∈ args, v.Speaks ok) :
    Follows short ρ ok R (b.run args) (b.run (args.map (relabel ρ))) := by
  cases b with
  | len =>
      refine tracks_withOne hR fun v _ => ?_
      cases v with
      | array i items =>
          simp only [relabel, relabelAll_eq, List.length_map]
          exact Tracks.pure (carries_of_functions_eq_nil rfl) rfl
      | string s => exact Tracks.pure (carries_of_functions_eq_nil rfl) rfl
      | _ => exact tracks_raise hR _
  | puts => exact (tracks_printAll hR args).bind fun _ _ => Tracks.pure carries_null rfl
  | first =>
      refine tracks_withOne hR fun v hv => tracks_withItems hR _ (h v hv) fun items hitems => ?_
      rw [List.head?_map, getD_relabel]
      exact Tracks.pure (carries_getD fun w hw => hitems w (List.mem_of_mem_head? hw)) rfl
  | last =>
      refine tracks_withOne hR fun v hv => tracks_withItems hR _ (h v hv) fun items hitems => ?_
      rw [List.getLast?_map, getD_relabel]
      exact Tracks.pure (carries_getD fun w hw => hitems w (List.mem_of_mem_getLast? hw)) rfl
  | rest =>
      refine tracks_withOne hR fun v hv => tracks_withItems hR _ (h v hv) fun items hitems => ?_
      cases items with
      | nil => exact Tracks.pure carries_null rfl
      | cons w items => exact tracks_newArray hR (List.forall_mem_cons.1 hitems).2
  | push =>
      match args with
      | [] => exact tracks_raise hR _
      | [_] => exact tracks_raise hR _
      | [a, v] =>
          rw [List.forall_mem_cons, List.forall_mem_singleton] at h
          refine tracks_withItems hR _ h.1 fun items hitems => ?_
          have hnew : ∀ w ∈ items ++ [v], w.Speaks ok := by
            rw [List.forall_mem_append, List.forall_mem_singleton]
            exact ⟨hitems, h.2⟩
          have harray : Follows short ρ ok R _ _ := tracks_newArray hR hnew
          rwa [List.map_append] at harray
      | _ :: _ :: _ :: _ =>
          simp only [Builtin.run, List.map_cons, List.length_cons, List.length_map]
          exact tracks_raise hR _

/-! ### The evaluator -/

/-- Two evaluators for the parts of an expression that give the same but for labels. -/
def Alongside (short : Prop) (ρ : Relabelling μ ν) (ok : String → Prop)
    (R : Store μ → Store ν → Prop) (ev : Evaluator μ) (ev' : Evaluator ν) : Prop :=
  ∀ e frame, Named ok e.leaves →
    Follows short ρ ok R (ev e frame) (ev' (e.map ρ.mark) (ρ.frame frame))

/-- What comes of a list of values that may have broken off, with other labels. -/
def collected (ρ : Relabelling μ ν) (f : α → β) : Except (Value μ) α → Except (Value ν) β
  | .ok a => .ok (f a)
  | .error c => .error (c.relabel ρ)

/-- What is known of a list of values that may have broken off. -/
def Collected (ok : String → Prop) (P : α → Prop) : Except (Value μ) α → Prop
  | .ok a => P a
  | .error c => c.Speaks ok

/-- A table with other labels. -/
def relabelTable (ρ : Relabelling μ ν) (t : Table Key (Value μ × Value μ)) :
    Table Key (Value ν × Value ν) :=
  t.map fun e => (e.1, relabelEntry ρ e.2)

section

variable {ev : Evaluator μ} {ev' : Evaluator ν} (hev : Alongside short ρ ok R ev ev')
include hev

omit hR in
theorem tracks_evalAll (frame : Nat) {es : List (Expr μ)} (h : Named ok (Expr.allLeaves es)) :
    Tracks short R (collected ρ (List.map (relabel ρ)))
      (Collected ok fun vs => ∀ v ∈ vs, v.Speaks ok)
      (evalAll ev frame es) (evalAll ev' (ρ.frame frame) (Expr.mapAll ρ.mark es)) := by
  induction es with
  | nil => exact Tracks.pure (by simp [Collected]) rfl
  | cons e es ih =>
      rw [Expr.allLeaves, named_append] at h
      rw [Expr.mapAll]
      unfold evalAll
      refine (hev e frame h.1).bind fun v hv => Tracks.ite (by rw [isControl_relabel]) ?_ ?_
      · exact fun _ => Tracks.pure hv rfl
      · refine fun _ => (ih h.2).bind fun r hr => ?_
        cases r with
        | ok vs => exact Tracks.pure (List.forall_mem_cons.2 ⟨hv, hr⟩) rfl
        | error c => exact Tracks.pure hr rfl

theorem tracks_evalEntries (frame : Nat) {es : List (Expr μ × Expr μ)}
    (h : Named ok (Expr.entryLeaves es)) {done : Table Key (Value μ × Value μ)}
    (hdone : ∀ e ∈ done, e.2.1.Speaks ok ∧ e.2.2.Speaks ok) :
    Tracks short R (collected ρ (relabelTable ρ))
      (Collected ok fun t => ∀ e ∈ t, e.2.1.Speaks ok ∧ e.2.2.Speaks ok)
      (evalEntries ev frame done es)
      (evalEntries ev' (ρ.frame frame) (relabelTable ρ done) (Expr.mapEntries ρ.mark es)) := by
  induction es generalizing done with
  | nil => exact Tracks.pure hdone rfl
  | cons e es ih =>
      obtain ⟨k, e⟩ := e
      rw [Expr.entryLeaves, named_append, named_append] at h
      rw [Expr.mapEntries]
      unfold evalEntries
      refine (hev k frame h.1).bind fun key hkey => Tracks.ite (by rw [isControl_relabel]) ?_ ?_
      · exact fun _ => Tracks.pure hkey rfl
      · intro _
        rw [key?_relabel, tag_relabel]
        cases key.key? with
        | none => exact (tracks_raise hR _).bind fun v hv => Tracks.pure hv rfl
        | some d =>
            refine (hev e frame h.2.1).bind fun v hv => Tracks.ite (by rw [isControl_relabel]) ?_ ?_
            · exact fun _ => Tracks.pure hv rfl
            · intro _
              have hinsert := insert_relabel ρ d (key, v) done
              have hnext := ih h.2.2 (carries_insert hdone hkey hv d)
              unfold relabelTable at hnext ⊢
              rwa [← hinsert] at hnext

theorem tracks_evalStmt (frame : Nat) {st : Stmt μ} (h : Named ok st.leaves) :
    Tracks short R (Option.map (relabel ρ)) (fun r => ∀ v, r = some v → v.Speaks ok)
      (evalStmt ev frame st) (evalStmt ev' (ρ.frame frame) (st.map ρ.mark)) := by
  unfold evalStmt
  cases st with
  | bind _ target e =>
      rw [Stmt.leaves] at h
      have hname : ok target.name := h.tail _ List.mem_cons_self
      refine (hev e frame h.tail.tail).bind fun v hv => Tracks.ite (by rw [isControl_relabel]) ?_ ?_
      · refine fun _ => Tracks.pure ?_ rfl
        rintro w ⟨⟩
        exact hv
      · refine fun _ => (tracks_define hR frame hname hv).bind fun _ _ => Tracks.pure ?_ rfl
        rintro w ⟨⟩
  | ret _ value =>
      cases value with
      | none =>
          refine Tracks.pure ?_ rfl
          rintro w ⟨⟩
          exact carries_null
      | some e =>
          refine (hev e frame h.tail).bind fun v hv => Tracks.pure ?_ ?_
          · rintro w ⟨⟩
            by_cases hc : v.isControl = true
            · rw [if_pos hc]
              exact hv
            · rw [if_neg hc]
              exact hv
          · rw [isControl_relabel]
            by_cases hc : v.isControl = true
            · rw [if_pos hc, if_pos hc]
              rfl
            · rw [if_neg hc, if_neg hc]
              rfl
  | expr _ e =>
      refine (hev e frame h).bind fun v hv => Tracks.pure ?_ rfl
      rintro w ⟨⟩
      exact hv

omit hR hev in
/-- Whether a control value stops a list of statements does not depend on labels. -/
theorem any_isControl_relabel (r : Option (Value μ)) :
    (r.map (relabel ρ)).any isControl = r.any isControl := by
  cases r with
  | none => rfl
  | some v => exact isControl_relabel ρ v

theorem tracks_evalBody (frame : Nat) {ss : List (Stmt μ)} (h : Named ok (Stmt.allLeaves ss))
    {last : Option (Value μ)} (hlast : ∀ v, last = some v → v.Speaks ok) :
    Tracks short R (Option.map (relabel ρ)) (fun r => ∀ v, r = some v → v.Speaks ok)
      (evalBody ev frame last ss)
      (evalBody ev' (ρ.frame frame) (last.map (relabel ρ)) (Stmt.mapAll ρ.mark ss)) := by
  induction ss generalizing last with
  | nil => exact Tracks.pure hlast rfl
  | cons s ss ih =>
      rw [Stmt.allLeaves, named_append] at h
      rw [Stmt.mapAll]
      unfold evalBody
      refine (tracks_evalStmt hR hev frame h.1).bind fun r hr => ?_
      refine Tracks.ite (by rw [any_isControl_relabel]) ?_ ?_
      · exact fun _ => Tracks.pure hr rfl
      · exact fun _ => ih h.2 hr

omit hR hev in
theorem leave_relabel (r : Option (Value μ)) :
    leave (r.map (relabel ρ)) = (leave r).relabel ρ := by
  cases r with
  | none => rfl
  | some v => cases v <;> rfl

omit [Mark μ] hR hev in
theorem speaks_leave {r : Option (Value μ)} (h : ∀ v, r = some v → v.Speaks ok) :
    (leave r).Speaks ok := by
  cases r with
  | none => exact carries_null
  | some v =>
      have hv := h v rfl
      cases v with
      | returned w => exact hv
      | _ => exact hv

/-- The call of a function runs its body in frames that are made in both stores. -/
theorem tracks_apply {callee : Value μ} {args : List (Value μ)} (hcallee : callee.Speaks ok)
    (h : ∀ v ∈ args, v.Speaks ok) :
    Follows short ρ ok R (apply ev callee args)
      (apply ev' (callee.relabel ρ) (args.map (relabel ρ))) := by
  cases callee with
  | function i params body outer =>
      obtain ⟨m, ss⟩ := body
      have hspeaks : Closure.Speaks ok ⟨params.map Ident.name, .mk m ss, outer⟩ :=
        carries_function_iff.1 hcallee
      simp only [relabel, apply, List.length_map]
      refine Tracks.ite Iff.rfl (fun _ => ?_) fun _ => tracks_raise hR _
      refine (tracks_note hR (.called (.function i params (.mk m ss) outer) args.length)).bind
        fun _ _ => (tracks_enter hR outer).bind fun frame _ => ?_
      have hbs : ∀ b ∈ (params.map Ident.name).zip args, ok b.1 ∧ b.2.Speaks ok := fun b hb =>
        ⟨hspeaks.1 b.1 (List.of_mem_zip hb).1, h b.2 (List.of_mem_zip hb).2⟩
      have hzip : ((params.map (Ident.map ρ.mark)).map Ident.name).zip (args.map (relabel ρ)) =
          ((params.map Ident.name).zip args).map fun b => (b.1, b.2.relabel ρ) := by
        rw [List.map_map]
        exact List.zip_map_right
      rw [hzip]
      refine (tracks_defineAll hR frame hbs).bind fun _ _ => ?_
      refine (tracks_evalBody hR hev frame hspeaks.2 (by simp)).bind fun r hr => ?_
      exact Tracks.pure (speaks_leave hr) (leave_relabel r)
  | builtin i b =>
      exact (tracks_note hR (.calledBuiltin b)).bind fun _ _ => tracks_builtin hR b h
  | _ => exact tracks_raise hR _

theorem tracks_evalBranch (frame : Nat) {b : Block μ} (h : Named ok b.leaves) :
    Follows short ρ ok R (evalBranch ev frame b)
      (evalBranch ev' (ρ.frame frame) (b.map ρ.mark)) := by
  cases b with
  | mk m ss =>
      refine (tracks_evalBody hR hev frame h (by simp)).bind fun r hr => ?_
      exact Tracks.pure (carries_getD hr) (getD_relabel ρ r)

omit hev in
theorem tracks_evalName (frame : Nat) {name : String} (h : ok name) :
    Follows short ρ ok R (evalName frame name) (evalName (ρ.frame frame) name) := by
  unfold evalName
  refine (tracks_lookup hR frame h).bind fun r hr => ?_
  cases r with
  | some v => exact Tracks.pure (hr v rfl) rfl
  | none =>
      simp only [Option.map_none]
      cases Builtin.ofName? name with
      | some b =>
          exact (tracks_newIdentity hR).bind fun _ _ =>
            Tracks.pure (carries_of_functions_eq_nil rfl) rfl
      | none => exact tracks_raise hR _

/-- One level of nesting. -/
theorem alongside_evalNode : Alongside short ρ ok R (evalNode ev) (evalNode ev') := by
  intro e frame h
  cases e with
  | name i => exact tracks_evalName hR frame (h _ List.mem_cons_self)
  | int _ v => exact Tracks.pure (carries_of_functions_eq_nil rfl) rfl
  | string _ s => exact Tracks.pure (carries_of_functions_eq_nil rfl) rfl
  | bool _ b => exact Tracks.pure (carries_of_functions_eq_nil rfl) rfl
  | unary _ op e =>
      refine tracks_onValue (hev e frame h) fun v _ => ?_
      rw [op.apply_relabel]
      exact tracks_ofExcept_of_elementary hR (op.elementary_apply v)
  | binary _ l op r =>
      obtain ⟨hl, hr⟩ := named_append.1 h
      refine tracks_onValue (hev l frame hl) fun a _ => ?_
      refine tracks_onValue (hev r frame hr) fun b _ => ?_
      rw [op.apply_relabel]
      exact tracks_ofExcept_of_elementary hR (op.elementary_apply a b)
  | cond _ t y n =>
      cases n with
      | none =>
          obtain ⟨ht, hy⟩ := named_append.1 h
          refine tracks_onValue (hev t frame ht) fun v _ => ?_
          refine Tracks.ite (by rw [isTruthy_relabel]) ?_ ?_
          · exact fun _ => tracks_evalBranch hR hev frame hy
          · exact fun _ => Tracks.pure carries_null rfl
      | some n =>
          obtain ⟨ht, hyn⟩ := named_append.1 h
          obtain ⟨hy, hn⟩ := named_append.1 hyn
          refine tracks_onValue (hev t frame ht) fun v _ => ?_
          refine Tracks.ite (by rw [isTruthy_relabel]) ?_ ?_
          · exact fun _ => tracks_evalBranch hR hev frame hy
          · exact fun _ => tracks_evalBranch hR hev frame hn
  | func _ ps body =>
      obtain ⟨hps, hbody⟩ := named_append.1 h.tail
      refine (tracks_newIdentity hR).bind fun i _ =>
        Tracks.pure (carries_function_iff.2 ⟨?_, hbody⟩) rfl
      intro name hname
      obtain ⟨p, hp, rfl⟩ := List.mem_map.1 hname
      exact hps _ (List.mem_map_of_mem hp)
  | call _ c as =>
      obtain ⟨hc, has⟩ := named_append.1 h
      refine tracks_onValue (hev c frame hc) fun callee hcallee => ?_
      refine (tracks_evalAll hev frame has).bind fun r hr => ?_
      cases r with
      | ok args => exact tracks_apply hR hev hcallee hr
      | error control => exact Tracks.pure hr rfl
  | array _ es =>
      refine (tracks_evalAll hev frame h).bind fun r hr => ?_
      cases r with
      | ok items =>
          refine (tracks_newIdentity hR).bind fun i _ => Tracks.pure (carries_array_iff.2 hr) ?_
          rw [relabel, relabelAll_eq]
      | error control => exact Tracks.pure hr rfl
  | index _ t k =>
      obtain ⟨ht, hk⟩ := named_append.1 h
      refine tracks_onValue (hev t frame ht) fun target htarget => ?_
      refine tracks_onValue (hev k frame hk) fun key _ => ?_
      rw [index_relabel]
      exact tracks_ofExcept hR fun v hv => carries_index htarget hv
  | table _ es =>
      refine (tracks_evalEntries hR hev frame h (by simp)).bind fun r hr => ?_
      cases r with
      | ok entries =>
          refine (tracks_newIdentity hR).bind fun i _ => Tracks.pure (carries_table_iff.2 hr) ?_
          rw [relabel, relabelEntries_eq]
          rfl
      | error control => exact Tracks.pure hr rfl

end

/-- Any depth of nesting.  If the first run may end early its count may also be smaller. -/
theorem alongside_eval {k l : Nat} (h : k = l ∨ (short ∧ k ≤ l)) :
    Alongside short ρ ok R (eval k) (eval l) := by
  induction k generalizing l with
  | zero =>
      intro e frame _
      rcases h with rfl | ⟨hshort, -⟩
      · exact Tracks.exhausted
      · exact fun _ _ _ => .inl ⟨hshort, rfl⟩
  | succ k ih =>
      cases l with
      | zero =>
          rcases h with heq | ⟨-, hle⟩
          · cases heq
          · exact absurd hle (Nat.not_succ_le_zero k)
      | succ l =>
          refine alongside_evalNode hR (ih ?_)
          rcases h with heq | ⟨hshort, hle⟩
          · exact .inl (Nat.succ.inj heq)
          · exact .inr ⟨hshort, Nat.le_of_succ_le_succ hle⟩

/-- **Two runs of one program stay side by side.** -/
theorem tracks_evalProgram {k l : Nat} (h : k = l ∨ (short ∧ k ≤ l)) (frame : Nat)
    {p : Program μ} (hp : Named ok (Stmt.allLeaves p)) :
    Tracks short R (Option.map (relabel ρ)) (fun r => ∀ v, r = some v → v.Speaks ok)
      (evalProgram k p frame) (evalProgram l (p.map ρ.mark) (ρ.frame frame)) := by
  rw [Program.map, ← Stmt.mapAll_eq]
  exact tracks_evalBody hR (alongside_eval hR h) frame hp (by simp)

end

/-- A program whose marks stay as they are goes side by side with itself. -/
theorem tracks_evalProgram_self {R : Store μ → Store μ → Prop} {ρ : Relabelling μ μ}
    (hR : Mirrors ρ ok R) (hmark : ρ.mark = id) {k l : Nat} (h : k = l ∨ (short ∧ k ≤ l))
    (frame : Nat) {p : Program μ} (hp : Named ok (Stmt.allLeaves p)) :
    Tracks short R (Option.map (relabel ρ)) (fun r => ∀ v, r = some v → v.Speaks ok)
      (evalProgram k p frame) (evalProgram l p (ρ.frame frame)) := by
  have htracks := tracks_evalProgram hR h frame hp
  rwa [hmark, Program.map_id] at htracks

end Run

end Treewalk
