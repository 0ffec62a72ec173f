import Treewalk.Proofs.Run.Control
import Treewalk.Proofs.Run.Path
import Treewalk.Proofs.Value.Parts

/-! # What was made in a run

Identities are given out one after the other.  So a list of all that was given one tells what was made
in a run, and in which order.

* A `Creation` is an evaluation that ends by making its result: of a literal of a function, an array or
  a table, or of `rest` or `push`.
* `Store.Records s made` says that `made` lists what was made when a run has come to `s`, that all that
  is bound in `s` comes from it, and that the functions, arrays and tables in it come from creations.
* `Makes made m P` says that a step goes on with the list: whenever it ends, what it made stands after
  `made`, and its result satisfies `P`.
* `Creates made m stops` says that the last thing a step does is to make its result, unless it ends with
  a value of the kind `stops`.

`Making ev` is the assumption on the evaluator for the parts of an expression, and `making_eval`
discharges it for any depth of nesting. -/

namespace Treewalk

variable {μ : Type}

open Value

/-- What stands in a list is what stood there before a thing was added at the end, or is this thing. -/
theorem old_or_last {made : List (Value μ)} {v w : Value μ} {i : Nat}
    (h : (made ++ [v])[i]? = some w) :
    made[i]? = some w ∨ i = made.length ∧ w = v := by
  rw [List.getElem?_append] at h
  split at h
  · exact .inl h
  · obtain ⟨hi, rfl⟩ := List.getElem?_eq_some_iff.1 h
    rw [List.length_singleton] at hi
    exact .inr ⟨by omega, by simp⟩

namespace Run

variable {α β : Type} {made made' : List (Value μ)}

/-- A value that comes from what was made. -/
abbrev Yields (v : Value μ) (made : List (Value μ)) : Prop :=
  v.From made

/-- A value, if any, comes from what was made. -/
def FromIfAny (r : Option (Value μ)) (made : List (Value μ)) : Prop :=
  ∀ v, r = some v → v.From made

/-- What satisfies `P`, or a control value that comes from what was made. -/
def FromEither (P : α → List (Value μ) → Prop) : Except (Value μ) α → List (Value μ) → Prop
  | .ok a, made => P a made
  | .error v, made => v.isControl = true ∧ v.From made

/-- Values that come from what was made. -/
def FromAll (vs : List (Value μ)) (made : List (Value μ)) : Prop :=
  ∀ v ∈ vs, v.From made

/-- Entries whose keys and values come from what was made. -/
def FromEntries (es : Table Key (Value μ × Value μ)) (made : List (Value μ)) : Prop :=
  ∀ e ∈ es, e.2.1.From made ∧ e.2.2.From made

theorem FromAll.mono {vs : List (Value μ)} (h : FromAll vs made) (hmade : made <+: made') :
    FromAll vs made' :=
  fun v hv => (h v hv).mono hmade

theorem FromEntries.mono {es : Table Key (Value μ × Value μ)} (h : FromEntries es made)
    (hmade : made <+: made') : FromEntries es made' :=
  fun e he => ⟨(h e he).1.mono hmade, (h e he).2.mono hmade⟩

/-- An evaluation that starts in `s`, after `made` was made, and ends in `t` with the value `v` that it
made. -/
inductive Creation [Mark μ] (made : List (Value μ)) (s : Store μ) (v : Value μ) (t : Store μ) : Prop
  | func {n frame : Nat} {m : μ} {ps : List (Ident μ)} {body : Block μ}
      (h : eval (n + 1) (.func m ps body) frame s = some (v, t))
  | array {n frame : Nat} {m : μ} {es : List (Expr μ)}
      (h : eval (n + 1) (.array m es) frame s = some (v, t)) (hv : v.isControl = false)
  | table {n frame : Nat} {m : μ} {es : List (Expr μ × Expr μ)}
      (h : eval (n + 1) (.table m es) frame s = some (v, t)) (hv : v.isControl = false)
  /-- A call of `rest` or `push` that does not fail or give `null`. -/
  | builtin {b : Builtin} {args : List (Value μ)} (hb : b = .rest ∨ b = .push)
      (hargs : FromAll args made) (h : b.run args s = some (v, t)) (hv : v.isComposite = true)

end Run

namespace Store

/-- A list holds what was given an identity in a run that has come to a store. -/
structure Lists (s : Store μ) (made : List (Value μ)) : Prop where
  /-- The next identity is the number of things made. -/
  length_eq : made.length = s.nextIdentity
  /-- The things made have their places in the list as identities. -/
  identity : ∀ (i : Nat) v, made[i]? = some v → v.identity? = some i
  /-- What is inside something made was made too. -/
  inside : ∀ v ∈ made, v.From made
  /-- What is bound, and what is inside it, was made. -/
  bound : ∀ frame name v, s.local? frame name = some v → v.From made

end Store

/-- A value comes from the creation that filled a place of the list `made`: one that starts when no more
than what stands before that place was made, and ends when just the list up to there was made. -/
def Run.ComesFrom [Mark μ] (made : List (Value μ)) (j : Nat) (v : Value μ) : Prop :=
  made[j]? = some v ∧ ∃ before start stop, before <+: made.take j ∧ start.Lists before ∧
    Run.Creation before start v stop ∧ stop.Lists (made.take (j + 1))

namespace Store

/-- A list tells how everything was made in a run that has come to a store. -/
structure Records [Mark μ] (s : Store μ) (made : List (Value μ)) : Prop extends s.Lists made where
  /-- Functions, arrays and tables come from creations. -/
  created : ∀ (j : Nat) v, made[j]? = some v → v.isComposite = true → Run.ComesFrom made j v

variable {s t : Store μ} {made : List (Value μ)}

theorem Lists.lookup (h : s.Lists made) {frame : Nat} {name : String} {v : Value μ}
    (hv : s.lookup frame name = some v) : v.From made := by
  obtain ⟨i, -, hi⟩ := List.exists_of_findSome?_eq_some hv
  exact h.bound i name v hi

/-- A change of the store that neither binds nor makes anything. -/
theorem Records.of_eq [Mark μ] (h : s.Records made) (hidentity : t.nextIdentity = s.nextIdentity)
    (hlocal : ∀ frame name, t.local? frame name = s.local? frame name) : t.Records made where
  length_eq := h.length_eq.trans hidentity.symm
  identity := h.identity
  inside := h.inside
  bound frame name v hv := h.bound frame name v ((hlocal frame name).symm.trans hv)
  created := h.created

theorem Records.define [Mark μ] (h : s.Records made) (frame : Nat) (name : String) {v : Value μ}
    (hv : v.From made) : (s.define frame name v).Records made where
  length_eq := h.length_eq
  identity := h.identity
  inside := h.inside
  bound frame' name' w hw := by
    rcases local?_define hw with rfl | hold
    · exact hv
    · exact h.bound frame' name' w hold
  created := h.created

/-- Something made with the next identity comes last in the list. -/
theorem Lists.concat (h : s.Lists made) {v : Value μ} (hv : v.identity? = some made.length)
    (hfrom : v.From (made ++ [v])) :
    Store.Lists { s with nextIdentity := s.nextIdentity + 1 } (made ++ [v]) where
  length_eq := by rw [List.length_append, List.length_singleton, h.length_eq]
  identity i w hw := by
    rcases old_or_last hw with hw | ⟨rfl, rfl⟩
    · exact h.identity i w hw
    · exact hv
  inside w hw := by
    rcases List.mem_append.1 hw with hw | hw
    · exact (h.inside w hw).mono (List.prefix_append made [v])
    · rwa [List.mem_singleton.1 hw]
  bound frame name w hw := (h.bound frame name w hw).mono (List.prefix_append made [v])

theorem Records.concat [Mark μ] (h : s.Records made) {v : Value μ}
    (hv : v.identity? = some made.length)
    (hfrom : v.From (made ++ [v])) (hcreated : v.isComposite = true →
      ∃ before start, before <+: made ∧ Store.Lists start before ∧
        Run.Creation before start v { s with nextIdentity := s.nextIdentity + 1 }) :
    Store.Records { s with nextIdentity := s.nextIdentity + 1 } (made ++ [v]) where
  toLists := h.toLists.concat hv hfrom
  created j w hw hcomposite := by
    refine ⟨hw, ?_⟩
    -- What was created earlier has its place before the new end, and `take` does not reach that.
    rcases old_or_last hw with hw | ⟨rfl, rfl⟩
    · obtain ⟨-, before, start, stop, hbefore, hstart, hcreation, hstop⟩ := h.created j w hw hcomposite
      have hlt := (List.getElem?_eq_some_iff.1 hw).1
      rw [List.take_append_of_le_length hlt, List.take_append_of_le_length (Nat.le_of_lt hlt)]
      exact ⟨before, start, stop, hbefore, hstart, hcreation, hstop⟩
    · obtain ⟨before, start, hbefore, hstart, hcreation⟩ := hcreated hcomposite
      rw [List.take_left, List.take_of_length_le (by simp)]
      exact ⟨before, start, _, hbefore, hstart, hcreation, h.toLists.concat hv hfrom⟩

end Store

namespace Run

variable {α β : Type} {made : List (Value μ)}

/-- Whenever a step ends that was started after `made` was made, what was made meanwhile comes after
`made`, and the result satisfies `P` with all that was made. -/
def Makes [Mark μ] (made : List (Value μ)) (m : Run μ α) (P : α → List (Value μ) → Prop) : Prop :=
  ∀ ⦃s t : Store μ⦄ ⦃a : α⦄, s.Records made → m s = some (a, t) →
    ∃ made', made <+: made' ∧ t.Records made' ∧ P a made'

variable {P : α → List (Value μ) → Prop}

theorem Makes.pure [Mark μ] {a : α} (h : P a made) : Makes made (Pure.pure a) P := by
  rintro s _ _ hs ⟨⟩
  exact ⟨made, List.prefix_rfl, hs, h⟩

theorem Makes.bind [Mark μ] {m : Run μ α} {f : α → Run μ β} {R : β → List (Value μ) → Prop}
    (h : Makes made m P) (hf : ∀ a made', made <+: made' → P a made' → Makes made' (f a) R) :
    Makes made (m >>= f) R := by
  intro s u b hs hm
  obtain ⟨a, t, hr, hrest⟩ := exists_of_bind hm
  obtain ⟨made', hgrows, ht, ha⟩ := h hs hr
  obtain ⟨made'', hgrows', hu, hb⟩ := hf a made' hgrows ha ht hrest
  exact ⟨made'', hgrows.trans hgrows', hu, hb⟩

theorem Makes.ite [Mark μ] {c : Prop} [Decidable c] {m m' : Run μ α} (h : c → Makes made m P)
    (h' : Makes made m' P) : Makes made (if c then m else m') P := by
  by_cases hc : c
  · rw [if_pos hc]
    exact h hc
  · rw [if_neg hc]
    exact h'

/-! ### Single steps -/

/-- A change of the store that neither binds nor makes anything. -/
theorem makes_step [Mark μ] {f : Store μ → α × Store μ}
    (h : ∀ s, (f s).2.nextIdentity = s.nextIdentity ∧
      ∀ frame name, (f s).2.local? frame name = s.local? frame name)
    (hP : ∀ s, s.Records made → P (f s).1 made) : Makes made (fun s => some (f s)) P := by
  intro s t a hs hm
  obtain ⟨hidentity, hlocal⟩ := h s
  have ha := hP s hs
  rw [Option.some.inj hm] at hidentity hlocal ha
  exact ⟨made, List.prefix_rfl, hs.of_eq hidentity hlocal, ha⟩

theorem makes_note [Mark μ] (e : Event μ) : Makes made (note e) fun _ _ => True :=
  makes_step (fun _ => ⟨rfl, fun _ _ => rfl⟩) fun _ _ => trivial

theorem makes_lookup [Mark μ] (frame : Nat) (name : String) :
    Makes made (lookup frame name) FromIfAny :=
  makes_step (fun _ => ⟨rfl, fun _ _ => rfl⟩) fun _ hs _ hv => hs.lookup hv

theorem makes_enter [Mark μ] (outer : Nat) : Makes made (enter outer) fun _ _ => True :=
  makes_step (fun _ => ⟨rfl, Store.local?_newFrame (some outer)⟩) fun _ _ => trivial

theorem makes_define [Mark μ] (frame : Nat) (name : String) {v : Value μ} (hv : v.From made) :
    Makes made (define frame name v) fun _ _ => True := by
  rintro s _ _ hs ⟨⟩
  have hnoted : Store.Records { s with events := .bound frame name v :: s.events } made :=
    hs.of_eq rfl fun _ _ => rfl
  exact ⟨made, List.prefix_rfl, hnoted.define frame name hv, trivial⟩

theorem makes_defineAll [Mark μ] (frame : Nat) {bs : List (String × Value μ)}
    (h : ∀ b ∈ bs, b.2.From made) : Makes made (defineAll frame bs) fun _ _ => True := by
  induction bs generalizing made with
  | nil => exact Makes.pure trivial
  | cons b bs ih =>
      rw [List.forall_mem_cons] at h
      refine (makes_define frame b.1 h.1).bind fun _ made' hgrows _ => ih fun b' hb' => ?_
      exact (h.2 b' hb').mono hgrows

theorem makes_raise [Mark μ] (e : Fault) : Makes made (raise e) Yields :=
  (makes_note _).bind fun _ _ _ _ => Makes.pure (from_error e)

theorem makes_ofExcept [Mark μ] {r : Except Fault (Value μ)} (h : ∀ v, r = .ok v → v.From made) :
    Makes made (ofExcept r) Yields := by
  cases r with
  | ok v => exact Makes.pure (h v rfl)
  | error e => exact makes_raise e

theorem makes_ofExcept_of_elementary [Mark μ] {r : Except Fault (Value μ)} (h : Elementary r) :
    Makes made (ofExcept r) Yields := by
  refine makes_ofExcept ?_
  rintro v rfl
  exact from_of_isScalar h

theorem makes_onValue [Mark μ] {m : Run μ (Value μ)} {next : Value μ → Run μ (Value μ)}
    (h : Makes made m Yields)
    (hnext : ∀ v made', made <+: made' → v.From made' → Makes made' (next v) Yields) :
    Makes made (onValue m next) Yields :=
  h.bind fun v made' hgrows hv =>
    Makes.ite (fun _ => Makes.pure hv) (hnext v made' hgrows hv)

/-! ### What is made -/

/-- Whenever a step ends that was started after `made` was made, it ends with a value of the kind `stops`,
or else the last thing it did was to make its result.  So what was made `before` does not contain the
result, nor does the store contain it in which it was made. -/
def Creates [Mark μ] (made : List (Value μ)) (m : Run μ (Value μ)) (stops : Value μ → Prop) :
    Prop :=
  ∀ ⦃s t : Store μ⦄ ⦃v : Value μ⦄, s.Records made → m s = some (v, t) →
    (stops v ∧ ∃ made', made <+: made' ∧ t.Records made' ∧ v.From made') ∨
      ∃ (before : List (Value μ)) (u : Store μ), made <+: before ∧ u.Records before ∧
        t = { u with nextIdentity := u.nextIdentity + 1 } ∧
        v.identity? = some before.length ∧ v.From (before ++ [v])

variable {stops : Value μ → Prop}

/-- A step that ends with what it made goes on with the list, if it is a creation. -/
theorem Creates.makes [Mark μ] {m : Run μ (Value μ)} (h : Creates made m stops)
    (hcreation : ∀ s t v, m s = some (v, t) → v.isComposite = true → Creation made s v t) :
    Makes made m Yields := by
  intro s t v hs hm
  rcases h hs hm with ⟨-, hmakes⟩ | ⟨before, u, hgrows, hu, rfl, hv, hfrom⟩
  · exact hmakes
  -- The creation is the whole step `m`, not just the handing out of the identity at its end.
  · have hbefore := List.prefix_append before [v]
    refine ⟨before ++ [v], hgrows.trans hbefore, hu.concat hv hfrom fun hcomposite => ?_, hfrom⟩
    exact ⟨made, s, hgrows, hs.toLists, hcreation _ _ _ hm hcomposite⟩

theorem Makes.creates [Mark μ] {m : Run μ α} {f : α → Run μ (Value μ)} (h : Makes made m P)
    (hf : ∀ a made', made <+: made' → P a made' → Creates made' (f a) stops) :
    Creates made (m >>= f) stops := by
  intro s t v hs hm
  obtain ⟨a, r, hr, hrest⟩ := exists_of_bind hm
  obtain ⟨made', hgrows, hr, ha⟩ := h hs hr
  rcases hf a made' hgrows ha hr hrest with ⟨hstops, made'', hgrows', ht⟩ | ⟨before, u, hgrows', hu⟩
  · exact .inl ⟨hstops, made'', hgrows.trans hgrows', ht⟩
  · exact .inr ⟨before, u, hgrows.trans hgrows', hu⟩

/-- A step that makes nothing at its end. -/
theorem creates_of_stops [Mark μ] {m : Run μ (Value μ)}
    (h : Makes made m fun v made' => stops v ∧ v.From made') :
    Creates made m stops := by
  intro s t v hs hm
  obtain ⟨made', hgrows, ht, hstops, hv⟩ := h hs hm
  exact .inl ⟨hstops, made', hgrows, ht, hv⟩

/-- Something that is made with the next identity. -/
theorem creates_new [Mark μ] {c : Nat → Value μ} (hidentity : ∀ i, (c i).identity? = some i)
    (hfrom : ∀ i made', made <+: made' → (c i).Listed made' → (c i).From made') :
    Creates made (newIdentity >>= fun i => Pure.pure (c i)) stops := by
  rintro s _ _ hs ⟨⟩
  have hnext : (c s.nextIdentity).identity? = some made.length := by
    rw [hidentity, hs.length_eq]
  have hnew := hfrom _ _ (List.prefix_append made [c s.nextIdentity]) (listed_concat hnext)
  exact .inr ⟨made, s, List.prefix_rfl, hs, rfl, hnext, hnew⟩

theorem creates_newArray [Mark μ] {items : List (Value μ)} (h : FromAll items made) :
    Creates made (Builtin.newArray items) stops := by
  refine creates_new (c := fun i => .array i items) (fun _ => rfl) fun i made' hgrows hlisted => ?_
  exact from_array_iff.2 ⟨hlisted, h.mono hgrows⟩

theorem creates_newTable [Mark μ] {entries : Table Key (Value μ × Value μ)}
    (h : FromEntries entries made) :
    Creates made (newIdentity >>= fun i => Pure.pure (.table i entries)) stops := by
  refine creates_new (c := fun i => .table i entries) (fun _ => rfl) fun i made' hgrows hlisted => ?_
  exact from_table_iff.2 ⟨hlisted, h.mono hgrows⟩

/-! ### The functions of the language itself -/

theorem makes_withOne [Mark μ] {args : List (Value μ)} {next : Value μ → Run μ (Value μ)}
    (h : ∀ v ∈ args, Makes made (next v) Yields) : Makes made (Builtin.withOne args next) Yields := by
  unfold Builtin.withOne
  split
  · exact h _ List.mem_cons_self
  · exact makes_raise _

theorem makes_withItems [Mark μ] (which : Builtin) {v : Value μ} (hv : v.From made)
    {next : List (Value μ) → Run μ (Value μ)}
    (h : ∀ items, FromAll items made → Makes made (next items) Yields) :
    Makes made (Builtin.withItems which v next) Yields := by
  unfold Builtin.withItems
  split
  · exact h _ (from_array_iff.1 hv).2
  · exact makes_raise _

theorem makes_printAll [Mark μ] (vs : List (Value μ)) :
    Makes made (Builtin.printAll vs) fun _ _ => True := by
  induction vs generalizing made with
  | nil => exact Makes.pure trivial
  | cons v vs ih => exact (makes_note _).bind fun _ _ _ _ => ih

theorem creates_raise [Mark μ] (e : Fault) :
    Creates made (raise e) fun v => v.isComposite = false :=
  creates_of_stops <| (makes_note _).bind fun _ _ _ _ => Makes.pure ⟨rfl, from_error e⟩

/-- An array without its first item is made, if there is one. -/
theorem creates_rest [Mark μ] {args : List (Value μ)} (h : FromAll args made) :
    Creates made (Builtin.rest.run args) fun v => v.isComposite = false := by
  rcases args with _ | ⟨a, _ | ⟨b, args⟩⟩
  · exact creates_raise _
  · cases a with
    | array id items =>
        have hitems := (from_array_iff.1 (h _ List.mem_cons_self)).2
        cases items with
        | nil => exact creates_of_stops (Makes.pure ⟨rfl, from_of_isScalar rfl⟩)
        | cons w items => exact creates_newArray (List.forall_mem_cons.1 hitems).2
    | _ => exact creates_raise _
  · exact creates_raise _

/-- An array with one more item is made. -/
theorem creates_push [Mark μ] {args : List (Value μ)} (h : FromAll args made) :
    Creates made (Builtin.push.run args) fun v => v.isComposite = false := by
  rcases args with _ | ⟨a, _ | ⟨w, _ | ⟨b, args⟩⟩⟩
  · exact creates_raise _
  · exact creates_raise _
  · rw [FromAll, List.forall_mem_cons, List.forall_mem_singleton] at h
    cases a with
    | array id items =>
        refine creates_newArray ?_
        rw [FromAll, List.forall_mem_append, List.forall_mem_singleton]
        exact ⟨(from_array_iff.1 h.1).2, h.2⟩
    | _ => exact creates_raise _
  · exact creates_raise _

/-- A function of the language itself gives nothing that was not made. -/
theorem makes_builtin [Mark μ] (b : Builtin) {args : List (Value μ)} (h : FromAll args made) :
    Makes made (b.run args) Yields := by
  cases b with
  | len =>
      refine makes_withOne fun v _ => ?_
      split
      · exact Makes.pure (from_of_isScalar rfl)
      · exact Makes.pure (from_of_isScalar rfl)
      · exact makes_raise _
  | puts => exact (makes_printAll args).bind fun _ _ _ _ => Makes.pure (from_of_isScalar rfl)
  | first =>
      refine makes_withOne fun v hv => makes_withItems _ (h v hv) fun items hitems => ?_
      exact Makes.pure (from_getD fun w hw => hitems w (List.mem_of_mem_head? hw))
  | last =>
      refine makes_withOne fun v hv => makes_withItems _ (h v hv) fun items hitems => ?_
      exact Makes.pure (from_getD fun w hw => hitems w (List.mem_of_mem_getLast? hw))
  | rest => exact (creates_rest h).makes fun _ _ _ hm hv => .builtin (.inl rfl) h hm hv
  | push => exact (creates_push h).makes fun _ _ _ hm hv => .builtin (.inr rfl) h hm hv

/-! ### The evaluator -/

/-- An evaluator that gives nothing that was not made. -/
def Making [Mark μ] (ev : Evaluator μ) : Prop :=
  ∀ made e frame, Makes made (ev e frame) Yields

theorem from_leave {r : Option (Value μ)} (h : FromIfAny r made) : (leave r).From made := by
  cases r with
  | none => exact from_of_isScalar rfl
  | some v =>
      have hv := h v rfl
      cases v with
      | returned w => exact from_returned_iff.1 hv
      | _ => exact hv

theorem from_settle {r : Option (Value μ)} (h : FromIfAny r made) : FromIfAny (settle r) made := by
  intro v hv
  cases r with
  | none => cases hv
  | some w =>
      have hw := h w rfl
      cases w with
      | returned u =>
          obtain rfl := Option.some.inj hv
          exact from_returned_iff.1 hw
      | _ =>
          obtain rfl := Option.some.inj hv
          exact hw

theorem fromIfAny_some {v : Value μ} (h : v.From made) : FromIfAny (some v) made := by
  rintro w ⟨⟩
  exact h

theorem fromIfAny_none : FromIfAny none made := by
  rintro w ⟨⟩

section

variable [Mark μ] {ev : Evaluator μ} (hev : Making ev)
include hev

theorem makes_evalAll (frame : Nat) (es : List (Expr μ)) :
    Makes made (evalAll ev frame es) (FromEither FromAll) := by
  induction es generalizing made with
  | nil => exact Makes.pure (by simp [FromEither, FromAll])
  | cons e es ih =>
      unfold evalAll
      refine (hev made e frame).bind fun v made' _ hv => ?_
      refine Makes.ite (fun hc => Makes.pure ⟨hc, hv⟩) ?_
      refine ih.bind fun r made'' hgrows hr => ?_
      cases r with
      | ok vs => exact Makes.pure (List.forall_mem_cons.2 ⟨hv.mono hgrows, hr⟩)
      | error c => exact Makes.pure hr

theorem makes_evalEntries (frame : Nat) (es : List (Expr μ × Expr μ))
    {done : Table Key (Value μ × Value μ)} (hdone : FromEntries done made) :
    Makes made (evalEntries ev frame done es) (FromEither FromEntries) := by
  induction es generalizing made done with
  | nil => exact Makes.pure hdone
  | cons e es ih =>
      obtain ⟨k, e⟩ := e
      unfold evalEntries
      refine (hev made k frame).bind fun key made' hgrows hkey => ?_
      refine Makes.ite (fun hc => Makes.pure ⟨hc, hkey⟩) ?_
      split
      · exact (makes_note _).bind fun _ _ _ _ => Makes.pure ⟨rfl, from_error _⟩
      refine (hev made' e frame).bind fun v made'' hgrows' hv => ?_
      refine Makes.ite (fun hc => Makes.pure ⟨hc, hv⟩) ?_
      refine ih fun d hd => ?_
      rcases Table.mem_of_mem_insert hd with rfl | hd
      · exact ⟨hkey.mono hgrows', hv⟩
      · exact hdone.mono (hgrows.trans hgrows') d hd

theorem makes_evalStmt (frame : Nat) (st : Stmt μ) :
    Makes made (evalStmt ev frame st) FromIfAny := by
  unfold evalStmt
  cases st with
  | bind _ target e =>
      refine (hev made e frame).bind fun v made' _ hv => ?_
      refine Makes.ite (fun _ => Makes.pure (fromIfAny_some hv)) ?_
      exact (makes_define frame target.name hv).bind fun _ _ _ _ => Makes.pure fromIfAny_none
  | ret _ value =>
      cases value with
      | none =>
          exact Makes.pure (fromIfAny_some (from_returned_iff.2 (from_of_isScalar rfl)))
      | some e =>
          refine (hev made e frame).bind fun v made' _ hv => Makes.pure (fromIfAny_some ?_)
          split
          · exact hv
          · exact from_returned_iff.2 hv
  | expr _ e => exact (hev made e frame).bind fun v _ _ hv => Makes.pure (fromIfAny_some hv)

theorem makes_evalBody (frame : Nat) (ss : List (Stmt μ)) {last : Option (Value μ)}
    (hlast : FromIfAny last made) : Makes made (evalBody ev frame last ss) FromIfAny := by
  induction ss generalizing made last with
  | nil => exact Makes.pure hlast
  | cons st ss ih =>
      unfold evalBody
      refine (makes_evalStmt hev frame st).bind fun r _ _ hr => ?_
      exact Makes.ite (fun _ => Makes.pure hr) (ih hr)

/-- **A call gives nothing that was not made**, before it or in it. -/
theorem makes_apply {callee : Value μ} {args : List (Value μ)} (h : FromAll args made) :
    Makes made (apply ev callee args) Yields := by
  unfold apply
  split
  · rename_i params body outer
    refine Makes.ite (fun _ => ?_) (makes_raise _)
    refine (makes_note _).bind fun _ made₁ h₁ _ => ?_
    refine (makes_enter outer).bind fun frame made₂ h₂ _ => ?_
    have hargs : ∀ b ∈ (params.map Ident.name).zip args, b.2.From made₂ := fun b hb =>
      h.mono (h₁.trans h₂) b.2 (List.of_mem_zip hb).2
    refine (makes_defineAll frame hargs).bind fun _ made₃ _ _ => ?_
    refine (makes_evalBody hev frame body.body fromIfAny_none).bind fun r _ _ hr => ?_
    exact Makes.pure (from_leave hr)
  · exact (makes_note _).bind fun _ _ hgrows _ => makes_builtin _ (h.mono hgrows)
  · exact makes_raise _

theorem makes_evalBranch (frame : Nat) (b : Block μ) :
    Makes made (evalBranch ev frame b) Yields :=
  (makes_evalBody hev frame b.body fromIfAny_none).bind fun _ _ _ hr => Makes.pure (from_getD hr)

omit hev in
theorem makes_evalName (frame : Nat) (name : String) : Makes made (evalName frame name) Yields := by
  unfold evalName
  refine (makes_lookup frame name).bind fun r made' _ hr => ?_
  cases r with
  | some v => exact Makes.pure (hr v rfl)
  | none =>
      cases Builtin.ofName? name with
      | some b =>
          have hnew : Creates made' (newIdentity >>= fun i => Pure.pure (.builtin i b)) fun _ => False :=
            creates_new (c := fun i => .builtin i b) (fun _ => rfl)
              fun _ _ _ hlisted => from_of_parts_eq rfl hlisted
          refine hnew.makes fun s t v hm hv => ?_
          obtain ⟨⟩ := hm
          cases hv
      | none => exact makes_raise _

omit hev in
/-- A function literal makes its result. -/
theorem creates_func (m : μ) (ps : List (Ident μ)) (body : Block μ) (frame : Nat) :
    Creates made (evalNode ev (.func m ps body) frame) fun _ => False :=
  creates_new (c := fun i => .function i ps body frame) (fun _ => rfl)
    fun _ _ _ hlisted => from_of_parts_eq rfl hlisted

/-- An array literal makes its result, unless a control value stops it. -/
theorem creates_array (m : μ) (es : List (Expr μ)) (frame : Nat) :
    Creates made (evalNode ev (.array m es) frame) fun v => v.isControl = true := by
  refine (makes_evalAll hev frame es).creates fun r _ _ hr => ?_
  cases r with
  | ok items => exact creates_newArray hr
  | error c => exact creates_of_stops (Makes.pure hr)

/-- A table literal makes its result, unless a control value stops it. -/
theorem creates_table (m : μ) (es : List (Expr μ × Expr μ)) (frame : Nat) :
    Creates made (evalNode ev (.table m es) frame) fun v => v.isControl = true := by
  refine (makes_evalEntries hev frame es (by simp [FromEntries])).creates fun r _ _ hr => ?_
  cases r with
  | ok entries => exact creates_newTable hr
  | error c => exact creates_of_stops (Makes.pure hr)

end

/-- One more level of nesting. -/
theorem Making.succ [Mark μ] {n : Nat} (hev : Making (eval n : Evaluator μ)) :
    Making (eval (n + 1) : Evaluator μ) := by
  intro made e frame
  cases e with
  | name i => exact makes_evalName frame i.name
  | int _ v => exact Makes.pure (from_of_isScalar rfl)
  | string _ s => exact Makes.pure (from_of_isScalar rfl)
  | bool _ b => exact Makes.pure (from_of_isScalar rfl)
  | unary _ op e =>
      refine makes_onValue (hev made e frame) fun v made' _ _ => ?_
      exact makes_ofExcept_of_elementary (op.elementary_apply v)
  | binary _ l op r =>
      refine makes_onValue (hev made l frame) fun a made' _ _ => ?_
      refine makes_onValue (hev made' r frame) fun b made'' _ _ => ?_
      exact makes_ofExcept_of_elementary (op.elementary_apply a b)
  | cond _ t y n =>
      refine makes_onValue (hev made t frame) fun v made' _ _ => ?_
      refine Makes.ite (fun _ => makes_evalBranch hev frame y) ?_
      cases n with
      | none => exact Makes.pure (from_of_isScalar rfl)
      | some n => exact makes_evalBranch hev frame n
  | func m ps body =>
      exact (creates_func m ps body frame).makes fun _ _ _ hm _ => .func hm
  | call _ c as =>
      refine makes_onValue (hev made c frame) fun callee made' _ _ => ?_
      refine (makes_evalAll hev frame as).bind fun r made'' _ hr => ?_
      cases r with
      | ok args => exact makes_apply hev hr
      | error control => exact Makes.pure hr.2
  | array m es =>
      exact (creates_array hev m es frame).makes fun _ _ _ hm hv =>
        .array hm (isControl_of_isComposite hv)
  | index _ t k =>
      refine makes_onValue (hev made t frame) fun target made' _ htarget => ?_
      refine makes_onValue (hev made' k frame) fun key made'' hgrows _ => ?_
      exact makes_ofExcept fun v hv => from_index (htarget.mono hgrows) hv
  | table m es =>
      exact (creates_table hev m es frame).makes fun _ _ _ hm hv =>
        .table hm (isControl_of_isComposite hv)

/-- Any depth of nesting. -/
theorem making_eval [Mark μ] (n : Nat) : Making (eval n : Evaluator μ) := by
  induction n with
  | zero => rintro made e frame s t a - ⟨⟩
  | succ n ih => exact ih.succ

theorem makes_evaluate [Mark μ] (n : Nat) (p : Program μ) (frame : Nat) :
    Makes made (evaluate n p frame) FromIfAny :=
  (makes_evalBody (making_eval n) frame p fromIfAny_none).bind fun _ _ _ hr =>
    Makes.pure (from_settle hr)

end Run

end Treewalk
