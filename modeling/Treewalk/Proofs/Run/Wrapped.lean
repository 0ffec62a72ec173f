import Treewalk.Proofs.Run.Control
import Treewalk.Proofs.Run.Marked
import Treewalk.Proofs.Run.Through

/-! # Statements in a program, a branch and a call

The statements of a program can also be run as the branch of `if (true)` and as the body of a
function that is called at once.

* In a branch they are run in the same frame.  Nothing changes but that a missing value is `null`
  (`evaluate_branch`).
* In a call they are run one frame further in.  A run of the program and one of the call go side by
  side, with all frames and identities of the second numbered one higher (`Inward`).
* A program gives no value just when it is empty, or ends in a binding and runs through
  (`evaluate_eq_none_iff`). -/

namespace Treewalk

variable {μ : Type}

namespace Run

open Value

variable {n : Nat} {p : Program μ} {frame : Nat} {s s' t : Store μ} {r : Option (Value μ)}

/-! ### In a branch -/

/-- The only statement of a program gives what its expression gives. -/
theorem evalProgram_expr [Mark μ] (m : μ) (e : Expr μ) :
    evalProgram n [.expr m e] frame s = (eval n e frame s).map fun x => (some x.1, x.2) := by
  change evalBody (eval n) frame none [.expr m e] s = _
  cases h : eval n e frame s with
  | none =>
      change ((eval n e frame s).bind _).bind _ = _
      rw [h]
      rfl
  | some x =>
      have hst : evalStmt (eval n) frame (.expr m e) s = some (some x.1, x.2) := by
        change (eval n e frame s).bind _ = _
        rw [h]
        rfl
      rw [evalBody_cons hst]
      split <;> rfl

/-- A program that is a single expression gives what the expression gives. -/
theorem evaluate_expr [Mark μ] (m : μ) (e : Expr μ) :
    evaluate n [.expr m e] frame s = (eval n e frame s).map fun x => (settle (some x.1), x.2) := by
  change (evalProgram n [.expr m e] frame s).bind _ = _
  rw [evalProgram_expr]
  cases eval n e frame s <;> rfl

theorem settle_getD (r : Option (Value μ)) :
    settle (some (r.getD .null)) = some ((settle r).getD .null) := by
  cases r with
  | none => rfl
  | some v => cases v <;> rfl

/-- The statements of a program as the branch of `if (true)`. -/
def inBranch (m₁ m₂ m₃ m₄ : μ) (p : Program μ) : Program μ :=
  [.expr m₁ (.cond m₂ (.bool m₃ true) (.mk m₄ p) none)]

/-- In a branch, statements do what they do in a program. -/
theorem evaluate_branch [Mark μ] (m₁ m₂ m₃ m₄ : μ) :
    evaluate (n + 2) (inBranch m₁ m₂ m₃ m₄ p) frame s =
      (evaluate (n + 1) p frame s).map fun x => (some (x.1.getD .null), x.2) := by
  rw [inBranch, evaluate_expr]
  change Option.map _ ((evalBody (eval (n + 1)) frame none p s).bind _) =
    Option.map _ ((evalBody (eval (n + 1)) frame none p s).bind _)
  cases evalBody (eval (n + 1)) frame none p s with
  | none => rfl
  | some x => exact congrArg (fun r => some (r, x.2)) (settle_getD x.1)

theorem gives_branch_iff [Mark μ] (m₁ m₂ m₃ m₄ : μ) {r' : Option (Value μ)} :
    Gives (inBranch m₁ m₂ m₃ m₄ p) frame s r' s' ↔
      ∃ r, Gives p frame s r s' ∧ r' = some (r.getD .null) := by
  constructor
  · rintro ⟨n, h⟩
    have h := evaluate_mono h (Nat.le_add_right n 2)
    rw [evaluate_branch] at h
    obtain ⟨⟨r, t⟩, hrun, heq⟩ := Option.map_eq_some_iff.1 h
    obtain ⟨rfl, rfl⟩ := Prod.mk.inj heq
    exact ⟨r, ⟨n + 1, hrun⟩, rfl⟩
  · rintro ⟨r, ⟨n, h⟩, rfl⟩
    refine ⟨n + 2, ?_⟩
    rw [evaluate_branch, evaluate_mono h (Nat.le_succ n)]
    rfl

/-! ### In a call -/

section

variable [Mark μ]

/-- All frames and identities are numbered one higher, and all marks stay as they are. -/
def inwards : Relabelling μ μ :=
  { Relabelling.id with
    frame := fun i => i + 1
    identity := fun i => i + 1
    injective := fun _ _ h => Nat.succ.inj h }

@[simp] theorem inwards_frame (i : Nat) : (inwards : Relabelling μ μ).frame i = i + 1 := rfl

/-- A frame one further in.  One that lay in no other lies in the frame `0`. -/
def inwardFrame (f : Frame μ) : Frame μ where
  outer := some ((f.outer.map (· + 1)).getD 0)
  bindings := f.bindings.map fun b => (b.1, b.2.relabel inwards)

/-- The second store has the frames of the first inside an empty one, and the events of the first
after others. -/
structure Inward (earlier : List (Event μ)) (s t : Store μ) : Prop where
  size : t.frames.size = s.frames.size + 1
  outermost : t.frames[0]? = some ⟨none, []⟩
  inner (i : Nat) : t.frames[i + 1]? = (s.frames[i]?).map inwardFrame
  nextIdentity : t.nextIdentity = s.nextIdentity + 1
  events : t.events = s.events.map (Event.relabel inwards) ++ earlier

namespace Inward

variable {earlier : List (Event μ)} (h : Inward earlier s t)
include h

theorem local?_zero (name : String) : t.local? 0 name = none := by
  rw [Store.local?, h.outermost]
  rfl

theorem local?_succ (i : Nat) (name : String) :
    t.local? (i + 1) name = (s.local? i name).map (relabel inwards) := by
  rw [Store.local?, Store.local?, h.inner]
  cases s.frames[i]? with
  | none => rfl
  | some f => exact Store.lookup_map_relabel inwards name f.bindings

theorem outer?_succ (i : Nat) :
    t.outer? (i + 1) = (s.frames[i]?).map fun f => (f.outer.map (· + 1)).getD 0 := by
  rw [Store.outer?, h.inner]
  cases s.frames[i]? <;> rfl

theorem lookup_zero (name : String) : t.lookup 0 name = none := by
  rw [Store.lookup_eq, h.local?_zero]
  cases t.outer? 0 <;> rfl

theorem lookup_succ (i : Nat) (name : String) :
    t.lookup (i + 1) name = (s.lookup i name).map (relabel inwards) := by
  induction i using Nat.strongRecOn with
  | ind i ih =>
      rw [Store.lookup_eq, Store.lookup_eq s, h.local?_succ, h.outer?_succ, Store.outer?]
      cases s.local? i name with
      | some v => rfl
      | none =>
          cases s.frames[i]? with
          | none => rfl
          | some f =>
              cases ho : f.outer with
              | none => simp [ho, h.lookup_zero]
              | some outer =>
                  by_cases hlt : outer < i
                  · simp [ho, hlt, ih outer hlt]
                  · simp [ho, hlt]

end Inward

/-- Every step of a run keeps the second store one frame further in. -/
theorem mirrors_inward (earlier : List (Event μ)) :
    Mirrors inwards (fun _ => True) (Inward earlier) where
  note e h := { h with events := by rw [h.events]; rfl }
  newIdentity h := ⟨h.nextIdentity, { h with nextIdentity := by rw [h.nextIdentity] }⟩
  lookup h _ := ⟨h.lookup_succ _ _, fun _ _ _ _ => ⟨fun _ _ => trivial, fun _ _ => trivial⟩⟩
  enter outer h := by
    refine ⟨h.size, ?_, ?_, fun i => ?_, h.nextIdentity, h.events⟩
    · simp [Store.newFrame, h.size]
    · rw [Store.newFrame, Array.getElem?_push, h.size, if_neg (Nat.succ_ne_zero _).symm, h.outermost]
    · simp only [Store.newFrame, Array.getElem?_push, h.size, h.inner, Nat.succ_inj]
      split <;> rfl
  define h _ _ := by
    refine ⟨?_, ?_, fun i => ?_, h.nextIdentity, h.events⟩
    · simp [Store.define, h.size]
    · simp [Store.define, Array.getElem?_modify, h.outermost]
    · simp only [Store.define, Array.getElem?_modify, h.inner, inwards_frame, Nat.succ_inj]
      split
      · rw [Option.map_map, Option.map_map]
        rfl
      · rfl

end

/-- The statements of a program as the body of a function that is called at once. -/
def inCall (m₁ m₂ m₃ m₄ : μ) (p : Program μ) : Program μ :=
  [.expr m₁ (.call m₂ (.func m₃ [] (.mk m₄ p)) [])]

/-- What is noted before the body of the function is run. -/
def callEvents (m₄ : μ) (p : Program μ) : List (Event μ) :=
  [.called (.function 0 [] (.mk m₄ p) 0) 0]

/-- The store in which the body of the function is run. -/
def callStore (m₄ : μ) (p : Program μ) : Store μ :=
  ⟨#[⟨none, []⟩, ⟨some 0, []⟩], 1, callEvents m₄ p⟩

theorem inward_callStore [Mark μ] (m₄ : μ) (p : Program μ) :
    Inward (callEvents m₄ p) Session.start.store (callStore m₄ p) where
  size := rfl
  outermost := rfl
  inner i := by
    cases i with
    | zero => rfl
    | succ i => rfl
  nextIdentity := rfl
  events := rfl

/-- In a call, statements are run in the frame that it makes. -/
theorem evaluate_call [Mark μ] (m₁ m₂ m₃ m₄ : μ) :
    evaluate (n + 2) (inCall m₁ m₂ m₃ m₄ p) 0 Session.start.store =
      (evalProgram (n + 1) p 1 (callStore m₄ p)).map fun x => (settle (some (leave x.1)), x.2) := by
  rw [inCall, evaluate_expr]
  change Option.map _ ((evalBody (eval (n + 1)) 1 none p (callStore m₄ p)).bind _) =
    Option.map _ (evalBody (eval (n + 1)) 1 none p (callStore m₄ p))
  cases evalBody (eval (n + 1)) 1 none p (callStore m₄ p) <;> rfl

/-- What a return gives to a call is what it gives to a program. -/
theorem leave_eq (r : Option (Value μ)) : leave r = (settle r).getD .null := by
  cases r with
  | none => rfl
  | some v => cases v <;> rfl

/-- What is data or a fault is not changed at the end of a program. -/
theorem settle_relabel_of_isOutcome [Mark μ] {v : Value μ} (h : v.isOutcome = true)
    (ρ : Relabelling μ μ) :
    settle (some (v.relabel ρ)) = some (v.relabel ρ) := by
  cases v with
  | returned w => cases h
  | _ => rfl

theorem Inward.printed_eq [Mark μ] {m₄ : μ} (h : Inward (callEvents m₄ p) s t) :
    printedText t.events.reverse = printedText s.events.reverse := by
  have hlines : (t.events.reverse).filterMap Event.line? =
      (s.events.reverse).filterMap Event.line? := by
    rw [h.events, List.reverse_append, List.filterMap_append, ← List.map_reverse,
      List.filterMap_map]
    have hline : Event.line? ∘ Event.relabel (inwards : Relabelling μ μ) = Event.line? :=
      funext (Event.line?_relabel inwards)
    rw [hline]
    rfl
  rw [printedText, hlines, printedText]

/-- A program and the call of its statements end for the same counts, but for the call itself. -/
theorem evaluate_call_rel [Mark μ] (m₁ m₂ m₃ m₄ : μ) (n : Nat) (p : Program μ) :
    Option.Rel
      (fun x y => y.1 = some ((x.1.getD .null).relabel inwards) ∧
        Inward (callEvents m₄ p) x.2 y.2)
      (evaluate (n + 1) p 0 Session.start.store)
      (evaluate (n + 2) (inCall m₁ m₂ m₃ m₄ p) 0 Session.start.store) := by
  have hclean : ∀ r s', evalProgram (n + 1) p 0 Session.start.store = some (r, s') → Passes r :=
    fun r s' h => (cleanly_evalBody (sound_eval _) 0 p passes_none
      (Store.clean_empty.newFrame none) h).2
  have htracks : Tracks False _ _ _ _ _ := tracks_evalProgram_self
    (mirrors_inward (callEvents m₄ p)) rfl (.inl (rfl : n + 1 = n + 1)) 0 (p := p)
    fun _ _ => trivial
  rw [evaluate_call]
  change Option.Rel _ ((evalProgram (n + 1) p 0 Session.start.store).bind _) _
  rcases htracks (inward_callStore m₄ p) with ⟨⟨⟩, -⟩ | hrel
  · change Option.Rel _ _ (evalProgram (n + 1) p 1 (callStore m₄ p)) at hrel
    generalize evalProgram (n + 1) p 0 Session.start.store = x at hrel hclean ⊢
    generalize evalProgram (n + 1) p 1 (callStore m₄ p) = y at hrel ⊢
    cases hrel with
    | none => exact .none
    | some hxy =>
        rename_i x y
        obtain ⟨hr, -, hst⟩ := hxy
        refine .some ⟨?_, hst⟩
        change settle (some (leave y.1)) = some (((settle x.1).getD .null).relabel inwards)
        rw [hr, leave_relabel, ← leave_eq]
        exact settle_relabel_of_isOutcome (isOutcome_leave (hclean x.1 x.2 rfl)) inwards

/-! ### Without a value -/

/-- The last of some statements is a binding. -/
def EndsInBinding (ss : List (Stmt μ)) : Prop :=
  ∃ m target e, ss.getLast? = some (.bind m target e)

theorem settle_eq_none_iff : settle r = none ↔ r = none := by
  cases r with
  | none => simp [settle]
  | some v => cases v <;> simp [settle]

/-- Only a binding gives no value. -/
theorem evalStmt_eq_none_iff {ev : Evaluator μ} {st : Stmt μ}
    (h : evalStmt ev frame st s = some (r, t)) (hr : r.any isControl = false) :
    r = none ↔ ∃ m target e, st = .bind m target e := by
  cases st with
  | bind m target e =>
      refine iff_of_true ?_ ⟨m, target, e, rfl⟩
      obtain ⟨v, u, -, hrest⟩ := exists_of_bind h
      split at hrest
      · rename_i hc
        obtain ⟨⟩ := hrest
        rw [Option.any_some, hc] at hr
        cases hr
      · obtain ⟨_, _, -, hpure⟩ := exists_of_bind hrest
        obtain ⟨⟩ := hpure
        rfl
  | ret m value =>
      refine iff_of_false ?_ (by simp)
      cases value with
      | none =>
          obtain ⟨⟩ := h
          simp
      | some e =>
          obtain ⟨v, u, -, hpure⟩ := exists_of_bind h
          obtain ⟨⟩ := hpure
          simp
  | expr m e =>
      refine iff_of_false ?_ (by simp)
      obtain ⟨v, u, -, hpure⟩ := exists_of_bind h
      obtain ⟨⟩ := hpure
      simp

/-- Statements that run through give no value just when the last is a binding. -/
theorem RunsThrough.eq_none_iff {ev : Evaluator μ} {ss : List (Stmt μ)} {last : Option (Value μ)}
    (h : RunsThrough ev frame ss s s') (hrun : evalBody ev frame last ss s = some (r, s')) :
    r = none ↔ (ss = [] ∧ last = none) ∨ EndsInBinding ss := by
  induction h generalizing last with
  | nil s =>
      obtain ⟨⟩ := hrun
      simp [EndsInBinding]
  | @cons st ss _ _ _ r₁ hst hr _ ih =>
      rw [evalBody_cons hst, hr] at hrun
      rw [ih hrun, evalStmt_eq_none_iff hst hr]
      cases ss with
      | nil => simp [EndsInBinding]
      | cons st' ss => simp [EndsInBinding]

/-- A program gives no value just when it is empty, or ends in a binding and runs through. -/
theorem evaluate_eq_none_iff [Mark μ] (h : evaluate n p frame s = some (r, s')) :
    r = none ↔ p = [] ∨ (EndsInBinding p ∧ RunsThrough (eval n) frame p s s') := by
  obtain ⟨r₀, hrun, rfl⟩ := evaluate_eq_some_iff.1 h
  rw [settle_eq_none_iff]
  constructor
  · rintro rfl
    have hthrough : RunsThrough (eval n) frame p s s' := (runsThrough_iff none rfl).2 ⟨_, hrun, rfl⟩
    rcases (hthrough.eq_none_iff hrun).1 rfl with ⟨hp, -⟩ | hlast
    · exact .inl hp
    · exact .inr ⟨hlast, hthrough⟩
  · rintro (rfl | ⟨hlast, hthrough⟩)
    · obtain ⟨⟩ := hrun
      rfl
    · exact (hthrough.eq_none_iff hrun).2 (.inr hlast)

/-! ### All three -/

/-- A program gives at most one result. -/
theorem Gives.unique [Mark μ] {r' : Option (Value μ)} {t' : Store μ} (h : Gives p frame s r s')
    (h' : Gives p frame s r' t') : r = r' ∧ s' = t' := by
  obtain ⟨n, h⟩ := h
  obtain ⟨n', h'⟩ := h'
  have heq := (evaluate_mono h (Nat.le_max_left n n')).symm.trans
    (evaluate_mono h' (Nat.le_max_right n n'))
  exact Prod.mk.inj (Option.some.inj heq)

/-- Where a program ends the call of its statements does, with frames one further in. -/
theorem Gives.inCall [Mark μ] (h : Gives p 0 Session.start.store r s') (m₁ m₂ m₃ m₄ : μ) :
    ∃ t', Gives (inCall m₁ m₂ m₃ m₄ p) 0 Session.start.store
        (some ((r.getD .null).relabel inwards)) t' ∧ Inward (callEvents m₄ p) s' t' := by
  obtain ⟨n, h⟩ := h
  have hrel := evaluate_call_rel m₁ m₂ m₃ m₄ n p
  rw [evaluate_mono h (Nat.le_succ n)] at hrel
  generalize hy : evaluate (n + 2) (Run.inCall m₁ m₂ m₃ m₄ p) 0 Session.start.store = y at hrel
  cases hrel with
  | some hxy =>
      rename_i y
      obtain ⟨hr, hst⟩ := hxy
      exact ⟨y.2, ⟨n + 2, hy.trans (congrArg some (Prod.ext hr rfl))⟩, hst⟩

/-- Where the call ends the program does. -/
theorem exists_gives_of_inCall [Mark μ] {m₁ m₂ m₃ m₄ : μ} {r' : Option (Value μ)} {t' : Store μ}
    (h : Gives (inCall m₁ m₂ m₃ m₄ p) 0 Session.start.store r' t') :
    ∃ r s', Gives p 0 Session.start.store r s' := by
  obtain ⟨n, h⟩ := h
  have hrel := evaluate_call_rel m₁ m₂ m₃ m₄ n p
  rw [evaluate_mono h (Nat.le_add_right n 2)] at hrel
  generalize hx : evaluate (n + 1) p 0 Session.start.store = x at hrel
  cases hrel with
  | @some x _ _ => exact ⟨x.1, x.2, n + 1, hx⟩

/-- **Statements do the same in a program, in a branch and in a call.**  In a branch of the same frame
they leave the same store and give the same result, but for `null` in place of no value.  In a call
made in a fresh session they end just when they do as a program, and then give a result that is shown
in the same way, print the same, and bind in the frame of the call what they would have bound in that
of the session.  As a program they give no value just when there are none, or the last of them is a
binding and neither a fault nor a return stops them. -/
theorem statements_run_alike [Mark μ] (m₁ m₂ m₃ m₄ : μ) (p : Program μ) :
    (∀ frame s r' s', Gives (inBranch m₁ m₂ m₃ m₄ p) frame s r' s' ↔
      ∃ r, Gives p frame s r s' ∧ r' = some (r.getD .null)) ∧
    ((∃ r s', Gives p 0 Session.start.store r s') ↔
      ∃ r' t', Gives (inCall m₁ m₂ m₃ m₄ p) 0 Session.start.store r' t') ∧
    (∀ r s' r' t', Gives p 0 Session.start.store r s' →
      Gives (inCall m₁ m₂ m₃ m₄ p) 0 Session.start.store r' t' →
      r'.map inspect = some (r.getD .null).inspect ∧
        printedText t'.events.reverse = printedText s'.events.reverse ∧
        ∀ name, t'.local? 0 name = none ∧
          t'.local? 1 name = (s'.local? 0 name).map (relabel inwards)) ∧
    ∀ n frame s r s', evaluate n p frame s = some (r, s') →
      (r = none ↔ p = [] ∨ (EndsInBinding p ∧ RunsThrough (eval n) frame p s s')) := by
  refine ⟨fun _ _ _ _ => gives_branch_iff m₁ m₂ m₃ m₄, ⟨?_, ?_⟩, ?_, ?_⟩
  · rintro ⟨r, s', h⟩
    obtain ⟨t', hcall, -⟩ := h.inCall m₁ m₂ m₃ m₄
    exact ⟨_, t', hcall⟩
  · rintro ⟨r', t', h⟩
    exact exists_gives_of_inCall h
  · intro r s' r' t' h hcall
    obtain ⟨t, ht, hst⟩ := h.inCall m₁ m₂ m₃ m₄
    obtain ⟨rfl, rfl⟩ := ht.unique hcall
    refine ⟨?_, hst.printed_eq, fun name => ⟨hst.local?_zero name, hst.local?_succ 0 name⟩⟩
    rw [Option.map_some, inspect_relabel]
  · exact fun _ _ _ _ _ h => evaluate_eq_none_iff h

/-- The program `puts("a"); let f = fn(x) { x };`. -/
def printsAndBinds : Program String :=
  [.expr "" (.call "" (.name ⟨"", "puts"⟩) [.string "" "a"]),
    .bind "let" ⟨"", "f"⟩ (.func "fn" [⟨"", "x"⟩] (.mk "" [.expr "" (.name ⟨"", "x"⟩)]))]

theorem statements_run_alike_binding :
    ∃ s' r' t', evaluate 9 printsAndBinds 0 Session.start.store = some (none, s') ∧
      Gives (inCall "" "" "fn" "" printsAndBinds) 0 Session.start.store r' t' ∧
      r'.map inspect = some "null" ∧
      printedText t'.events.reverse = printedText s'.events.reverse ∧
      (t'.local? 0 "f" = none ∧
        t'.local? 1 "f" = (s'.local? 0 "f").map (relabel inwards)) ∧
      EndsInBinding printsAndBinds ∧
      RunsThrough (eval 9) 0 printsAndBinds Session.start.store s' := by
  have hends : (evaluate 9 printsAndBinds 0 Session.start.store).map (fun x => x.1.isSome) =
      some false := by decide +kernel
  obtain ⟨⟨r, s'⟩, h, hr⟩ := Option.map_eq_some_iff.1 hends
  obtain rfl : r = none := Option.isNone_iff_eq_none.1 (Option.isSome_eq_false_iff.1 hr)
  obtain ⟨-, hends, hcall, hnone⟩ := statements_run_alike "" "" "fn" "" printsAndBinds
  obtain ⟨r', t', ht⟩ := hends.1 ⟨none, s', 9, h⟩
  obtain ⟨hr', hprinted, hbound⟩ := hcall none s' r' t' ⟨9, h⟩ ht
  rcases (hnone 9 0 _ none s' h).1 rfl with hnil | ⟨hlast, hthrough⟩
  · cases hnil
  · exact ⟨s', r', t', h, ht, hr', hprinted, hbound "f", hlast, hthrough⟩

end Run

end Treewalk
