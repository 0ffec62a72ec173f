import Treewalk.Proofs.Run.Path
import Treewalk.Proofs.Run.Through

/-! # Running forwards

What a step gives, put together from what its parts give.

* After a step that ends comes the next, with its result in its store (`bind_of_eq`).
* A name gives what it is bound to, or else the function of the language itself with that name
  (`eval_name_of_lookup`, `eval_name_of_builtin`).
* Calls, indices and operators give what the function, the index and the operator give for the values
  of their parts, and parts are run from left to right (`GivesAll`).
* After a binding the name has the value that was bound, and in a call the parameters have the arguments
  (`evalStmt_bind_of_eq`, `apply_function`).  Neither gives out an identity. -/

namespace Treewalk

variable {μ : Type}

namespace Run

variable {α β : Type} {n frame : Nat} {s t u : Store μ} {ev : Evaluator μ}

theorem bind_of_eq {m : Run μ α} {f : α → Run μ β} {a : α} (h : m s = some (a, t)) :
    (m >>= f) s = f a t := by
  change (m s).bind _ = _
  rw [h]
  rfl

/-! ### Names -/

theorem eval_name_of_lookup [Mark μ] (n : Nat) {name : Ident μ} {v : Value μ}
    (h : s.lookup frame name.name = some v) : eval (n + 1) (.name name) frame s = some (v, s) := by
  have hlookup : lookup frame name.name s = some (some v, s) := by rw [lookup, h]
  exact bind_of_eq hlookup

theorem eval_name_of_builtin [Mark μ] (n : Nat) {name : Ident μ} {b : Builtin}
    (h : s.lookup frame name.name = none) (hb : Builtin.ofName? name.name = some b) :
    eval (n + 1) (.name name) frame s =
      some (.builtin s.nextIdentity b, { s with nextIdentity := s.nextIdentity + 1 }) := by
  have hlookup : lookup frame name.name s = some (none, s) := by rw [lookup, h]
  refine (bind_of_eq hlookup).trans ?_
  simp only [hb]
  rfl

/-! ### Parts from left to right -/

/-- Expressions run from left to right, and none of them gives a control value. -/
inductive GivesAll (ev : Evaluator μ) (frame : Nat) :
    List (Expr μ) → Store μ → List (Value μ) → Store μ → Prop
  | nil (s : Store μ) : GivesAll ev frame [] s [] s
  | cons {e : Expr μ} {es : List (Expr μ)} {s t u : Store μ} {v : Value μ} {vs : List (Value μ)}
      (he : ev e frame s = some (v, t)) (hv : v.isControl = false)
      (hes : GivesAll ev frame es t vs u) : GivesAll ev frame (e :: es) s (v :: vs) u

theorem evalAll_of_gives {es : List (Expr μ)} {vs : List (Value μ)}
    (h : GivesAll ev frame es s vs t) : evalAll ev frame es s = some (.ok vs, t) := by
  induction h with
  | nil => rfl
  | cons he hv _ ih =>
      refine (bind_of_eq he).trans ?_
      rw [hv]
      exact bind_of_eq ih

/-- Names give their values. -/
theorem givesAll_names [Mark μ] (n : Nat) {names : List (Ident μ)} {vs : List (Value μ)}
    (h : names.map (fun name => s.lookup frame name.name) = vs.map some)
    (hvs : ∀ v ∈ vs, v.isControl = false) :
    GivesAll (eval (n + 1)) frame (names.map Expr.name) s vs s := by
  induction names generalizing vs with
  | nil =>
      obtain rfl := List.map_eq_nil_iff.1 h.symm
      exact .nil s
  | cons name names ih =>
      cases vs with
      | nil => cases h
      | cons v vs =>
          obtain ⟨hv, hrest⟩ := List.cons.inj h
          rw [List.forall_mem_cons] at hvs
          exact .cons (eval_name_of_lookup n hv) hvs.1 (ih hrest hvs.2)

/-- A call whose parts give a value to call and arguments. -/
theorem eval_call_of_eq [Mark μ] {m : μ} {c : Expr μ} {as : List (Expr μ)} {callee : Value μ}
    {args : List (Value μ)} (hc : eval n c frame s = some (callee, t))
    (hcallee : callee.isControl = false) (has : GivesAll (eval n) frame as t args u) :
    eval (n + 1) (.call m c as) frame s = apply (eval n) callee args u :=
  (onValue_of_not_isControl hc hcallee).trans (bind_of_eq (evalAll_of_gives has))

theorem eval_index_of_eq [Mark μ] {m : μ} {e k : Expr μ} {target key v : Value μ}
    (he : eval n e frame s = some (target, t)) (htarget : target.isControl = false)
    (hk : eval n k frame t = some (key, u)) (hkey : key.isControl = false)
    (hv : target.index key = .ok v) : eval (n + 1) (.index m e k) frame s = some (v, u) := by
  refine (onValue_of_not_isControl he htarget).trans ?_
  rw [onValue_of_not_isControl hk hkey, hv]
  rfl

theorem eval_binary_of_eq [Mark μ] {m : μ} {op : BinaryOp} {l r : Expr μ} {a b v : Value μ}
    (hl : eval n l frame s = some (a, t)) (ha : a.isControl = false)
    (hr : eval n r frame t = some (b, u)) (hb : b.isControl = false)
    (hv : op.apply a b = .ok v) : eval (n + 1) (.binary m l op r) frame s = some (v, u) := by
  refine (onValue_of_not_isControl hl ha).trans ?_
  rw [onValue_of_not_isControl hr hb, hv]
  rfl

/-- A condition gives what the branch gives that is taken. -/
theorem eval_cond_of_eq [Mark μ] {m : μ} {test : Expr μ} {yes : Block μ}
    {no : Option (Block μ)} {v : Value μ} {b : Block μ} {r : Option (Value μ)}
    (htest : eval n test frame s = some (v, t)) (hv : v.isControl = false)
    (hb : (if v.isTruthy then some yes else no) = some b)
    (hrun : evalBody (eval n) frame none b.body t = some (r, u)) :
    eval (n + 1) (.cond m test yes no) frame s = some (r.getD .null, u) := by
  refine (onValue_of_not_isControl htest hv).trans ?_
  cases htruthy : v.isTruthy with
  | true =>
      rw [htruthy] at hb
      obtain rfl := Option.some.inj hb
      exact bind_of_eq hrun
  | false =>
      rw [htruthy] at hb
      obtain rfl : no = some b := hb
      exact bind_of_eq hrun

/-! ### Bindings -/

theorem define_eq (frame : Nat) (name : String) (v : Value μ) (s : Store μ) :
    ∃ t, define frame name v s = some ((), t) ∧ t.nextIdentity = s.nextIdentity ∧
      t.frames.size = s.frames.size ∧ (frame < s.frames.size → ∀ name', t.local? frame name' =
        if name' = name then some v else s.local? frame name') := by
  refine ⟨_, rfl, rfl, Store.size_define frame name v, fun hframe name' => ?_⟩
  refine (Store.local?_define_eq hframe name v frame name').trans ?_
  simp only [true_and]

/-- Of several bindings of one name in a frame the last one counts. -/
theorem defineAll_eq (frame : Nat) (bs : List (String × Value μ)) (s : Store μ) :
    ∃ t, defineAll frame bs s = some ((), t) ∧ t.nextIdentity = s.nextIdentity ∧
      (frame < s.frames.size → ∀ name,
        t.local? frame name = (bs.reverse.lookup name).or (s.local? frame name)) := by
  induction bs generalizing s with
  | nil => exact ⟨s, rfl, rfl, fun _ _ => rfl⟩
  | cons b bs ih =>
      obtain ⟨t, hdefine, hnext, hsize, hlocal⟩ := define_eq frame b.1 b.2 s
      obtain ⟨u, hrest, hnext', hall⟩ := ih t
      refine ⟨u, (bind_of_eq hdefine).trans hrest, hnext'.trans hnext, fun hframe name => ?_⟩
      rw [hall (by rwa [hsize]), hlocal hframe, List.reverse_cons, List.lookup_append,
        Option.or_assoc, List.lookup_cons, List.lookup_nil]
      by_cases hname : name = b.1
      · rw [if_pos hname, hname, beq_self_eq_true]
        rfl
      · rw [if_neg hname, beq_eq_false_iff_ne.2 hname]
        rfl

/-! ### Statements -/

theorem evalStmt_bind_of_eq {m : μ} {target : Ident μ} {e : Expr μ} {v : Value μ}
    (he : ev e frame s = some (v, t)) (hv : v.isControl = false) (hframe : frame < t.frames.size) :
    ∃ u, evalStmt ev frame (.bind m target e) s = some (none, u) ∧
      u.nextIdentity = t.nextIdentity ∧ u.lookup frame target.name = some v := by
  obtain ⟨u, hdefine, hnext, -, hlocal⟩ := define_eq frame target.name v t
  refine ⟨u, ?_, hnext, Store.lookup_of_local? ?_⟩
  · refine (bind_of_eq he).trans ?_
    rw [hv]
    exact bind_of_eq hdefine
  · rw [hlocal hframe, if_pos rfl]

theorem evalStmt_ret_of_eq {m : μ} {e : Expr μ} {v : Value μ}
    (he : ev e frame s = some (v, t)) (hv : v.isControl = false) :
    evalStmt ev frame (.ret m (some e)) s = some (some (.returned v), t) := by
  refine (bind_of_eq he).trans ?_
  rw [hv]
  rfl

theorem evalStmt_expr_of_eq {m : μ} {e : Expr μ} {v : Value μ}
    (he : ev e frame s = some (v, t)) : evalStmt ev frame (.expr m e) s = some (some v, t) :=
  bind_of_eq he

/-- After statements that run through, a body ends with the first one that gives a control value, and
with the last one if none does. -/
theorem evalBody_of_runsThrough {ss rest : List (Stmt μ)} {st : Stmt μ} {r : Option (Value μ)}
    (h : RunsThrough ev frame ss s t) (hst : evalStmt ev frame st t = some (r, u))
    (hend : r.any Value.isControl = true ∨ rest = []) :
    evalBody ev frame none (ss ++ st :: rest) s = some (r, u) := by
  rw [evalBody_append h (List.cons_ne_nil st rest), evalBody_cons hst]
  split
  · rfl
  · rename_i hc
    obtain rfl := hend.resolve_left hc
    rfl

/-! ### Calls -/

/-- A call of a function with as many arguments as it has parameters runs its body in a frame that
binds each parameter to its argument, and to the last one if it comes twice. -/
theorem apply_function [Mark μ] (ev : Evaluator μ) {params : List (Ident μ)} {args : List (Value μ)}
    (id : Nat) (body : Block μ) (outer : Nat) (s : Store μ)
    (hlength : args.length = params.length) :
    ∃ inner t, t.nextIdentity = s.nextIdentity ∧
      (∀ name v, ((params.map Ident.name).zip args).reverse.lookup name = some v →
        t.lookup inner name = some v) ∧
      ∀ r u, evalBody ev inner none body.body t = some (r, u) →
        apply ev (.function id params body outer) args s = some (leave r, u) := by
  have henter : enter outer { s with
      events := .called (.function id params body outer) args.length :: s.events } =
      some (s.frames.size, _) := rfl
  obtain ⟨t, hdefine, hnext, hlocal⟩ := defineAll_eq s.frames.size
    ((params.map Ident.name).zip args) (Store.newFrame { s with
      events := .called (.function id params body outer) args.length :: s.events } (some outer)).2
  refine ⟨s.frames.size, t, hnext, fun name v hv => ?_, fun r u hbody => ?_⟩
  · refine Store.lookup_of_local? ?_
    rw [hlocal (by simp [Store.newFrame]), hv, Option.some_or]
  · rw [apply, if_pos hlength]
    refine (bind_of_eq rfl).trans ((bind_of_eq henter).trans ((bind_of_eq hdefine).trans ?_))
    exact bind_of_eq hbody

end Run

end Treewalk
