import Treewalk.Proofs.Run.Arrays
import Treewalk.Proofs.Run.Insertion
import Treewalk.Proofs.Run.Made
import Treewalk.Session

/-! # Identity follows the flow of data

A list of what was made goes along with a run (`Store.Records`).

* What a creation makes is new (`IsNew`): it comes last in the list and is equal to nothing that was
  there before.
* Names, bindings, calls, returns, arrays, tables and the functions on arrays hand values on as they
  are (`HandsOn`).

So two functions, arrays or tables of a run are equal just when they come from one creation
(`identity_follows_flow`). -/

namespace Treewalk

variable {μ : Type}

open Value

/-- A value is bound in a store, or is inside a value that is, at any depth. -/
def Store.Holds (s : Store μ) (w : Value μ) : Prop :=
  ∃ frame name v, s.local? frame name = some v ∧ w ∈ v.parts

/-- What is held was made. -/
theorem Store.Records.listed [Mark μ] {s : Store μ} {made : List (Value μ)} (h : s.Records made)
    {w : Value μ} (hw : s.Holds w) : w.Listed made := by
  obtain ⟨frame, name, v, hv, hpart⟩ := hw
  exact h.bound frame name v hv w hpart

/-- An item of an array is what an index gives at its position. -/
theorem Value.index_array_of_getElem? (id : Nat) {vs : List (Value μ)} {k : Nat} {v : Value μ}
    {i : Int64}
    (hv : vs[k]? = some v) (hi : i.toInt = k) : (array id vs).index (.int i) = .ok v := by
  have hnat : i.toInt.toNat = k := by omega
  rw [index, itemAt, if_pos (by omega), hnat, hv]
  rfl

namespace Run

/-- A store that a fresh session comes to by programs, each run in any frame. -/
inductive ReachedByPrograms [Mark μ] : Store μ → Prop
  | start : ReachedByPrograms Session.start.store
  | run {s s' : Store μ} {p : Program μ} {n frame : Nat} {es : List (Event μ)}
      {r : Option (Value μ)} :
      ReachedByPrograms s → evaluate n p frame { s with events := es } = some (r, s') →
      ReachedByPrograms s'

/-- Nothing was made in a fresh session. -/
theorem records_start [Mark μ] : (Session.start : Session μ).store.Records [] where
  length_eq := rfl
  identity i v hv := by cases hv
  inside v hv := by cases hv
  created i v hv := by cases hv
  bound frame name v hv := by
    change (Store.empty.newFrame none).2.local? frame name = some v at hv
    rw [Store.local?_newFrame] at hv
    simp [Store.local?, Store.empty] at hv

/-- In each store that is reached there is a list of all that was made. -/
theorem ReachedByPrograms.records [Mark μ] {s : Store μ} (h : ReachedByPrograms s) :
    ∃ made, s.Records made := by
  induction h with
  | start => exact ⟨[], records_start⟩
  | @run s _ p n frame es _ _ hrun ih =>
      obtain ⟨made, hs⟩ := ih
      have hstart : Store.Records { s with events := es } made := hs.of_eq rfl fun _ _ => rfl
      obtain ⟨made', -, ht, -⟩ := makes_evaluate n p frame hstart hrun
      exact ⟨made', ht⟩

/-! ### New values -/

variable {made : List (Value μ)} {n : Nat} {s t : Store μ} {v : Value μ}

/-- A value that was made as the last thing, after `made`, and is equal to nothing that was made before
it and to nothing that the store held in which it was made. -/
def IsNew [Mark μ] (made : List (Value μ)) (v : Value μ) (t : Store μ) : Prop :=
  ∃ (before : List (Value μ)) (u : Store μ), made <+: before ∧ u.Records before ∧
    t = { u with nextIdentity := u.nextIdentity + 1 } ∧ t.Records (before ++ [v]) ∧
    ∀ w, u.Holds w ∨ w.Listed before →
      BinaryOp.eq.apply v w = .ok (.bool false) ∧ BinaryOp.eq.apply w v = .ok (.bool false)

theorem Creates.isNew [Mark μ] {m : Run μ (Value μ)} {stops : Value μ → Prop}
    (h : Creates made m stops)
    (hs : s.Records made) (hm : m s = some (v, t)) (hv : ¬ stops v) (hcreation : Creation made s v t) :
    IsNew made v t := by
  obtain ⟨before, u, hgrows, hu, rfl, hidentity, hfrom⟩ := (h hs hm).resolve_left fun h => hv h.1
  -- Whatever the store holds is listed already, and none of that has the next identity.
  refine ⟨before, u, hgrows, hu, rfl, hu.concat hidentity hfrom fun _ => ?_, fun w hw => ?_⟩
  · exact ⟨made, s, hgrows, hs.toLists, hcreation⟩
  · have hdiffers := apply_eq_of_fresh hidentity (hw.elim hu.listed id)
    exact ⟨hdiffers, (apply_eq_comm hidentity w).trans hdiffers⟩

/-- What a creation makes is new. -/
theorem Creation.isNew [Mark μ] (h : Creation made s v t) (hs : s.Records made) :
    IsNew made v t := by
  cases id h with
  | func hm => exact (creates_func _ _ _ _).isNew hs hm id h
  | @array n _ _ _ hm hv =>
      exact (creates_array (making_eval n) _ _ _).isNew hs hm (by rw [hv]; nofun) h
  | @table n _ _ _ hm hv =>
      exact (creates_table (making_eval n) _ _ _).isNew hs hm (by rw [hv]; nofun) h
  | builtin hb hargs hm hv =>
      rcases hb with rfl | rfl
      · exact (creates_rest hargs).isNew hs hm (by rw [hv]; nofun) h
      · exact (creates_push hargs).isNew hs hm (by rw [hv]; nofun) h

/-! ### Values that are handed on -/

/-- What the evaluator does with values that it does not make, when it starts in a store.  Everywhere
the value that comes out is the one that was put in. -/
structure HandsOn [Mark μ] (n : Nat) (s : Store μ) : Prop where
  /-- A name gives what it is bound to. -/
  name : ∀ frame (name : Ident μ) v, s.lookup frame name.name = some v →
    eval (n + 1) (.name name) frame s = some (v, s)
  /-- A binding binds its name to what its right-hand side gives. -/
  binding : ∀ frame m (target : Ident μ) e v t, eval n e frame s = some (v, t) →
    v.isControl = false → frame < t.frames.size →
    ∃ u, evalStmt (eval n) frame (.bind m target e) s = some (none, u) ∧
      u.nextIdentity = t.nextIdentity ∧ u.lookup frame target.name = some v
  /-- A call binds each parameter to its argument, to the last one if it comes twice, and gives what the
  body leaves. -/
  call : ∀ frame m c as id params body outer args t u,
    eval n c frame s = some (.function id params body outer, t) →
    GivesAll (eval n) frame as t args u → args.length = params.length →
    ∃ inner w, w.nextIdentity = u.nextIdentity ∧
      (∀ name v, ((params.map Ident.name).zip args).reverse.lookup name = some v →
        w.lookup inner name = some v) ∧
      ∀ r x, evalBody (eval n) inner none body.body w = some (r, x) →
        eval (n + 1) (.call m c as) frame s = some (leave r, x)
  /-- A body ends with the first statement that gives a control value, or else with the last one. -/
  body : ∀ frame ss st rest t r u, RunsThrough (eval n) frame ss s t →
    evalStmt (eval n) frame st t = some (r, u) → r.any Value.isControl = true ∨ rest = [] →
    evalBody (eval n) frame none (ss ++ st :: rest) s = some (r, u)
  /-- A return, and an expression at the end of a body, give their value to the call. -/
  result : ∀ frame m e v t, eval n e frame s = some (v, t) → v.isControl = false →
    evalStmt (eval n) frame (.ret m (some e)) s = some (some (.returned v), t) ∧
      evalStmt (eval n) frame (.expr m e) s = some (some v, t) ∧
      leave (some (.returned v)) = v ∧ leave (some v) = v
  /-- A condition gives what the branch gives that is taken. -/
  branch : ∀ frame m test yes no v t b r u, eval n test frame s = some (v, t) →
    v.isControl = false → (if v.isTruthy then some yes else no) = some b →
    evalBody (eval n) frame none b.body t = some (r, u) →
    eval (n + 1) (.cond m test yes no) frame s = some (r.getD .null, u)
  /-- An array has the values of its items under their positions. -/
  items : ∀ frame m es vs t, GivesAll (eval n) frame es s vs t →
    ∃ a u, eval (n + 1) (.array m es) frame s = some (a, u) ∧
      ∀ (k : Nat) (i : Int64) v, vs[k]? = some v → i.toInt = k → a.index (.int i) = .ok v
  /-- A table has under each key the value of the last entry with this key. -/
  entries : ∀ frame m es entries t, GivesEntries (eval n) frame es s entries t →
    ∃ a u, eval (n + 1) (.table m es) frame s = some (a, u) ∧
      ∀ (key : Value μ) k e, key.key? = some k → lastUnder k entries = some e →
        a.index key = .ok e.2
  /-- An index gives what its target has there. -/
  index : ∀ frame m e k target key v t u, eval n e frame s = some (target, t) →
    target.isControl = false → eval n k frame t = some (key, u) → key.isControl = false →
    target.index key = .ok v → eval (n + 1) (.index m e k) frame s = some (v, u)
  /-- A call of a function of the language itself gives what the function gives. -/
  builtin : ∀ frame m c as i b args t u, eval n c frame s = some (.builtin i b, t) →
    GivesAll (eval n) frame as t args u →
    eval (n + 1) (.call m c as) frame s =
      b.run args { u with events := .calledBuiltin b :: u.events }
  first : ∀ id v vs, Builtin.first.run [.array id (v :: vs)] s = some (v, s)
  last : ∀ id v vs, Builtin.last.run [.array id (vs ++ [v])] s = some (v, s)
  /-- The rest of an array has the other items, one position earlier. -/
  rest : ∀ id w vs, ∃ a t, Builtin.rest.run [.array id (w :: vs)] s = some (a, t) ∧
    ∀ (k : Nat) (i : Int64) v, vs[k]? = some v → i.toInt = k → a.index (.int i) = .ok v
  /-- An array with one more item has all items under their positions, and then the new one. -/
  push : ∀ id vs w, ∃ a t, Builtin.push.run [.array id vs, w] s = some (a, t) ∧
    ∀ (k : Nat) (i : Int64) v, (vs ++ [w])[k]? = some v → i.toInt = k → a.index (.int i) = .ok v

theorem handsOn [Mark μ] (n : Nat) (s : Store μ) : HandsOn n s where
  name frame name v h := eval_name_of_lookup n h
  binding frame m target e v t he hv hframe := evalStmt_bind_of_eq he hv hframe
  call frame m c as id params body outer args t u hc has hlength := by
    obtain ⟨inner, w, hnext, hbound, hleave⟩ := apply_function (eval n) id body outer u hlength
    refine ⟨inner, w, hnext, hbound, fun r x hbody => ?_⟩
    rw [eval_call_of_eq hc rfl has, hleave r x hbody]
  body frame ss st rest t r u h hst hend := evalBody_of_runsThrough h hst hend
  result frame m e v t he hv := by
    refine ⟨evalStmt_ret_of_eq he hv, evalStmt_expr_of_eq he, rfl, ?_⟩
    cases v with
    | returned w => cases hv
    | _ => rfl
  branch frame m test yes no v t b r u htest hv hb hrun := eval_cond_of_eq htest hv hb hrun
  items frame m es vs t hes :=
    ⟨.array t.nextIdentity vs, _, bind_of_eq (evalAll_of_gives hes),
      fun k i v hv hi => index_array_of_getElem? _ hv hi⟩
  entries frame m es entries t hes := by
    refine ⟨_, _, eval_table_of_gives m hes, fun key k e hk he => ?_⟩
    rw [index_table_eq _ hk, he]
    rfl
  index frame m e k target key v t u he ht hk hkey hv := eval_index_of_eq he ht hk hkey hv
  builtin frame m c as i b args t u hc has := eval_call_of_eq hc rfl has
  first id v vs := rfl
  last id v vs := by
    change some ((vs ++ [v]).getLast?.getD .null, s) = _
    rw [List.getLast?_concat]
    rfl
  rest id w vs := ⟨_, _, Builtin.run_rest_cons id vs s w, fun k i v hv hi =>
    index_array_of_getElem? _ hv hi⟩
  push id vs w := ⟨_, _, Builtin.run_push_array id vs s w, fun k i v hv hi =>
    index_array_of_getElem? _ hv hi⟩

/-- **Identity follows the flow of data.**  In every store that a fresh session comes to there is a list
of all that was made, each thing with its place in the list as its identity.  Every part of the
evaluator goes on with this list, and gives nothing that is not in it.

* What a literal of a function, an array or a table makes, and the array that `rest` or `push` makes, is
  new: it is equal to nothing that was made before, be it bound, inside another value or neither.
* Everything else hands values on as they are, and a function, an array or a table is equal to itself.
* So two functions, arrays or tables of the run are equal just when both come from the creation that
  filled one and the same place of the list. -/
theorem identity_follows_flow [Mark μ] (n : Nat) :
    (∀ s : Store μ, ReachedByPrograms s → ∃ made, s.Records made) ∧
    (∀ made : List (Value μ),
      (∀ p frame, Makes made (evaluate n p frame) FromIfAny) ∧
      (∀ callee args, FromAll args made → Makes made (apply (eval n) callee args) Yields) ∧
      (∀ e frame, Makes made (eval n e frame) Yields) ∧
      (∀ st frame, Makes made (evalStmt (eval n) frame st) FromIfAny) ∧
      (∀ ss frame, Makes made (evalBody (eval n) frame none ss) FromIfAny) ∧
      (∀ es frame, Makes made (evalAll (eval n) frame es) (FromEither FromAll)) ∧
      ∀ es frame, Makes made (evalEntries (eval n) frame [] es) (FromEither FromEntries)) ∧
    (∀ (made : List (Value μ)) (s t : Store μ) (v : Value μ), s.Records made → Creation made s v t →
      IsNew made v t) ∧
    (∀ s : Store μ, HandsOn n s) ∧
    (∀ v : Value μ, v.isComposite = true → BinaryOp.eq.apply v v = .ok (.bool true)) ∧
    ∀ (s : Store μ) (made : List (Value μ)) (v w : Value μ), s.Records made →
      v.isComposite = true → w.isComposite = true →
      (s.Holds v ∨ v.From made) → (s.Holds w ∨ w.From made) →
      (BinaryOp.eq.apply v w = .ok (.bool true) ↔
        ∃ j, ComesFrom made j v ∧ ComesFrom made j w) := by
  have hev : Making (eval n : Evaluator μ) := making_eval n
  refine ⟨fun s hs => hs.records, fun made => ⟨?_, ?_, ?_, ?_, ?_, ?_, ?_⟩,
    fun made s t v hs h => h.isNew hs, handsOn n, fun v hv => ?_, ?_⟩
  · exact fun p frame => makes_evaluate n p frame
  · exact fun callee args hargs => makes_apply hev hargs
  · exact fun e frame => hev made e frame
  · exact fun st frame => makes_evalStmt hev frame st
  · exact fun ss frame => makes_evalBody hev frame ss fromIfAny_none
  · exact fun es frame => makes_evalAll hev frame es
  · exact fun es frame => makes_evalEntries hev frame es (by simp [FromEntries])
  · obtain ⟨i, hi⟩ := identity?_of_isComposite hv
    exact apply_eq_self hi
  · intro s made v w hs hv hw hfrom hfrom'
    obtain ⟨i, hi⟩ := identity?_of_isComposite hv
    rw [apply_eq_iff_of_listed hi (hfrom.elim hs.listed From.listed)
      (hfrom'.elim hs.listed From.listed)]
    constructor
    · rintro ⟨j, hj, hj'⟩
      exact ⟨j, hs.created j v hj hv, hs.created j w hj' hw⟩
    · rintro ⟨j, hj, hj'⟩
      exact ⟨j, hj.1, hj'.1⟩

/-- The program `let x = []; let f = fn(v) { v };`. -/
def bindsPassing : Program String :=
  [.bind "let" ⟨"", "x"⟩ (.array "" []),
    .bind "let" ⟨"", "f"⟩ (.func "fn" [⟨"", "v"⟩] (.mk "" [.expr "" (.name ⟨"", "v"⟩)]))]

/-- The function that `bindsPassing` makes. -/
def passing : Value String :=
  .function 1 [⟨"", "v"⟩] (.mk "" [.expr "" (.name ⟨"", "v"⟩)]) 0

/-- The store that `bindsPassing` leaves. -/
def afterPassing : Store String :=
  ⟨#[⟨none, [("f", passing), ("x", .array 0 [])]⟩], 2,
    [.bound 0 "f" passing, .bound 0 "x" (.array 0 [])]⟩

/-- The program `let r = rest(push([[], [f(x)]], x)); let q = r[0][0];`. -/
def passesOn : Program String :=
  [.bind "let" ⟨"", "r"⟩ (.call "" (.name ⟨"", "rest"⟩) [.call "" (.name ⟨"", "push"⟩)
      [.array "" [.array "" [], .array "" [.call "" (.name ⟨"", "f"⟩) [.name ⟨"", "x"⟩]]],
        .name ⟨"", "x"⟩]]),
    .bind "let" ⟨"", "q"⟩ (.index "" (.index "" (.name ⟨"", "r"⟩) (.int "" 0)) (.int "" 0))]

/-- The call `f(x)` gives the array that `x` is bound to. -/
theorem eval_call_passing :
    ∃ w, eval 9 (.call "" (.name ⟨"", "f"⟩) [.name ⟨"", "x"⟩]) 0 afterPassing =
    some (.array 0 [], w) := by
  have hf : eval 8 (.name ⟨"", "f"⟩) 0 afterPassing = some (passing, afterPassing) :=
    eval_name_of_lookup 7 (Store.lookup_of_local? rfl)
  have hx : eval 8 (.name ⟨"", "x"⟩) 0 afterPassing = some (.array 0 [], afterPassing) :=
    eval_name_of_lookup 7 (Store.lookup_of_local? rfl)
  obtain ⟨inner, w, -, hbound, hleave⟩ := (handsOn 8 afterPassing).call 0 "" _ _ 1 _ _ 0 _ _ _ hf
    (.cons hx rfl (.nil _)) rfl
  have hv : eval 8 (.name ⟨"", "v"⟩) inner w = some (.array 0 [], w) :=
    eval_name_of_lookup 7 (hbound "v" _ rfl)
  have hlast := ((handsOn 8 w).result inner "" _ _ _ hv rfl).2.1
  exact ⟨w, hleave _ w ((handsOn 8 w).body inner [] _ [] w _ w (.nil w) hlast (.inr rfl))⟩

/-- What `passesOn` binds, with the identities, and one more rest of what it binds `r` to. -/
theorem passesOn_leaves : ∃ s x q r b t,
    evaluate 9 passesOn 0 afterPassing = some (none, s) ∧
    (s.local? 0 "x" = some x ∧ x.isComposite = true ∧ x.identity? = some 0) ∧
    (s.local? 0 "q" = some q ∧ q.isComposite = true ∧ q.identity? = some 0) ∧
    (s.local? 0 "r" = some r ∧ r.isComposite = true ∧ r.identity? = some 8) ∧
    Builtin.rest.run [r] s = some (b, t) ∧ b.isComposite = true := by
  obtain ⟨⟨v, s⟩, hrun⟩ : ∃ r, evaluate 9 passesOn 0 afterPassing = some r :=
    Option.isSome_iff_exists.1 (by decide +kernel)
  have hresult : (evaluate 9 passesOn 0 afterPassing).map (fun r => r.1.isSome) = some false := by
    decide +kernel
  have hnumbers : (evaluate 9 passesOn 0 afterPassing).map (fun r =>
      ["x", "q", "r"].map fun name => (r.2.local? 0 name).bind identity?) =
        some [some 0, some 0, some 8] := by
    decide +kernel
  have hkinds : (evaluate 9 passesOn 0 afterPassing).map (fun r =>
      ["x", "q", "r"].map fun name => (r.2.local? 0 name).map isComposite) =
        some [some true, some true, some true] := by
    decide +kernel
  have hrest : ((evaluate 9 passesOn 0 afterPassing).bind fun r => (r.2.local? 0 "r").bind fun v =>
      Builtin.rest.run [v] r.2).map (fun b => b.1.isComposite) = some true := by
    decide +kernel
  rw [hrun] at hresult hnumbers hkinds hrest
  obtain rfl : v = none := by simpa using hresult
  obtain ⟨hx, hq, hr⟩ : (s.local? 0 "x").bind identity? = some 0 ∧
      (s.local? 0 "q").bind identity? = some 0 ∧ (s.local? 0 "r").bind identity? = some 8 := by
    simpa using hnumbers
  obtain ⟨x, hxbound, hx⟩ := Option.bind_eq_some_iff.1 hx
  obtain ⟨q, hqbound, hq⟩ := Option.bind_eq_some_iff.1 hq
  obtain ⟨r, hrbound, hr⟩ := Option.bind_eq_some_iff.1 hr
  obtain ⟨hxkind, hqkind, hrkind⟩ : x.isComposite = true ∧ q.isComposite = true ∧
      r.isComposite = true := by
    simpa [hxbound, hqbound, hrbound] using hkinds
  obtain ⟨⟨b, t⟩, hmakes, hb⟩ : ∃ b, Builtin.rest.run [r] s = some b ∧ b.1.isComposite = true := by
    simpa [hrbound] using hrest
  exact ⟨s, x, q, r, b, t, hrun, ⟨hxbound, hxkind, hx⟩, ⟨hqbound, hqkind, hq⟩,
    ⟨hrbound, hrkind, hr⟩, hmakes, hb⟩

/-- An array that goes through a call, two literals, `push`, `rest` and two indices stays the one that
was made first.  What `rest` made is another one, and a further `rest` makes one more. -/
theorem identity_follows_flow_passed :
    ∃ made s x q r w b t,
      evaluate 9 bindsPassing 0 Session.start.store = some (none, afterPassing) ∧
      eval 9 (.call "" (.name ⟨"", "f"⟩) [.name ⟨"", "x"⟩]) 0 afterPassing = some (.array 0 [], w) ∧
      evaluate 9 passesOn 0 afterPassing = some (none, s) ∧ s.Records made ∧
      s.local? 0 "x" = some x ∧ s.local? 0 "q" = some q ∧ s.local? 0 "r" = some r ∧
      BinaryOp.eq.apply x q = .ok (.bool true) ∧ (∃ j, ComesFrom made j x ∧ ComesFrom made j q) ∧
      BinaryOp.eq.apply x r = .ok (.bool false) ∧
      (¬ ∃ j, ComesFrom made j x ∧ ComesFrom made j r) ∧
      Builtin.rest.run [r] s = some (b, t) ∧ IsNew made b t ∧
      BinaryOp.eq.apply b r = .ok (.bool false) := by
  obtain ⟨hrecords, -, hnew, -, -, hpairs⟩ := @identity_follows_flow String _ 8
  have hbinds : evaluate 9 bindsPassing 0 Session.start.store = some (none, afterPassing) := rfl
  obtain ⟨w, hcall⟩ := eval_call_passing
  obtain ⟨s, x, q, r, b, t, hrun, ⟨hx, hxkind, hxid⟩, ⟨hq, hqkind, hqid⟩, ⟨hr, hrkind, hrid⟩,
    hmakes, hb⟩ := passesOn_leaves
  obtain ⟨made, hs⟩ := hrecords s (.run (.run .start hbinds) hrun)
  have hheld : ∀ name v, s.local? 0 name = some v → s.Holds v ∨ v.From made := fun name v hv =>
    .inl ⟨0, name, v, hv, mem_parts_self v⟩
  have hsame : BinaryOp.eq.apply x q = .ok (.bool true) := by
    rw [apply_eq_of_identity? hxid, hqid]
    rfl
  have hdiffers : BinaryOp.eq.apply x r = .ok (.bool false) := by
    rw [apply_eq_of_identity? hxid, hrid]
    rfl
  have hboth := (hpairs s made x q hs hxkind hqkind (hheld "x" x hx) (hheld "q" q hq)).1 hsame
  have hapart : ¬ ∃ j, ComesFrom made j x ∧ ComesFrom made j r := by
    rw [← hpairs s made x r hs hxkind hrkind (hheld "x" x hx) (hheld "r" r hr), hdiffers]
    simp
  have hfrom := hs.bound 0 "r" r hr
  have hisNew := hnew made s t b hs
    (.builtin (.inl rfl) (List.forall_mem_singleton.2 hfrom) hmakes hb)
  have hother : BinaryOp.eq.apply b r = .ok (.bool false) := by
    obtain ⟨_, _, hgrows, -, -, -, hothers⟩ := hisNew
    exact (hothers r (.inr (hfrom.listed.mono hgrows))).1
  exact ⟨made, s, x, q, r, w, b, t, hbinds, hcall, hrun, hs, hx, hq, hr, hsame, hboth, hdiffers,
    hapart, hmakes, hisNew, hother⟩

end Run

end Treewalk
