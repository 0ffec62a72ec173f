import Treewalk.Proofs.Run.Forward
import Treewalk.Proofs.Run.Path

/-! # Arrays and the functions on them

The functions on arrays fit together with `a[i]` (`arrays_agree_with_indexing`).

* Inside an array an index gives the item at its position, and outside it `null` (`itemAt_eq`).  So
  the items after another, and those before one that comes last, keep or shift their positions.
* `pushAll` pushes values one after the other.  Pushed onto the array of the first item, the items of
  the rest make up the whole again (`pushAll_array`).
* A call of a function of the language itself, and an index, whose parts are names, give what the
  function and the index give for the values of the names. -/

namespace Treewalk

variable {μ : Type}

namespace Value

variable {items : List (Value μ)} {i j : Int64}

theorem itemAt_eq (items : List (Value μ)) (i : Int64) :
    itemAt items i =
      if h : 0 ≤ i.toInt ∧ i.toInt < items.length then items[i.toInt.toNat] else .null := by
  unfold itemAt
  by_cases hpos : 0 ≤ i.toInt
  · by_cases hlt : i.toInt < items.length
    · rw [if_pos hpos, dif_pos ⟨hpos, hlt⟩, List.getElem?_eq_getElem]
      rfl
    · rw [if_pos hpos, dif_neg fun h => hlt h.2, List.getElem?_eq_none (by omega)]
      rfl
  · rw [if_neg hpos, dif_neg fun h => hpos h.1]

/-- The items before one that comes last keep their positions. -/
theorem itemAt_append_of_lt (v : Value μ) (h : i.toInt < items.length) :
    itemAt (items ++ [v]) i = itemAt items i := by
  unfold itemAt
  by_cases hpos : 0 ≤ i.toInt
  · rw [if_pos hpos, if_pos hpos, List.getElem?_append_left (by omega)]
  · rw [if_neg hpos, if_neg hpos]

theorem itemAt_append_of_eq (v : Value μ) (h : i.toInt = items.length) :
    itemAt (items ++ [v]) i = v := by
  have hnat : i.toInt.toNat = items.length := by omega
  rw [itemAt, if_pos (by omega), hnat, List.getElem?_concat_length]
  rfl

/-- An item after the first one stands one position further. -/
theorem itemAt_cons_of_eq (v : Value μ) (hi : 0 ≤ i.toInt) (hj : j.toInt = i.toInt + 1) :
    itemAt (v :: items) j = itemAt items i := by
  have hnat : j.toInt.toNat = i.toInt.toNat + 1 := by omega
  rw [itemAt, itemAt, if_pos hi, if_pos (by omega), hnat, List.getElem?_cons_succ]

theorem itemAt_getLast (h : items ≠ []) (hi : i.toInt = items.length - 1) :
    itemAt items i = items.getLast h := by
  have hlength : 0 < items.length := List.length_pos_iff.2 h
  have hnat : i.toInt.toNat = items.length - 1 := by omega
  rw [itemAt, if_pos (by omega), hnat, ← List.getLast?_eq_getElem?, List.getLast?_eq_some_getLast h]
  rfl

end Value

namespace Builtin

open Run

theorem ofName?_name (b : Builtin) : ofName? b.name = some b := by
  cases b <;> decide

/-- Pushes values onto an array, one after the other. -/
def pushAll [Mark μ] (a : Value μ) : List (Value μ) → Run μ (Value μ)
  | [] => return a
  | v :: vs => do
    let b ← push.run [a, v]
    pushAll b vs

variable [Mark μ] (id : Nat) (items : List (Value μ)) (s : Store μ)

theorem run_len_array :
    len.run [.array id items] s = some (.int (Int64.ofNat items.length), s) :=
  rfl

theorem run_push_array (v : Value μ) : push.run [.array id items, v] s =
    some (.array s.nextIdentity (items ++ [v]), { s with nextIdentity := s.nextIdentity + 1 }) :=
  rfl

theorem run_rest_cons (v : Value μ) : rest.run [.array id (v :: items)] s =
    some (.array s.nextIdentity items, { s with nextIdentity := s.nextIdentity + 1 }) :=
  rfl

/-- All that is pushed onto an array comes last in it, in order. -/
theorem pushAll_array (vs : List (Value μ)) :
    ∃ id' t, pushAll (.array id items) vs s = some (.array id' (items ++ vs), t) := by
  induction vs generalizing id items s with
  | nil =>
      rw [List.append_nil]
      exact ⟨id, s, rfl⟩
  | cons v vs ih =>
      obtain ⟨id', t, h⟩ :=
        ih s.nextIdentity (items ++ [v]) { s with nextIdentity := s.nextIdentity + 1 }
      rw [List.append_assoc, List.singleton_append] at h
      exact ⟨id', t, (bind_of_eq (run_push_array id items s v)).trans h⟩

end Builtin

namespace Run

variable {frame : Nat} {s : Store μ}

/-- A call of a function of the language itself on names gives what the function gives for their
values. -/
theorem eval_call_names [Mark μ] (n : Nat) (m m' : μ) {b : Builtin} {names : List (Ident μ)}
    {args : List (Value μ)} (hb : s.lookup frame b.name = none)
    (h : names.map (fun name => s.lookup frame name.name) = args.map some)
    (hargs : ∀ v ∈ args, v.isControl = false) :
    eval (n + 2) (.call m (.name ⟨m', b.name⟩) (names.map Expr.name)) frame s =
      b.run args { s with
        nextIdentity := s.nextIdentity + 1, events := .calledBuiltin b :: s.events } := by
  have hcallee : eval (n + 1) (.name ⟨m', b.name⟩) frame s =
      some (.builtin s.nextIdentity b, { s with nextIdentity := s.nextIdentity + 1 }) :=
    eval_name_of_builtin n hb b.ofName?_name
  refine eval_call_of_eq hcallee rfl (givesAll_names n ?_ hargs)
  rw [← h]
  exact List.map_congr_left fun name _ => Store.lookup_of_frames_eq rfl

/-- A name that a program does not bind keeps its value. -/
theorem lookup_of_evaluate [Mark μ] {n frame' : Nat} {p : Program μ} {r : Option (Value μ)}
    {t : Store μ} {name : String} {v : Value μ} (h : evaluate n p frame s = some (r, t))
    (hname : name ∉ Stmt.allTargets p) (hv : s.lookup frame' name = some v) :
    t.lookup frame' name = some v := by
  have hframe : frame' < s.frames.size := Nat.lt_of_not_le fun hle => by
    rw [Store.lookup_of_size_le hle] at hv
    cases hv
  rw [(within_evaluate n p frame h).lookup_eq hframe fun _ hnames => hname hnames.2, hv]

/-- **The functions on arrays agree with indexing.**  Let `a` be an array of any items.

* An index inside it gives the item at its position, and any other integer gives `null`.
* `push(a, x)` is one item longer.  It has at the index of each item of `a` that item, and at the next
  index `x`.
* If `a` has items, `rest(a)` is one item shorter and has at each index what `a` has at the next one;
  `first(a)` and `last(a)` are what `a` has at its first and its last index; and if the items of
  `rest(a)` are pushed in order onto an array of `first(a)`, that makes an array of the items of `a`.
* If `a` has none, `first`, `last` and `rest` give `null`.

Calls and indices of names compute just this, and a program changes the value of no name that it does
not bind. -/
theorem arrays_agree_with_indexing [Mark μ] (id : Nat) (items : List (Value μ)) (s : Store μ) :
    (∀ i : Int64, (Value.array id items).index (.int i) = .ok
      (if h : 0 ≤ i.toInt ∧ i.toInt < items.length then items[i.toInt.toNat] else .null)) ∧
    Builtin.len.run [.array id items] s = some (.int (Int64.ofNat items.length), s) ∧
    (∀ x, ∃ b t, Builtin.push.run [.array id items, x] s = some (b, t) ∧
      Builtin.len.run [b] t = some (.int (Int64.ofNat (items.length + 1)), t) ∧
      (∀ i : Int64, i.toInt < items.length →
        b.index (.int i) = (Value.array id items).index (.int i)) ∧
      ∀ i : Int64, i.toInt = items.length → b.index (.int i) = .ok x) ∧
    (items ≠ [] → ∃ id' kept t x y,
      Builtin.rest.run [.array id items] s = some (.array id' kept, t) ∧
      Builtin.len.run [.array id' kept] t = some (.int (Int64.ofNat (items.length - 1)), t) ∧
      (∀ i j : Int64, 0 ≤ i.toInt → i.toInt < items.length → j.toInt = i.toInt + 1 →
        (Value.array id' kept).index (.int i) = (Value.array id items).index (.int j)) ∧
      Builtin.first.run [.array id items] s = some (x, s) ∧
      (Value.array id items).index (.int 0) = .ok x ∧
      Builtin.last.run [.array id items] s = some (y, s) ∧
      (∀ i : Int64, i.toInt = items.length - 1 →
        (Value.array id items).index (.int i) = .ok y) ∧
      ∀ u, ∃ id'' u', (Builtin.newArray [x] >>= fun b => Builtin.pushAll b kept) u =
        some (.array id'' items, u')) ∧
    (items = [] →
      Builtin.first.run [.array id items] s = some (.null, s) ∧
      Builtin.last.run [.array id items] s = some (.null, s) ∧
      Builtin.rest.run [.array id items] s = some (.null, s)) ∧
    (∀ n frame (b : Builtin) m m' (names : List (Ident μ)) (args : List (Value μ)),
      s.lookup frame b.name = none →
      names.map (fun name => s.lookup frame name.name) = args.map some →
      (∀ v ∈ args, v.isControl = false) →
      eval (n + 2) (.call m (.name ⟨m', b.name⟩) (names.map Expr.name)) frame s =
        b.run args { s with
          nextIdentity := s.nextIdentity + 1, events := .calledBuiltin b :: s.events }) ∧
    (∀ n frame m (name key : Ident μ) i v,
      s.lookup frame name.name = some (.array id items) →
      s.lookup frame key.name = some (.int i) →
      (Value.array id items).index (.int i) = .ok v →
      eval (n + 2) (.index m (.name name) (.name key)) frame s = some (v, s)) ∧
    ∀ n p frame r t frame' name, evaluate n p frame s = some (r, t) → name ∉ Stmt.allTargets p →
      s.lookup frame' name = some (.array id items) →
      t.lookup frame' name = some (.array id items) := by
  refine ⟨fun i => ?inside, Builtin.run_len_array id items s, fun x => ?push, ?rest, ?empty,
    fun n frame b m m' names args => eval_call_names n m m', fun n frame m name key i v => ?index,
    fun n p frame r t frame' name => lookup_of_evaluate⟩
  case inside => rw [Value.index, Value.itemAt_eq]
  case push =>
    refine ⟨_, _, Builtin.run_push_array id items s x, ?_, fun i hi => ?_, fun i hi => ?_⟩
    · rw [Builtin.run_len_array, List.length_append, List.length_singleton]
    · rw [Value.index, Value.index, Value.itemAt_append_of_lt x hi]
    · rw [Value.index, Value.itemAt_append_of_eq x hi]
  case rest =>
    intro hne
    obtain ⟨x, kept, rfl⟩ := List.exists_cons_of_ne_nil hne
    refine ⟨_, kept, _, x, (x :: kept).getLast hne, Builtin.run_rest_cons id kept s x,
      Builtin.run_len_array _ kept _, fun i j hi _ hj => ?_, rfl, rfl, ?_, fun i hi => ?_,
      fun u => ?_⟩
    · rw [Value.index, Value.index, Value.itemAt_cons_of_eq x hi hj]
    · change some ((x :: kept).getLast?.getD .null, s) = _
      rw [List.getLast?_eq_some_getLast hne]
      rfl
    · rw [Value.index, Value.itemAt_getLast hne hi]
    · exact Builtin.pushAll_array _ [x] _ kept
  case empty =>
    rintro rfl
    exact ⟨rfl, rfl, rfl⟩
  case index =>
    intro ha hi hv
    exact eval_index_of_eq (eval_name_of_lookup n ha) rfl (eval_name_of_lookup n hi) rfl hv

/-- An array with an array as its second item. -/
def nestedPair : List (Value String) :=
  [.int 7, .array 0 []]

/-- A frame that binds `a` to an array of `nestedPair`, and `i` to `1`. -/
def bindsPair : Store String :=
  ((Store.empty.newFrame none).2.define 0 "a" (.array 1 nestedPair)).define 0 "i" (.int 1)

/-- The program `let b = push(rest(a), a[i])`. -/
def pushesItem : Program String :=
  [.bind "let" ⟨"", "b"⟩ (.call "" (.name ⟨"", "push"⟩)
    [.call "" (.name ⟨"", "rest"⟩) [.name ⟨"", "a"⟩],
      .index "" (.name ⟨"", "a"⟩) (.name ⟨"", "i"⟩)])]

/-- The second item of an array of two is the last one, the first of the rest, and still the second
after a push. -/
theorem arrays_agree_with_indexing_pair :
    (∃ b t, Builtin.push.run [.array 1 nestedPair, .int 9] bindsPair = some (b, t) ∧
      b.index (.int 1) = .ok (.array 0 []) ∧ b.index (.int 2) = .ok (.int 9)) ∧
    (∃ b t y, Builtin.rest.run [.array 1 nestedPair] bindsPair = some (b, t) ∧
      b.index (.int 0) = .ok (.array 0 []) ∧
      Builtin.last.run [.array 1 nestedPair] bindsPair = some (y, bindsPair) ∧
      (Value.array 1 nestedPair).index (.int 1) = .ok y) ∧
    Builtin.rest.run [.array 1 []] bindsPair = some (.null, bindsPair) ∧
    eval 2 (.index "" (.name ⟨"", "a"⟩) (.name ⟨"", "i"⟩)) 0 bindsPair =
      some (.array 0 [], bindsPair) ∧
    ∃ r t, eval 2 (.call "" (.name ⟨"", "first"⟩) [.name ⟨"", "a"⟩]) 0 bindsPair = some (r, t) ∧
      ∃ r' t', evaluate 9 pushesItem 0 bindsPair = some (r', t') ∧
        t'.lookup 0 "a" = some (.array 1 nestedPair) := by
  have ha : bindsPair.lookup 0 "a" = some (.array 1 nestedPair) := by
    rw [Store.lookup_eq]
    rfl
  have hi : bindsPair.lookup 0 "i" = some (.int 1) := by
    rw [Store.lookup_eq]
    rfl
  have hfirst : bindsPair.lookup 0 Builtin.first.name = none := by
    rw [Store.lookup_eq]
    rfl
  have hends : (evaluate 9 pushesItem 0 bindsPair).isSome = true := by
    decide +kernel
  obtain ⟨⟨r', t'⟩, hrun⟩ := Option.isSome_iff_exists.1 hends
  obtain ⟨-, -, hpush, hrest, -, hcall, hindex, hprogram⟩ :=
    arrays_agree_with_indexing 1 nestedPair bindsPair
  obtain ⟨b, t, hb, -, hkept, hlast⟩ := hpush (.int 9)
  obtain ⟨id', kept, u, x, y, hrun', -, hshift, -, -, hy, hyindex, -⟩ := hrest (by simp [nestedPair])
  have hempty := (arrays_agree_with_indexing 1 [] bindsPair).2.2.2.2.1 rfl
  have hcalled := hcall 0 0 .first "" "" [⟨"", "a"⟩] [.array 1 nestedPair] hfirst
    (by simp [ha]) (by simp [Value.isControl])
  refine ⟨⟨b, t, hb, hkept 1 (by decide), hlast 2 (by decide)⟩, ⟨_, u, y, hrun', ?_, hy, ?_⟩,
    hempty.2.2, hindex 0 0 "" _ _ 1 _ ha hi rfl, _, _, hcalled, r', t', hrun, ?_⟩
  · exact hshift 0 1 (by decide) (by decide) (by decide)
  · exact hyindex 1 (by decide)
  · exact hprogram 9 pushesItem 0 r' t' 0 "a" hrun (by decide) ha

end Run

end Treewalk
