import Treewalk.Proofs.Run.Path

/-! # Chains of frames

However frames are made and names bound in them, the frames are a map from names to values with
lexical scope.

* A `History` is a sequence of new frames and bindings in any order.  `store` is what it leads to.
* `outerOf` and `latest` are read off a history alone: the frame inside which one was made, and what a
  name was bound to last in a frame.
* The `Chain` of a frame lists the frames from it outwards.  The path on which a store looks for a
  name is this chain (`chain_path`), so a name means what the nearest frame that binds it says.
* A chain `Reaches` a frame for a name if no frame nearer than that one binds the name.  Just there
  does a binding change what the name means (`lookup_define_of_reaches`, `lookup_define_of_not`). -/

namespace Treewalk

variable {μ : Type}

/-- What was done to the frames of a store.  The index is the number of frames made, so a frame is only
ever made inside an earlier one, and a name is only ever bound in a frame that is there. -/
inductive History (μ : Type) : Nat → Type
  | start : History μ 0
  /-- A frame was made that lies in none. -/
  | outermost {n : Nat} (h : History μ n) : History μ (n + 1)
  /-- A frame was made inside another one. -/
  | inside {n : Nat} (h : History μ n) (outer : Fin n) : History μ (n + 1)
  | define {n : Nat} (h : History μ n) (frame : Fin n) (name : String) (v : Value μ) : History μ n

namespace History

/-- The store that a history leads to. -/
def store : {n : Nat} → History μ n → Store μ
  | _, start => .empty
  | _, outermost h => (h.store.newFrame none).2
  | _, inside h outer => (h.store.newFrame (some outer)).2
  | _, define h frame name v => h.store.define frame name v

/-- The frame inside which a frame was made, if any. -/
def outerOf : {n : Nat} → History μ n → Nat → Option Nat
  | _, start, _ => none
  | n + 1, outermost h, i => if i = n then none else h.outerOf i
  | n + 1, inside h outer, i => if i = n then some outer else h.outerOf i
  | _, define h _ _ _, i => h.outerOf i

/-- What a name was bound to last in a frame, if it was bound there. -/
def latest : {n : Nat} → History μ n → Nat → String → Option (Value μ)
  | _, start, _, _ => none
  | _, outermost h, i, name => h.latest i name
  | _, inside h _, i, name => h.latest i name
  | _, define h frame name' v, i, name =>
    if i = frame ∧ name = name' then some v else h.latest i name

variable {n : Nat}

/-- The frames from a frame outwards, up to one that lies in none. -/
inductive Chain (h : History μ n) : Nat → List Nat → Prop
  | outermost {i : Nat} (ho : h.outerOf i = none) : Chain h i [i]
  | inside {i outer : Nat} {l : List Nat} (ho : h.outerOf i = some outer) (hl : Chain h outer l) :
      Chain h i (i :: l)

/-- The chain of `i` comes to `j`, and no frame before `j` on it binds the name. -/
def Reaches (h : History μ n) (name : String) (i j : Nat) : Prop :=
  ∃ near far, h.Chain i (near ++ j :: far) ∧ ∀ k ∈ near, h.latest k name = none

/-! ### The store of a history -/

theorem size_store (h : History μ n) : h.store.frames.size = n := by
  induction h with
  | start => rfl
  | outermost h ih => rw [store, Store.newFrame, Array.size_push, ih]
  | inside h outer ih => rw [store, Store.newFrame, Array.size_push, ih]
  | define h frame name v ih => rw [store, Store.size_define, ih]

theorem outer?_store (h : History μ n) (i : Nat) : h.store.outer? i = h.outerOf i := by
  induction h with
  | start => simp [store, Store.outer?, Store.empty, outerOf]
  | outermost h ih => rw [store, Store.outer?_newFrame, h.size_store, ih, outerOf]
  | inside h outer ih => rw [store, Store.outer?_newFrame, h.size_store, ih, outerOf]
  | define h frame name v ih => rw [store, Store.outer?_define, ih, outerOf]

theorem local?_store (h : History μ n) (i : Nat) (name : String) :
    h.store.local? i name = h.latest i name := by
  induction h with
  | start => simp [store, Store.local?, Store.empty, latest]
  | outermost h ih => rw [store, Store.local?_newFrame, ih, latest]
  | inside h outer ih => rw [store, Store.local?_newFrame, ih, latest]
  | define h frame name' v ih =>
      have hframe : frame.val < h.store.frames.size := by
        rw [h.size_store]
        exact frame.isLt
      rw [store, Store.local?_define_eq hframe, ih, latest]

/-- A frame lies inside an earlier one. -/
theorem outerOf_lt (h : History μ n) {i outer : Nat} (ho : h.outerOf i = some outer) :
    outer < i := by
  induction h with
  | start => cases ho
  | outermost h ih =>
      rw [outerOf] at ho
      split at ho
      · cases ho
      · exact ih ho
  | inside h frame ih =>
      rw [outerOf] at ho
      split at ho
      · rename_i hi
        rw [hi, ← Option.some.inj ho]
        exact frame.isLt
      · exact ih ho
  | define h frame name v ih => exact ih ho

/-! ### Chains -/

variable {h : History μ n} {name : String} {i j : Nat} {l l' : List Nat}

theorem Chain.unique (hl : h.Chain i l) (hl' : h.Chain i l') : l = l' := by
  induction hl generalizing l' with
  | outermost ho =>
      cases hl' with
      | outermost _ => rfl
      | inside ho' _ => cases ho.symm.trans ho'
  | inside ho _ ih =>
      cases hl' with
      | outermost ho' => cases ho'.symm.trans ho
      | inside ho' hl' =>
          obtain rfl := Option.some.inj (ho.symm.trans ho')
          rw [ih hl']

/-- A store looks for a name along the chain. -/
theorem chain_path (h : History μ n) (i : Nat) : h.Chain i (h.store.path i) := by
  induction i using Nat.strongRecOn with
  | ind i ih =>
      cases ho : h.outerOf i with
      | none =>
          rw [Store.path_of_outermost]
          · exact .outermost ho
          · intro outer houter
            rw [h.outer?_store, ho] at houter
            cases houter
      | some outer =>
          have hlt := h.outerOf_lt ho
          rw [Store.path_of_outer ((h.outer?_store i).trans ho) hlt]
          exact .inside ho (ih outer hlt)

theorem lookup_store (hl : h.Chain i l) :
    h.store.lookup i name = l.findSome? fun k => h.latest k name := by
  rw [Store.lookup, (h.chain_path i).unique hl]
  exact congrArg (List.findSome? · l) (funext fun k => h.local?_store k name)

/-- A name means what was bound to it last in the nearest frame that binds it. -/
theorem lookup_eq_some_iff {v : Value μ} :
    h.store.lookup i name = some v ↔ ∃ j, h.Reaches name i j ∧ h.latest j name = some v := by
  rw [lookup_store (h.chain_path i), List.findSome?_eq_some_iff]
  constructor
  · rintro ⟨near, j, far, hpath, hj, hnear⟩
    refine ⟨j, ⟨near, far, ?_, hnear⟩, hj⟩
    rw [← hpath]
    exact h.chain_path i
  · rintro ⟨j, ⟨near, far, hchain, hnear⟩, hj⟩
    exact ⟨near, j, far, (h.chain_path i).unique hchain, hj, hnear⟩

theorem lookup_eq_none_iff (hl : h.Chain i l) :
    h.store.lookup i name = none ↔ ∀ j ∈ l, h.latest j name = none := by
  rw [lookup_store hl, List.findSome?_eq_none_iff]

/-! ### What a binding changes -/

variable {frame : Fin n} {v : Value μ}

/-- A binding leaves all chains as they are. -/
theorem Chain.define (hl : h.Chain i l) : (h.define frame name v).Chain i l := by
  induction hl with
  | outermost ho => exact .outermost ho
  | inside ho _ ih => exact .inside ho ih

/-- In a frame whose chain comes to a binding before any other of the name, the name means what was
bound. -/
theorem lookup_define_of_reaches (hreach : h.Reaches name i frame) :
    (h.define frame name v).store.lookup i name = some v := by
  obtain ⟨near, far, hchain, hnear⟩ := hreach
  rw [lookup_store hchain.define]
  clear hchain
  induction near with
  | nil => simp [latest]
  | cons k near ih =>
      rw [List.forall_mem_cons] at hnear
      rw [List.cons_append, List.findSome?_cons]
      by_cases hk : k = frame
      · rw [latest, if_pos ⟨hk, rfl⟩]
      · rw [latest, if_neg fun heq => hk heq.1, hnear.1]
        exact ih hnear.2

/-- Everywhere else, and for all other names, it makes no difference. -/
theorem lookup_define_of_not {name' : String}
    (hnot : ¬ (name' = name ∧ h.Reaches name i frame)) :
    (h.define frame name v).store.lookup i name' = h.store.lookup i name' := by
  rw [lookup_store (h.chain_path i).define, lookup_store (h.chain_path i)]
  by_cases hname : name' = name
  · subst hname
    have hfar : ¬ ∃ near far : List Nat, h.store.path i = near ++ frame.val :: far ∧
        ∀ k ∈ near, h.latest k name' = none := by
      rintro ⟨near, far, hpath, hnear⟩
      exact hnot ⟨rfl, near, far, hpath ▸ h.chain_path i, hnear⟩
    generalize h.store.path i = l at hfar
    induction l with
    | nil => rfl
    | cons k l ih =>
        have hk : k ≠ frame := fun hk => hfar ⟨[], l, by rw [hk]; rfl, by simp⟩
        rw [List.findSome?_cons, List.findSome?_cons, latest, if_neg fun heq => hk heq.1]
        cases hlatest : h.latest k name' with
        | some w => rfl
        | none =>
            refine ih ?_
            rintro ⟨near, far, hl, hnear⟩
            refine hfar ⟨k :: near, far, by rw [hl]; rfl, ?_⟩
            exact List.forall_mem_cons.2 ⟨hlatest, hnear⟩
  · refine congrArg (List.findSome? · _) (funext fun k => ?_)
    rw [latest, if_neg fun heq => hname heq.2]

/-- **Frames are a map with lexical scope**, whatever was done to them before.

* A frame lies inside an earlier one, so its chain is a list that ends, and there is one only.
* A name has in a frame the value that it was bound to last in the nearest frame of the chain that
  binds it, and none if no frame of the chain does.
* The names of a frame are those that have a value there.
* A binding gives the name the new value in the frames whose chain comes to it before any other binding
  of the name.  In all other frames the name means what it meant, and so do all other names
  everywhere. -/
theorem lexically_scoped (h : History μ n) :
    (∀ i outer, h.outerOf i = some outer → outer < i) ∧
    (∀ i, ∃ l, h.Chain i l ∧ ∀ l', h.Chain i l' → l' = l) ∧
    (∀ i name v, h.store.lookup i name = some v ↔
      ∃ j, h.Reaches name i j ∧ h.latest j name = some v) ∧
    (∀ i name, h.store.lookup i name = none ↔
      ∀ l, h.Chain i l → ∀ j ∈ l, h.latest j name = none) ∧
    (∀ i name, name ∈ h.store.names i ↔ ∃ v, h.store.lookup i name = some v) ∧
    ∀ (frame : Fin n) name v i,
      (h.Reaches name i frame → (h.define frame name v).store.lookup i name = some v) ∧
      ∀ name', ¬ (name' = name ∧ h.Reaches name i frame) →
        (h.define frame name v).store.lookup i name' = h.store.lookup i name' := by
  refine ⟨fun i outer => h.outerOf_lt, fun i => ?_, fun i name v => lookup_eq_some_iff,
    fun i name => ?_, fun i name => ?_, fun frame name v i => ?_⟩
  · exact ⟨_, h.chain_path i, fun l hl => hl.unique (h.chain_path i)⟩
  · constructor
    · exact fun hnone l hl => (lookup_eq_none_iff hl).1 hnone
    · exact fun hall => (lookup_eq_none_iff (h.chain_path i)).2 (hall _ (h.chain_path i))
  · rw [Store.mem_names, Option.isSome_iff_exists]
  · exact ⟨lookup_define_of_reaches, fun name' => lookup_define_of_not⟩

/-- Two frames inside one, of which the first hides `a`. -/
def hidden : History String 3 :=
  (((((start.outermost.define 0 "a" (.int 1)).inside 0).define 1 "a" (.int 2)).inside 0).define 0 "b"
    .null)

/-- A later binding further out is seen through the one frame and hidden by the other. -/
theorem lexically_scoped_hidden :
    (hidden.define 0 "a" (.int 3)).store.lookup 2 "a" = some (.int 3) ∧
      (hidden.define 0 "a" (.int 3)).store.lookup 1 "a" = some (.int 2) := by
  obtain ⟨-, -, hsome, -, -, hdefine⟩ := lexically_scoped hidden
  have hchain : hidden.Chain 2 [2, 0] := .inside rfl (.outermost rfl)
  have hhiding : hidden.Chain 1 [1, 0] := .inside rfl (.outermost rfl)
  obtain ⟨hreached, -⟩ := hdefine 0 "a" (.int 3) 2
  obtain ⟨-, hother⟩ := hdefine 0 "a" (.int 3) 1
  refine ⟨hreached ⟨[2], [], hchain, by simp [hidden, latest]⟩, ?_⟩
  rw [hother "a"]
  · exact (hsome 1 "a" _).2 ⟨1, ⟨[], [0], hhiding, by simp⟩, rfl⟩
  · rintro ⟨-, near, far, hreach, hnear⟩
    have hpath := hreach.unique hhiding
    cases near with
    | nil => cases hpath
    | cons k near =>
        obtain ⟨rfl, -⟩ := List.cons.inj hpath
        cases hnear 1 List.mem_cons_self

end History

end Treewalk
