import Treewalk.Proofs.Run.Alongside
import Treewalk.Proofs.Run.Control
import Treewalk.Proofs.Run.Path

/-! # Unrelated bindings

A binding of a name that occurs neither in a program nor in any function that it can get hold of
makes no difference to the program.

* Two stores are `Alike` if nothing tells them apart but the order in which their bindings were made.
* `Adds f name v s t` says that `t` is like `s` with `v` bound to the name in the frame `f`.  A run
  that starts in `t` goes side by side with one that starts in `s`, as long as the name is never looked
  up and never bound (`mirrors_adds`). -/

namespace Treewalk

variable {μ : Type}

namespace Store

/-- Two stores have the same frames, one inside the other in the same way, which bind the same names to
the same values; and the same identity comes next and the same has happened. -/
structure Alike (s t : Store μ) : Prop where
  size : t.frames.size = s.frames.size
  outer? (i : Nat) : t.outer? i = s.outer? i
  local? (i : Nat) (name : String) : t.local? i name = s.local? i name
  nextIdentity : t.nextIdentity = s.nextIdentity
  events : t.events = s.events

theorem Alike.refl (s : Store μ) : s.Alike s :=
  ⟨rfl, fun _ => rfl, fun _ _ => rfl, rfl, rfl⟩

end Store

namespace Run

open Store

/-- The second store is like the first with one more binding, of a name that occurs in no function in
the first. -/
structure Adds (f : Nat) (name : String) (v : Value μ) (s t : Store μ) : Prop where
  isFrame : f < s.frames.size
  alike : (s.define f name v).Alike t
  speaks (i : Nat) (name' : String) (w : Value μ) : s.local? i name' = some w → w.Speaks (· ≠ name)

variable {f : Nat} {name : String} {v : Value μ} {s t : Store μ}

theorem Adds.size_eq (h : Adds f name v s t) : t.frames.size = s.frames.size :=
  h.alike.size.trans (size_define f name v)

theorem Adds.outer?_eq (h : Adds f name v s t) (i : Nat) : t.outer? i = s.outer? i :=
  (h.alike.outer? i).trans (outer?_define f name v i)

theorem Adds.local?_eq (h : Adds f name v s t) (i : Nat) (name' : String) :
    t.local? i name' = if i = f ∧ name' = name then some v else s.local? i name' :=
  (h.alike.local? i name').trans (local?_define_eq h.isFrame name v i name')

/-- Every step of a run that has nothing to do with the name keeps the other binding as it is. -/
theorem mirrors_adds [Mark μ] (f : Nat) (name : String) (v : Value μ) :
    Mirrors .id (· ≠ name) (Adds f name v) where
  note {s t} e h := by
    rw [Event.relabel_id]
    exact ⟨h.isFrame, ⟨h.size_eq.trans (size_define f name v).symm, h.alike.outer?, h.alike.local?,
      h.alike.nextIdentity, congrArg (e :: ·) h.alike.events⟩, h.speaks⟩
  newIdentity {s t} h :=
    ⟨h.alike.nextIdentity, h.isFrame, ⟨h.alike.size, h.alike.outer?, h.alike.local?,
      congrArg (· + 1) h.alike.nextIdentity, h.alike.events⟩, h.speaks⟩
  lookup {s t frame name'} h hne := by
    have hlookup : t.lookup frame name' = s.lookup frame name' :=
      lookup_congr h.outer?_eq fun i => by rw [h.local?_eq, if_neg fun heq => hne heq.2]
    refine ⟨?_, fun w hw => ?_⟩
    · change t.lookup frame name' = _
      rw [hlookup]
      cases s.lookup frame name' with
      | none => rfl
      | some w => rw [Option.map_some, Value.relabel_id]
    · obtain ⟨i, -, hi⟩ := List.exists_of_findSome?_eq_some hw
      exact h.speaks i name' w hi
  enter {s t} outer h := by
    have hlt : f < (s.newFrame (some outer)).2.frames.size := by
      rw [newFrame, Array.size_push]
      exact Nat.lt_succ_of_lt h.isFrame
    refine ⟨h.size_eq, hlt, ⟨?_, fun i => ?_, fun i name' => ?_, h.alike.nextIdentity,
      h.alike.events⟩, fun i name' w hw => ?_⟩
    · rw [size_define, newFrame, newFrame, Array.size_push, Array.size_push, h.size_eq]
    · rw [outer?_define, outer?_newFrame, outer?_newFrame, h.size_eq, h.outer?_eq]
      rfl
    · rw [local?_define_eq hlt, local?_newFrame, local?_newFrame, h.local?_eq]
    · rw [local?_newFrame] at hw
      exact h.speaks i name' w hw
  define {s t frame name' w} h hne hw := by
    rw [Value.relabel_id]
    have hlt : f < (s.define frame name' w).frames.size := by
      rw [size_define]
      exact h.isFrame
    refine ⟨hlt, ⟨?_, fun i => ?_, fun i name'' => ?_, h.alike.nextIdentity, h.alike.events⟩,
      fun i name'' u hu => ?_⟩
    · rw [size_define, size_define, size_define, h.size_eq]
    · rw [outer?_define, outer?_define, outer?_define, h.outer?_eq]
    · rw [local?_define_eq hlt]
      change (t.define frame name' w).local? i name'' = _
      by_cases hframe : frame < s.frames.size
      · rw [local?_define_eq hframe, local?_define_eq (by rw [h.size_eq]; exact hframe),
          h.local?_eq]
        -- the two bindings are of different names, so they can be made in either order
        by_cases hname : name'' = name'
        · have hother : ¬ (i = f ∧ name'' = name) := fun heq => hne (hname.symm.trans heq.2)
          simp only [if_neg hother]
        · have hother : ¬ (i = frame ∧ name'' = name') := fun heq => hname heq.2
          simp only [if_neg hother]
      · have hle := Nat.le_of_not_lt hframe
        rw [local?_define_of_le hle, local?_define_of_le (by rw [h.size_eq]; exact hle),
          h.local?_eq]
    · rcases local?_define hu with rfl | hold
      · exact hw
      · exact h.speaks i name'' u hold

/-- **An unrelated binding makes no difference.**  Let a name occur neither in a program nor in any
function in the store.  If it is bound to a value in some frame before, the program ends or not as
without that, gives the same result and notes the same events, and leaves the store that it leaves
without that, with this one binding more. -/
theorem unrelated_binding [Mark μ] {s : Store μ} {f : Nat} (hf : f < s.frames.size) {name : String}
    (hs : ∀ i name' w, s.local? i name' = some w → ∀ c ∈ w.functions,
      name ∉ c.params ∧ .name name ∉ c.body.leaves)
    {p : Program μ} (hp : .name name ∉ Stmt.allLeaves p) (v : Value μ) (frame n : Nat) :
    Option.Rel (fun x y => y.1 = x.1 ∧ (x.2.define f name v).Alike y.2)
      (evaluate n p frame s) (evaluate n p frame (s.define f name v)) := by
  have hadds : Adds f name v s (s.define f name v) := by
    refine ⟨hf, .refl _, fun i name' w hw c hc => ⟨?_, ?_⟩⟩
    · rintro x hx rfl
      exact (hs i name' w hw c hc).1 hx
    · rintro x hx rfl
      exact (hs i name' w hw c hc).2 hx
  have hnamed : Named (· ≠ name) (Stmt.allLeaves p) := by
    rintro x hx rfl
    exact hp hx
  have htracks : Tracks False _ _ _ _ _ :=
    tracks_evalProgram_self (mirrors_adds f name v) rfl (.inl (rfl : n = n)) frame hnamed
  change Option.Rel _ ((evalProgram n p frame s).bind _) ((evalProgram n p frame _).bind _)
  rcases htracks hadds with ⟨⟨⟩, -⟩ | hrel
  · change Option.Rel _ _ (evalProgram n p frame (s.define f name v)) at hrel
    generalize evalProgram n p frame s = x at hrel ⊢
    generalize evalProgram n p frame (s.define f name v) = y at hrel ⊢
    cases hrel with
    | none => exact .none
    | some hxy =>
        rename_i x y
        obtain ⟨hr, -, hst⟩ := hxy
        refine .some ⟨?_, hst.alike⟩
        change settle y.1 = settle x.1
        rw [hr]
        cases x.1 with
        | none => rfl
        | some w => rw [Option.map_some, Value.relabel_id]

/-- A frame in which `g` is `fn(x) { x }`, and a frame inside it. -/
def storedFunction : Store String :=
  (((Store.empty.newFrame none).2.define 0 "g"
    (.function 0 [⟨"", "x"⟩] (.mk "" [.expr "" (.name ⟨"", "x"⟩)]) 0)).newFrame (some 0)).2

/-- The program `let a = g(1); a`. -/
def callsStored : Program String :=
  [.bind "let" ⟨"", "a"⟩ (.call "" (.name ⟨"", "g"⟩) [.int "" 1]), .expr "" (.name ⟨"", "a"⟩)]

/-- The name `b` is bound further out to a function that would look it up. -/
theorem unrelated_binding_function :
    (evaluate 9 callsStored 1 storedFunction).isSome = true ∧
      Option.Rel (fun x y => y.1 = x.1 ∧ (x.2.define 0 "b"
          (.function 1 [] (.mk "" [.expr "" (.name ⟨"", "b"⟩)]) 0)).Alike y.2)
        (evaluate 9 callsStored 1 storedFunction)
        (evaluate 9 callsStored 1 (storedFunction.define 0 "b"
          (.function 1 [] (.mk "" [.expr "" (.name ⟨"", "b"⟩)]) 0))) := by
  refine ⟨by decide +kernel, unrelated_binding (by decide) (fun i name' w hw c hc => ?_) ?_ _ 1 9⟩
  · have hg : w = .function 0 [⟨"", "x"⟩] (.mk "" [.expr "" (.name ⟨"", "x"⟩)]) 0 := by
      rw [storedFunction, Store.local?_newFrame] at hw
      rcases Store.local?_define hw with rfl | hempty
      · rfl
      · rw [Store.local?_newFrame] at hempty
        simp [Store.local?, Store.empty] at hempty
    subst hg
    obtain rfl := List.mem_singleton.1 hc
    simp [Block.leaves, Stmt.allLeaves, Stmt.leaves, Expr.leaves]
  · simp [callsStored, Stmt.allLeaves, Stmt.leaves, Expr.leaves, Expr.allLeaves]

end Run

end Treewalk
