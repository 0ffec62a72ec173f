import Treewalk.Proofs.Run.Control
import Treewalk.Proofs.Run.Forward
import Treewalk.Proofs.Run.Wrapped
import Treewalk.Session

/-! # Comparing a name with itself

Values that are neither strings nor fractional numbers are equal to themselves (`apply_eq_self`).  But
what is compared in `name == name` is what the name gives the first time and the second time.

* A bound name gives the value that it is bound to, both times.
* A name of the language itself gives a reference that is made anew each time, so the two differ.

So a name equals itself just when it is bound (`name_equals_itself_iff`). -/

namespace Treewalk

variable {μ : Type}

/-- A value that is compared by its number or by its identity is equal to itself. -/
theorem BinaryOp.apply_eq_self {v : Value μ} (hdata : v.isData = true) (hstring : v.tag ≠ .string)
    (hfloat : v.tag ≠ .float) :
    eq.apply v v = .ok (.bool true) ∧ ne.apply v v = .ok (.bool false) := by
  cases v with
  | int n => simp [apply, onInts]
  | float x => exact absurd rfl hfloat
  | string s => exact absurd rfl hstring
  | returned v => cases hdata
  | error e => cases hdata
  | _ => simp [apply, onIdentities, Value.same, Value.identity?]

/-- Two references to functions of the language itself differ if they were made apart. -/
theorem BinaryOp.apply_builtin_of_ne {i j : Nat} (h : i ≠ j) (b : Builtin) :
    eq.apply (.builtin i b : Value μ) (.builtin j b) = .ok (.bool false) ∧
      ne.apply (.builtin i b : Value μ) (.builtin j b) = .ok (.bool true) := by
  simp [apply, onIdentities, Value.same, Value.identity?, h]

namespace Run

/-- The program that compares a name with itself, whatever its nodes are marked with. -/
def comparesItself (m₀ m m₁ m₂ : μ) (name : String) (op : BinaryOp) : Program μ :=
  [.expr m₀ (.binary m (.name ⟨m₁, name⟩) op (.name ⟨m₂, name⟩))]

section

variable [Mark μ] {s : Store μ} {frame : Nat} {name : String} {op : BinaryOp} {r : Bool}
  (n : Nat) (m₀ m m₁ m₂ : μ)

theorem evaluate_comparesItself_of_lookup {v : Value μ} (h : s.lookup frame name = some v)
    (hv : v.isControl = false) (hop : op.apply v v = .ok (.bool r)) :
    evaluate (n + 2) (comparesItself m₀ m m₁ m₂ name op) frame s = some (some (.bool r), s) := by
  have hleft : eval (n + 1) (.name ⟨m₁, name⟩) frame s = some (v, s) := eval_name_of_lookup n h
  have hright : eval (n + 1) (.name ⟨m₂, name⟩) frame s = some (v, s) := eval_name_of_lookup n h
  rw [comparesItself, evaluate_expr, eval_binary_of_eq hleft hv hright hv hop]
  rfl

theorem evaluate_comparesItself_of_builtin {b : Builtin} (h : s.lookup frame name = none)
    (hb : Builtin.ofName? name = some b)
    (hop : op.apply (.builtin s.nextIdentity b : Value μ) (.builtin (s.nextIdentity + 1) b) =
      .ok (.bool r)) :
    evaluate (n + 2) (comparesItself m₀ m m₁ m₂ name op) frame s =
      some (some (.bool r), { s with nextIdentity := s.nextIdentity + 2 }) := by
  have hleft : eval (n + 1) (.name ⟨m₁, name⟩) frame s =
      some (.builtin s.nextIdentity b, { s with nextIdentity := s.nextIdentity + 1 }) :=
    eval_name_of_builtin n h hb
  have hstill : Store.lookup { s with nextIdentity := s.nextIdentity + 1 } frame name = none := by
    rw [← h]
    exact Store.lookup_of_frames_eq rfl
  have hright : eval (n + 1) (.name ⟨m₂, name⟩) frame { s with nextIdentity := s.nextIdentity + 1 } =
      some (.builtin (s.nextIdentity + 1) b, { s with nextIdentity := s.nextIdentity + 2 }) :=
    eval_name_of_builtin n hstill hb
  rw [comparesItself, evaluate_expr, eval_binary_of_eq hleft rfl hright rfl hop]
  rfl

end

/-- **A name equals itself just when it is bound.**  Let a name have a value in a frame of a clean
store, or else be one of the language itself, and let its value be neither a string nor a
floating-point number.  Then `name == name` gives `true` and `name != name` gives `false` if the name
is bound, and the other way round if it is a name of the language itself. -/
theorem name_equals_itself_iff [Mark μ] {s : Store μ} (hs : s.Clean) (frame : Nat) (name : String)
    (hresolves : (s.lookup frame name).isSome = true ∨ (Builtin.ofName? name).isSome = true)
    (hkind : ∀ v, s.lookup frame name = some v → v.tag ≠ .string ∧ v.tag ≠ .float)
    (n : Nat) (m₀ m m₁ m₂ : μ) :
    ((∃ t, evaluate (n + 2) (comparesItself m₀ m m₁ m₂ name .eq) frame s =
          some (some (.bool true), t)) ∧
        (∃ t, evaluate (n + 2) (comparesItself m₀ m m₁ m₂ name .ne) frame s =
          some (some (.bool false), t)) ↔ (s.lookup frame name).isSome = true) ∧
      ((s.lookup frame name).isSome = false →
        (∃ t, evaluate (n + 2) (comparesItself m₀ m m₁ m₂ name .eq) frame s =
            some (some (.bool false), t)) ∧
          ∃ t, evaluate (n + 2) (comparesItself m₀ m m₁ m₂ name .ne) frame s =
            some (some (.bool true), t)) := by
  cases hlookup : s.lookup frame name with
  | some v =>
      have hdata := hs.lookup hlookup
      obtain ⟨hstring, hfloat⟩ := hkind v hlookup
      obtain ⟨heq, hne⟩ := BinaryOp.apply_eq_self hdata hstring hfloat
      have hcontrol : v.isControl = false := by
        cases v <;> first | rfl | cases hdata
      refine ⟨⟨fun _ => rfl, fun _ => ⟨⟨s, ?_⟩, s, ?_⟩⟩, fun h => by cases h⟩
      · exact evaluate_comparesItself_of_lookup n m₀ m m₁ m₂ hlookup hcontrol heq
      · exact evaluate_comparesItself_of_lookup n m₀ m m₁ m₂ hlookup hcontrol hne
  | none =>
      rw [hlookup] at hresolves
      have hb := hresolves.resolve_left Bool.false_ne_true
      obtain ⟨b, hb⟩ := Option.isSome_iff_exists.1 hb
      have hapart : s.nextIdentity ≠ s.nextIdentity + 1 := Nat.ne_of_lt (Nat.lt_succ_self _)
      obtain ⟨heq, hne⟩ := BinaryOp.apply_builtin_of_ne (μ := μ) hapart b
      have hfalse := evaluate_comparesItself_of_builtin n m₀ m m₁ m₂ hlookup hb heq
      have htrue := evaluate_comparesItself_of_builtin n m₀ m m₁ m₂ hlookup hb hne
      refine ⟨⟨fun h => ?_, fun h => by cases h⟩, fun _ => ⟨⟨_, hfalse⟩, _, htrue⟩⟩
      obtain ⟨⟨t, ht⟩, -⟩ := h
      rw [hfalse] at ht
      cases ht

/-- A frame that binds `f` to a function. -/
def bindsFunction : Store String :=
  (Store.empty.newFrame none).2.define 0 "f" (.function 0 [] (.mk "" []) 0)

theorem name_equals_itself_iff_function :
    (bindsFunction.Clean ∧ (bindsFunction.lookup 0 "f").isSome = true ∧
      ∀ v, bindsFunction.lookup 0 "f" = some v → v.tag ≠ .string ∧ v.tag ≠ .float) ∧
    (∃ t, evaluate 2 (comparesItself "f" "==" "f" "f" "f" .eq) 0 bindsFunction =
      some (some (.bool true), t)) ∧
    ∃ t, evaluate 2 (comparesItself "f" "!=" "f" "f" "f" .ne) 0 bindsFunction =
      some (some (.bool false), t) := by
  have hf : bindsFunction.lookup 0 "f" = some (.function 0 [] (.mk "" []) 0) := by
    rw [Store.lookup_eq]
    rfl
  have hclean : bindsFunction.Clean := (Store.clean_empty.newFrame none).define 0 "f" rfl
  have hbound : (bindsFunction.lookup 0 "f").isSome = true := by rw [hf]; rfl
  have hkind : ∀ v, bindsFunction.lookup 0 "f" = some v → v.tag ≠ .string ∧ v.tag ≠ .float := by
    intro v hv
    obtain rfl := Option.some.inj (hf.symm.trans hv)
    exact ⟨by decide, by decide⟩
  have heq := name_equals_itself_iff hclean 0 "f" (.inl hbound) hkind 0 "f" "==" "f" "f"
  have hne := name_equals_itself_iff hclean 0 "f" (.inl hbound) hkind 0 "f" "!=" "f" "f"
  exact ⟨⟨hclean, hbound, hkind⟩, (heq.1.2 hbound).1, (hne.1.2 hbound).2⟩

/-- In a new session the name `len` is one of the language itself, and does not equal itself. -/
theorem len_differs_from_itself :
    let session : Session String := Session.start
    session.store.Clean ∧
    session.store.lookup session.frame "len" = none ∧
    Builtin.ofName? "len" = some .len ∧
    (∃ t, evaluate 2 (comparesItself "len" "==" "len" "len" "len" .eq) session.frame session.store =
      some (some (.bool false), t)) ∧
    ∃ t, evaluate 2 (comparesItself "len" "!=" "len" "len" "len" .ne) session.frame session.store =
      some (some (.bool true), t) := by
  intro session
  have hlen : session.store.lookup session.frame "len" = none := by
    rw [Store.lookup_eq]
    rfl
  have hname : Builtin.ofName? "len" = some .len := by decide
  obtain ⟨heq, hne⟩ := BinaryOp.apply_builtin_of_ne Nat.zero_ne_one .len
  have hfalse := evaluate_comparesItself_of_builtin 0 "len" "==" "len" "len" hlen hname heq
  have htrue := evaluate_comparesItself_of_builtin 0 "len" "!=" "len" "len" hlen hname hne
  exact ⟨Store.clean_empty.newFrame none, hlen, hname, ⟨_, hfalse⟩, _, htrue⟩

end Run

end Treewalk
