import Treewalk.Proofs.Syntax.Leaves
import Treewalk.Proofs.Token.Legible
import Treewalk.Syntax.Cursor

/-! # What a step of reading does

`Ends m c Q` says that the step `m` does not run out of its count at the cursor `c`, and that `Q`
holds of its result and of the cursor it leaves.  It is preserved by the combinators
(`Ends.bind`, `Ends.onNode`), so a rule is followed step by step.

* `Took c used c'` says that a reader went from `c` to `c'`, took the tokens `used`, and only
  added faults.
* `Finds ok leaves S n c` is what every rule does, seen from the cursor `c` at which it starts: it
  takes some tokens and leaves at most `n`; the leaves of its node satisfy `ok`; and if it noted no
  fault then there is a node, of which and of the tokens taken `S` holds.

A rule is followed from its start `c₀`: `finds_expect` takes one more token, `finds_part` and
`finds_node` read one more part, and `finds_last`, `finds_some` and `finds_map` end it. -/

namespace Treewalk

namespace Cursor

/-- The next token. -/
def next (c : Cursor) : Token :=
  c.rest.headD c.finish

/-- How many faults were noted. -/
def faults (c : Cursor) : Nat :=
  c.errors.length

/-- A cursor over tokens of a text whose leaves satisfy `ok`. -/
structure Fits (ok : Leaf Token → Prop) (c : Cursor) : Prop where
  finish : c.finish.kind = .eof
  legible : ∀ t ∈ c.rest, t.Legible
  leaves : ∀ t ∈ c.rest, ∀ l ∈ t.leaves, ok l

/-- A reader went from `c` to `c'` and took the tokens `used`. -/
structure Took (c : Cursor) (used : List Token) (c' : Cursor) : Prop where
  rest : c.rest = used ++ c'.rest
  finish : c'.finish = c.finish
  errors : c.errors <:+ c'.errors

theorem Took.refl (c : Cursor) : Took c [] c :=
  ⟨rfl, rfl, List.suffix_rfl⟩

theorem Took.trans {c₁ c₂ c₃ : Cursor} {us vs : List Token} (h₁ : Took c₁ us c₂)
    (h₂ : Took c₂ vs c₃) : Took c₁ (us ++ vs) c₃ where
  rest := by rw [h₁.rest, h₂.rest, List.append_assoc]
  finish := h₂.finish.trans h₁.finish
  errors := h₁.errors.trans h₂.errors

theorem Took.faults_le {c c' : Cursor} {us : List Token} (h : Took c us c') :
    c.faults ≤ c'.faults :=
  h.errors.length_le

theorem Took.length_eq {c c' : Cursor} {us : List Token} (h : Took c us c') :
    c.rest.length = us.length + c'.rest.length := by
  rw [h.rest, List.length_append]

theorem Took.fits {ok : Leaf Token → Prop} {c c' : Cursor} {us : List Token}
    (h : Took c us c') (hc : c.Fits ok) : c'.Fits ok where
  finish := by rw [h.finish, hc.finish]
  legible := fun t ht => hc.legible t (by rw [h.rest]; exact List.mem_append_right us ht)
  leaves := fun t ht => hc.leaves t (by rw [h.rest]; exact List.mem_append_right us ht)

/-- The next token of a kind other than that of the end is one of the text. -/
theorem Fits.rest_eq_of_ne_eof {ok : Leaf Token → Prop} {c : Cursor} (hc : c.Fits ok)
    (h : c.next.kind ≠ .eof) : ∃ us, c.rest = c.next :: us := by
  unfold next at *
  cases hr : c.rest with
  | nil => rw [hr] at h; exact absurd hc.finish h
  | cons t us => exact ⟨us, rfl⟩

/-- The next token has the kind of the end only when nothing is left. -/
theorem Fits.rest_eq_nil_of_eof {ok : Leaf Token → Prop} {c : Cursor} (hc : c.Fits ok)
    (h : c.next.kind = .eof) : c.rest = [] := by
  unfold next at h
  cases hr : c.rest with
  | nil => rfl
  | cons t us =>
      rw [hr] at h
      exact absurd h (hc.legible t (by rw [hr]; exact List.mem_cons_self)).ne_eof

end Cursor

namespace Reading

open Cursor

variable {α β : Type}

/-- A step does not run out of its count, and ends with a result and a cursor that satisfy `Q`. -/
def Ends (m : Reading α) (c : Cursor) (Q : α → Cursor → Prop) : Prop :=
  ∃ a c', m c = some (a, c') ∧ Q a c'

theorem Ends.mono {m : Reading α} {c : Cursor} {P Q : α → Cursor → Prop} (h : Ends m c P)
    (hPQ : ∀ a c', P a c' → Q a c') : Ends m c Q := by
  obtain ⟨a, c', hm, hP⟩ := h
  exact ⟨a, c', hm, hPQ a c' hP⟩

theorem Ends.pure {a : α} {c : Cursor} {Q : α → Cursor → Prop} (h : Q a c) :
    Ends (Pure.pure a) c Q :=
  ⟨a, c, rfl, h⟩

theorem bind_of_eq {m : Reading α} {f : α → Reading β} {c c' : Cursor} {a : α}
    (h : m c = some (a, c')) : (m >>= f) c = f a c' := by
  simp [bind, StateT.bind, h]

theorem Ends.bind {m : Reading α} {f : α → Reading β} {c : Cursor} {P : α → Cursor → Prop}
    {Q : β → Cursor → Prop} (h : Ends m c P) (hf : ∀ a c', P a c' → Ends (f a) c' Q) :
    Ends (m >>= f) c Q := by
  obtain ⟨a, c', hm, hP⟩ := h
  obtain ⟨b, c'', hfa, hQ⟩ := hf a c' hP
  exact ⟨b, c'', by rw [bind_of_eq hm, hfa], hQ⟩

theorem Ends.onNode {m : Reading (Option α)} {next : α → Reading (Option β)} {c : Cursor}
    {P : Option α → Cursor → Prop} {Q : Option β → Cursor → Prop} (h : Ends m c P)
    (hnone : ∀ c', P none c' → Q none c')
    (hsome : ∀ a c', P (some a) c' → Ends (next a) c' Q) :
    Ends (onNode m next) c Q := by
  refine Ends.bind h ?_
  intro x c' hP
  cases x with
  | none => exact Ends.pure (hnone c' hP)
  | some a => exact hsome a c' hP

theorem ends_peek {c : Cursor} {Q : α → Cursor → Prop} {next : Token → Reading α}
    (h : Ends (next c.next) c Q) : Ends (peek >>= next) c Q :=
  Ends.bind (P := fun t c' => t = c.next ∧ c' = c) ⟨_, _, rfl, rfl, rfl⟩ (by
    rintro _ _ ⟨rfl, rfl⟩
    exact h)

/-- The cursor after the next token. -/
def after (c : Cursor) : Cursor :=
  { c with rest := c.rest.tail }

theorem ends_advance {c : Cursor} {Q : α → Cursor → Prop} {next : Token → Reading α}
    (h : Ends (next c.next) (after c) Q) : Ends (advance >>= next) c Q :=
  Ends.bind (P := fun t c' => t = c.next ∧ c' = after c) ⟨_, _, rfl, rfl, rfl⟩ (by
    rintro _ _ ⟨rfl, rfl⟩
    exact h)

/-- The cursor with one more fault. -/
def noting (e : SyntaxError) (c : Cursor) : Cursor :=
  { c with errors := e :: c.errors }

theorem ends_report {e : SyntaxError} {c : Cursor} {Q : α → Cursor → Prop}
    {next : Unit → Reading α} (h : Ends (next ()) (noting e c) Q) :
    Ends (report e >>= next) c Q :=
  Ends.bind (P := fun _ c' => c' = noting e c) ⟨_, _, rfl, rfl⟩ (by
    rintro _ _ rfl
    exact h)

theorem took_noting (e : SyntaxError) (c : Cursor) : Took c [] (noting e c) :=
  ⟨rfl, rfl, List.suffix_cons e c.errors⟩

theorem faults_noting (e : SyntaxError) (c : Cursor) : (noting e c).faults = c.faults + 1 :=
  rfl

theorem took_after {c : Cursor} {us : List Token} (h : c.rest = c.next :: us) :
    Took c [c.next] (after c) :=
  ⟨by rw [after, h]; rfl, rfl, List.suffix_rfl⟩

/-! ### What every rule does -/

section

variable {ok : Leaf Token → Prop}

/-- A rule that started at `c` took some tokens and left at most `n`; the leaves of its node satisfy
`ok`; and unless it noted a fault there is a node, of which, of the tokens and of where it ended
`S` holds. -/
def Finds (ok : Leaf Token → Prop) (leaves : α → List (Leaf Token))
    (S : α → List Token → Cursor → Prop) (n : Nat) (c : Cursor) (x : Option α) (c' : Cursor) :
    Prop :=
  ∃ used, Took c used c' ∧ c'.rest.length ≤ n ∧ (∀ a, x = some a → ∀ l ∈ leaves a, ok l) ∧
    (c'.faults ≤ c.faults → ∃ a, x = some a ∧ S a used c')

variable {leaves : α → List (Leaf Token)} {S : α → List Token → Cursor → Prop} {n : Nat}

theorem Ends.finds_mono {m : Reading (Option α)} {c : Cursor}
    {S' : α → List Token → Cursor → Prop} (h : Ends m c (Finds ok leaves S n c))
    (hS : ∀ a us c', S a us c' → S' a us c') : Ends m c (Finds ok leaves S' n c) := by
  refine h.mono ?_
  rintro x c' ⟨us, htook, hlen, hok, hclean⟩
  refine ⟨us, htook, hlen, hok, fun hle => ?_⟩
  obtain ⟨a, hx, ha⟩ := hclean hle
  exact ⟨a, hx, hS a us c' ha⟩

/-- A rule that noted a fault need not find a node. -/
theorem finds_none {c c' : Cursor} {us : List Token} (h : Took c us c') (hn : c'.rest.length ≤ n)
    (hlt : c.faults < c'.faults) : Finds ok leaves S n c none c' :=
  ⟨us, h, hn, by simp, fun hle => absurd hle (by omega)⟩

/-- A rule that started at `c₀` gives up with a fault. -/
theorem finds_report {c₀ c : Cursor} {us : List Token} (h₀ : Took c₀ us c)
    (hn : c.rest.length ≤ n) (e : SyntaxError) :
    Ends (do report e; return none) c (Finds ok leaves S n c₀) := by
  have htook : Took c₀ us (noting e c) := by
    have h := h₀.trans (took_noting e c)
    rwa [List.append_nil] at h
  refine ends_report (Ends.pure (finds_none htook hn ?_))
  have hle := h₀.faults_le
  rw [faults_noting]
  omega

theorem finds_some {c₀ c : Cursor} {us : List Token} {a : α} (h₀ : Took c₀ us c)
    (hn : c.rest.length ≤ n) (hok : ∀ l ∈ leaves a, ok l)
    (hS : c.faults ≤ c₀.faults → S a us c) :
    Ends (pure (some a)) c (Finds ok leaves S n c₀) := by
  refine Ends.pure ⟨us, h₀, hn, ?_, fun hle => ⟨a, rfl, hS hle⟩⟩
  intro a' ha'
  obtain rfl := Option.some.inj ha'
  exact hok

/-- The node of a rule is made out of that of its last part. -/
theorem finds_map {c₀ c : Cursor} {us : List Token} {x : Option β} {f : β → α}
    (h₀ : Took c₀ us c) (hn : c.rest.length ≤ n)
    (hok : ∀ b, x = some b → ∀ l ∈ leaves (f b), ok l)
    (hS : c.faults ≤ c₀.faults → ∃ b, x = some b ∧ S (f b) us c) :
    Ends (pure (x.map f)) c (Finds ok leaves S n c₀) := by
  refine Ends.pure ⟨us, h₀, hn, ?_, ?_⟩
  · intro a ha
    obtain ⟨b, hb, rfl⟩ := Option.map_eq_some_iff.1 ha
    exact hok b hb
  · intro hle
    obtain ⟨b, rfl, hb⟩ := hS hle
    exact ⟨f b, rfl, hb⟩

/-- The last part of a rule that started at `c₀`. -/
theorem finds_last {c₀ c : Cursor} {us : List Token} {m : Reading (Option α)} {n' : Nat}
    {S' : α → List Token → Cursor → Prop} (h₀ : Took c₀ us c)
    (h : Ends m c (Finds ok leaves S' n' c)) (hn : n' ≤ n)
    (hS : c.faults ≤ c₀.faults → ∀ a vs c', S' a vs c' → S a (us ++ vs) c') :
    Ends m c (Finds ok leaves S n c₀) := by
  refine h.mono ?_
  rintro x c' ⟨vs, htook, hlen, hok, hclean⟩
  refine ⟨us ++ vs, h₀.trans htook, hlen.trans hn, hok, fun hle => ?_⟩
  have h1 := h₀.faults_le
  have h2 := htook.faults_le
  obtain ⟨a, hx, ha⟩ := hclean (by omega)
  exact ⟨a, hx, hS (by omega) a vs c' ha⟩

/-- Taking the next token, when it is not the end. -/
theorem ends_take {c : Cursor} {Q : α → Cursor → Prop} {next : Token → Reading α}
    (hc : c.Fits ok) (hk : c.next.kind ≠ .eof)
    (hnext : ∀ c', c.next.Legible → (∀ l ∈ c.next.leaves, ok l) → Took c [c.next] c' →
      c'.Fits ok → c'.rest.length < c.rest.length → c.faults = c'.faults →
      Ends (next c.next) c' Q) :
    Ends (advance >>= next) c Q := by
  apply ends_advance
  obtain ⟨rest, hr⟩ := hc.rest_eq_of_ne_eof hk
  have hmem : c.next ∈ c.rest := by rw [hr]; exact List.mem_cons_self
  have htook := took_after hr
  refine hnext _ (hc.legible _ hmem) (hc.leaves _ hmem) htook (htook.fits hc) ?_ rfl
  have := htook.length_eq
  rw [this]
  simp

/-- Taking a token of a kind in the course of a rule that started at `c₀`. -/
theorem finds_expect {c₀ c : Cursor} {us : List Token} {k : Token.Kind}
    {next : Token → Reading (Option α)} (h₀ : Took c₀ us c) (hc : c.Fits ok)
    (hn : c.rest.length ≤ n) (hk : k ≠ .eof)
    (hnext : ∀ t c', t.kind = k → t.Legible → (∀ l ∈ t.leaves, ok l) → Took c₀ (us ++ [t]) c' →
      c'.Fits ok → c'.rest.length < c.rest.length → c.faults = c'.faults →
      Ends (next t) c' (Finds ok leaves S n c₀)) :
    Ends (Reading.onNode (expect k) next) c (Finds ok leaves S n c₀) := by
  refine Ends.bind (m := expect k) (P := fun x c' =>
    (x = some c.next ∧ c.next.kind = k ∧ c.next.Legible ∧ (∀ l ∈ c.next.leaves, ok l) ∧
      Took c [c.next] c' ∧ c'.rest.length < c.rest.length ∧ c.faults = c'.faults) ∨
    (x = none ∧ c' = noting (.unexpected k c.next) c)) ?_ ?_
  · apply ends_peek
    split
    · rename_i hkind
      refine ends_take hc (by rw [hkind]; exact hk) ?_
      intro c' hleg hleaves htook _ hlen hfaults
      exact Ends.pure (.inl ⟨rfl, hkind, hleg, hleaves, htook, hlen, hfaults⟩)
    · exact ends_report (Ends.pure (.inr ⟨rfl, rfl⟩))
  · rintro x c' (⟨rfl, hkind, hleg, hleaves, htook, hlen, hfaults⟩ | ⟨rfl, rfl⟩)
    · exact hnext _ c' hkind hleg hleaves (h₀.trans htook) (htook.fits hc) hlen hfaults
    · refine Ends.pure (finds_none (h₀.trans (took_noting _ c)) hn ?_)
      have := h₀.faults_le
      rw [faults_noting]
      omega

/-- A part of a rule that started at `c₀`. -/
theorem finds_part {c₀ c : Cursor} {us : List Token} {m : Reading (Option β)} {n' : Nat}
    {leaves' : β → List (Leaf Token)} {S' : β → List Token → Cursor → Prop}
    {Q : α → Cursor → Prop} {next : Option β → Reading α} (h₀ : Took c₀ us c) (hc : c.Fits ok)
    (h : Ends m c (Finds ok leaves' S' n' c))
    (hnext : ∀ x c' vs, Took c₀ (us ++ vs) c' → c'.Fits ok → c'.rest.length ≤ n' →
      c.faults ≤ c'.faults → (∀ b, x = some b → ∀ l ∈ leaves' b, ok l) →
      (c'.faults ≤ c₀.faults → ∃ b, x = some b ∧ S' b vs c') → Ends (next x) c' Q) :
    Ends (m >>= next) c Q := by
  refine Ends.bind h ?_
  rintro x c' ⟨vs, htook, hlen, hok, hclean⟩
  refine hnext x c' vs (h₀.trans htook) (htook.fits hc) hlen htook.faults_le hok ?_
  intro hle
  have := h₀.faults_le
  exact hclean (by omega)

/-- A part without which a rule that started at `c₀` has no node. -/
theorem finds_node {c₀ c : Cursor} {us : List Token} {m : Reading (Option β)} {n' : Nat}
    {leaves' : β → List (Leaf Token)} {S' : β → List Token → Cursor → Prop}
    {next : β → Reading (Option α)} (h₀ : Took c₀ us c) (hc : c.Fits ok)
    (h : Ends m c (Finds ok leaves' S' n' c)) (hn : n' ≤ n)
    (hnext : ∀ b c' vs, Took c₀ (us ++ vs) c' → c'.Fits ok → c'.rest.length ≤ n' →
      c.faults ≤ c'.faults → (∀ l ∈ leaves' b, ok l) →
      (c'.faults ≤ c₀.faults → S' b vs c') → Ends (next b) c' (Finds ok leaves S n c₀)) :
    Ends (Reading.onNode m next) c (Finds ok leaves S n c₀) := by
  refine finds_part h₀ hc h ?_
  intro x c' vs htook hfits hlen hfaults hok hclean
  cases x with
  | none =>
      refine Ends.pure (finds_none htook (hlen.trans hn) ?_)
      by_contra hle
      obtain ⟨b, hb, -⟩ := hclean (by omega)
      cases hb
  | some b =>
      refine hnext b c' vs htook hfits hlen hfaults (hok b rfl) ?_
      intro hle
      obtain ⟨b', hb, hS⟩ := hclean hle
      obtain rfl := Option.some.inj hb
      exact hS

/-- Taking a token of a kind if it is next. -/
theorem ends_accept {c : Cursor} {k : Token.Kind} {Q : α → Cursor → Prop}
    {next : Bool → Reading α} (hc : c.Fits ok) (hk : k ≠ .eof)
    (htaken : ∀ t c', t.kind = k → t.Legible → Took c [t] c' → c'.Fits ok →
      c'.rest.length < c.rest.length → c.faults = c'.faults → Ends (next true) c' Q)
    (hleft : c.next.kind ≠ k → Ends (next false) c Q) :
    Ends (accept k >>= next) c Q := by
  refine Ends.bind (m := accept k) (P := fun b c' =>
    (b = true ∧ c.next.kind = k ∧ c.next.Legible ∧ Took c [c.next] c' ∧
      c'.rest.length < c.rest.length ∧ c.faults = c'.faults) ∨
    (b = false ∧ c.next.kind ≠ k ∧ c' = c)) ?_ ?_
  · apply ends_peek
    split
    · rename_i hkind
      refine ends_take hc (by rw [hkind]; exact hk) ?_
      intro c' hleg _ htook _ hlen hfaults
      exact Ends.pure (.inl ⟨rfl, hkind, hleg, htook, hlen, hfaults⟩)
    · rename_i hkind
      exact Ends.pure (.inr ⟨rfl, hkind, rfl⟩)
  · rintro b c' (⟨rfl, hkind, hleg, htook, hlen, hfaults⟩ | ⟨rfl, hkind, rfl⟩)
    · exact htaken _ c' hkind hleg htook (htook.fits hc) hlen hfaults
    · exact hleft hkind

end

end Reading

end Treewalk
