import Treewalk.Proofs.Syntax.Reading
import Treewalk.Syntax.Read

/-! # Reading always moves on

No sequence of tokens, however malformed, keeps the rules of the grammar from ending.

* A reader that goes `Onward` takes some tokens, one that goes `Ahead` takes at least one, and one
  that `Moves` takes at least one if any is left.
* `Both m m' c Q` says that two steps end at the cursor `c` with one result and at one place, of
  which `Q` holds.  It is preserved by the combinators.
* A loop is its `turn`, with what comes after the turn as a parameter.  What a turn does depends on
  what comes after it only at cursors ahead of its own, so a turn that is not the last has taken a
  token (`Loop.contracts`).
* The rules call each other in the order of their definitions, except through the reader for nested
  expressions.  What a rule for expressions does depends on this reader only at cursors ahead of its
  own (`strides_level`), so no cycle of calls comes back to a token.
* Any two depths and counts that are larger than the number of tokens give the same then
  (`strides_expression`, `Loop.Contracts.steps_run`). -/

namespace Treewalk

namespace Cursor

/-- A reader went from one cursor to another. -/
def Onward (c d : Cursor) : Prop :=
  ∃ used, Took c used d

/-- A reader took at least one token on its way. -/
def Ahead (c d : Cursor) : Prop :=
  ∃ t used, Took c (t :: used) d

/-- A reader took at least one token, if any was left. -/
def Moves (c d : Cursor) : Prop :=
  Onward c d ∧ (c.rest ≠ [] → Ahead c d)

variable {c d e : Cursor}

theorem Onward.refl (c : Cursor) : Onward c c :=
  ⟨[], Took.refl c⟩

theorem Onward.trans (h : Onward c d) (h' : Onward d e) : Onward c e := by
  obtain ⟨us, hus⟩ := h
  obtain ⟨vs, hvs⟩ := h'
  exact ⟨us ++ vs, hus.trans hvs⟩

theorem Onward.finish (h : Onward c d) : d.finish = c.finish := by
  obtain ⟨_, htook⟩ := h
  exact htook.finish

theorem Onward.length_le (h : Onward c d) : d.rest.length ≤ c.rest.length := by
  obtain ⟨us, htook⟩ := h
  rw [htook.length_eq]
  exact Nat.le_add_left _ _

theorem Ahead.onward (h : Ahead c d) : Onward c d := by
  obtain ⟨t, us, htook⟩ := h
  exact ⟨t :: us, htook⟩

theorem Ahead.trans_onward (h : Ahead c d) (h' : Onward d e) : Ahead c e := by
  obtain ⟨t, us, hus⟩ := h
  obtain ⟨vs, hvs⟩ := h'
  exact ⟨t, us ++ vs, hus.trans hvs⟩

theorem Onward.trans_ahead (h : Onward c d) (h' : Ahead d e) : Ahead c e := by
  obtain ⟨us, hus⟩ := h
  obtain ⟨t, vs, hvs⟩ := h'
  have htook := hus.trans hvs
  cases us with
  | nil => exact ⟨t, vs, htook⟩
  | cons u us => exact ⟨u, us ++ t :: vs, htook⟩

theorem Ahead.length_lt (h : Ahead c d) : d.rest.length < c.rest.length := by
  obtain ⟨t, us, htook⟩ := h
  rw [htook.length_eq, List.length_cons]
  omega

theorem Moves.trans_onward (h : Moves c d) (h' : Onward d e) : Moves c e :=
  ⟨h.1.trans h', fun hne => (h.2 hne).trans_onward h'⟩

theorem Ahead.moves (h : Ahead c d) : Moves c d :=
  ⟨h.onward, fun _ => h⟩

theorem onward_noting (e : SyntaxError) (c : Cursor) : Onward c (Reading.noting e c) :=
  ⟨[], Reading.took_noting e c⟩

theorem moves_after (c : Cursor) : Moves c (Reading.after c) := by
  cases hr : c.rest with
  | nil =>
      refine ⟨⟨[], ?_, rfl, List.suffix_rfl⟩, fun hne => absurd hr hne⟩
      rw [Reading.after, hr]
      rfl
  | cons t ts =>
      refine Ahead.moves ⟨t, [], ?_, rfl, List.suffix_rfl⟩
      rw [Reading.after, hr]
      rfl

/-- A token that is not the end is one of those left. -/
theorem rest_ne_nil (hend : c.finish.kind = .eof) (h : c.next.kind ≠ .eof) : c.rest ≠ [] := by
  intro hnil
  rw [next, hnil] at h
  exact h hend

theorem ahead_after (hend : c.finish.kind = .eof) (h : c.next.kind ≠ .eof) :
    Ahead c (Reading.after c) :=
  (moves_after c).2 (rest_ne_nil hend h)

end Cursor

namespace Reading

open Cursor

variable {α β : Type} {m m' : Reading α} {c : Cursor} {P Q : α → Cursor → Prop}

/-- Two steps end at a cursor with one result and at one place. -/
def Both (m m' : Reading α) (c : Cursor) (Q : α → Cursor → Prop) : Prop :=
  ∃ a d, m c = some (a, d) ∧ m' c = some (a, d) ∧ Q a d

/-- Two steps do the same and go on. -/
def Steps (m m' : Reading α) (c : Cursor) : Prop :=
  Both m m' c fun _ d => Onward c d

/-- Two steps do the same and take a token, if any is left. -/
def Strides (m m' : Reading α) (c : Cursor) : Prop :=
  Both m m' c fun _ d => Moves c d

theorem Both.mono (h : Both m m' c P) (hPQ : ∀ a d, P a d → Q a d) : Both m m' c Q := by
  obtain ⟨a, d, hm, hm', hP⟩ := h
  exact ⟨a, d, hm, hm', hPQ a d hP⟩

theorem Both.bind {f f' : α → Reading β} {Q : β → Cursor → Prop} (h : Both m m' c P)
    (hf : ∀ a d, P a d → Both (f a) (f' a) d Q) : Both (m >>= f) (m' >>= f') c Q := by
  obtain ⟨a, d, hm, hm', hP⟩ := h
  rw [Both, bind_of_eq hm, bind_of_eq hm']
  exact hf a d hP

theorem Strides.steps (h : Strides m m' c) : Steps m m' c :=
  h.mono fun _ _ hd => hd.1

theorem Steps.pure {a : α} : Steps (Pure.pure a) (Pure.pure a) c :=
  ⟨a, c, rfl, rfl, .refl c⟩

theorem Steps.report {e : SyntaxError} {a : α} :
    Steps (do report e; return a) (do report e; return a) c :=
  ⟨a, noting e c, rfl, rfl, onward_noting e c⟩

theorem Steps.bind {f f' : α → Reading β} (h : Steps m m' c)
    (hf : ∀ a d, Onward c d → Steps (f a) (f' a) d) : Steps (m >>= f) (m' >>= f') c :=
  Both.bind h fun a d hd => (hf a d hd).mono fun _ _ he => hd.trans he

theorem Steps.onNode {m m' : Reading (Option α)} {f f' : α → Reading (Option β)}
    (h : Steps m m' c) (hf : ∀ a d, Onward c d → Steps (f a) (f' a) d) :
    Steps (onNode m f) (onNode m' f') c := by
  refine h.bind fun x d hd => ?_
  cases x with
  | none => exact .pure
  | some a => exact hf a d hd

theorem Strides.bind {f f' : α → Reading β} (h : Strides m m' c)
    (hf : ∀ a d, Moves c d → Steps (f a) (f' a) d) : Strides (m >>= f) (m' >>= f') c :=
  Both.bind h fun a d hd => (hf a d hd).mono fun _ _ he => hd.trans_onward he

theorem Strides.bind_ahead {f f' : α → Reading β} (h : Strides m m' c) (hne : c.rest ≠ [])
    (hf : ∀ a d, Ahead c d → Steps (f a) (f' a) d) : Steps (m >>= f) (m' >>= f') c :=
  Both.bind h fun a d hd => (hf a d (hd.2 hne)).mono fun _ _ he => hd.1.trans he

theorem Steps.ite {p : Prop} [Decidable p] {n n' : Reading α} (h : p → Steps m m' c)
    (h' : ¬ p → Steps n n' c) : Steps (if p then m else n) (if p then m' else n') c := by
  by_cases hp : p
  · rw [if_pos hp, if_pos hp]
    exact h hp
  · rw [if_neg hp, if_neg hp]
    exact h' hp

/-! ### Single tokens -/

theorem Both.peek {f f' : Token → Reading α} (h : Both (f c.next) (f' c.next) c Q) :
    Both (peek >>= f) (peek >>= f') c Q := by
  obtain ⟨a, d, hf, hf', hQ⟩ := h
  exact ⟨a, d, hf, hf', hQ⟩

theorem Both.advance {f f' : Token → Reading α} (h : Both (f c.next) (f' c.next) (after c) Q) :
    Both (advance >>= f) (advance >>= f') c Q := by
  obtain ⟨a, d, hf, hf', hQ⟩ := h
  exact ⟨a, d, hf, hf', hQ⟩

theorem steps_accept (k : Token.Kind) : Steps (accept k) (accept k) c := by
  refine Both.peek ?_
  by_cases hkind : c.next.kind = k
  · rw [if_pos hkind]
    exact ⟨true, after c, rfl, rfl, (moves_after c).1⟩
  · rw [if_neg hkind]
    exact Steps.pure

theorem steps_expect (k : Token.Kind) : Steps (expect k) (expect k) c := by
  refine Both.peek ?_
  by_cases hkind : c.next.kind = k
  · rw [if_pos hkind]
    exact ⟨_, after c, rfl, rfl, (moves_after c).1⟩
  · rw [if_neg hkind]
    exact Steps.report

theorem steps_skipSemicolon : Steps skipSemicolon skipSemicolon c :=
  (steps_accept .semicolon).bind fun _ _ _ => .pure

/-- What is accepted is taken, if it is not the end. -/
theorem Steps.accept {k : Token.Kind} {f f' : Bool → Reading α} (hend : c.finish.kind = .eof)
    (hk : k ≠ .eof) (htaken : ∀ d, Ahead c d → Steps (f true) (f' true) d)
    (hleft : Steps (f false) (f' false) c) :
    Steps (accept k >>= f) (accept k >>= f') c := by
  refine Both.bind (P := fun b d => (b = true ∧ Ahead c d) ∨ (b = false ∧ d = c)) ?_ ?_
  · refine Both.peek ?_
    by_cases hkind : c.next.kind = k
    · rw [if_pos hkind]
      exact ⟨true, after c, rfl, rfl, .inl ⟨rfl, ahead_after hend (hkind ▸ hk)⟩⟩
    · rw [if_neg hkind]
      exact ⟨false, c, rfl, rfl, .inr ⟨rfl, rfl⟩⟩
  · rintro b d (⟨rfl, hd⟩ | ⟨rfl, rfl⟩)
    · exact (htaken d hd).mono fun _ _ he => hd.onward.trans he
    · exact hleft

/-- What is expected and found is taken, if it is not the end. -/
theorem Steps.expect {k : Token.Kind} {f f' : Token → Reading (Option α)}
    (hend : c.finish.kind = .eof) (hk : k ≠ .eof)
    (htaken : ∀ t d, Ahead c d → Steps (f t) (f' t) d) :
    Steps (Reading.onNode (expect k) f) (Reading.onNode (expect k) f') c := by
  refine Both.bind (P := fun x d => (∃ t, x = some t ∧ Ahead c d) ∨ (x = none ∧ Onward c d)) ?_ ?_
  · refine Both.peek ?_
    by_cases hkind : c.next.kind = k
    · rw [if_pos hkind]
      exact ⟨_, after c, rfl, rfl, .inl ⟨_, rfl, ahead_after hend (hkind ▸ hk)⟩⟩
    · rw [if_neg hkind]
      exact ⟨none, _, rfl, rfl, .inr ⟨rfl, onward_noting _ c⟩⟩
  · rintro x d (⟨t, rfl, hd⟩ | ⟨rfl, hd⟩)
    · exact (htaken t d hd).mono fun _ _ he => hd.onward.trans he
    · exact ⟨none, d, rfl, rfl, hd⟩

end Reading

namespace Grammar

open Reading Cursor

/-- Two readers of nested expressions that do the same from a cursor on, and counts that are large
enough for the tokens there. -/
structure Ready (sub sub' : Sub) (n n' : Nat) (c : Cursor) : Prop where
  finish : c.finish.kind = .eof
  strides : ∀ r d, Onward c d → Strides (sub r) (sub' r) d
  lt : c.rest.length < n
  lt' : c.rest.length < n'

section

variable {sub sub' : Sub} {n n' : Nat} {c d : Cursor}

theorem Ready.onward (h : Ready sub sub' n n' c) (hd : Onward c d) : Ready sub sub' n n' d where
  finish := by rw [hd.finish, h.finish]
  strides r e he := h.strides r e (hd.trans he)
  lt := hd.length_le.trans_lt h.lt
  lt' := hd.length_le.trans_lt h.lt'

theorem Ready.ahead (h : Ready sub sub' (n + 1) (n' + 1) c) (hd : Ahead c d) :
    Ready sub sub' n n' d where
  finish := by rw [hd.onward.finish, h.finish]
  strides r e he := h.strides r e (hd.onward.trans he)
  lt := Nat.lt_of_lt_of_le hd.length_lt (Nat.le_of_lt_succ h.lt)
  lt' := Nat.lt_of_lt_of_le hd.length_lt (Nat.le_of_lt_succ h.lt')

theorem Ready.read (h : Ready sub sub' n n' c) (r : Rank) : Strides (sub r) (sub' r) c :=
  h.strides r c (.refl c)

/-! ### Statements -/

/-- A value and the semicolon that may follow it. -/
theorem strides_value (h : Ready sub sub' n n' c) (make : Expr Token → Stmt Token) :
    Strides (do let value ← sub .lowest; skipSemicolon; return value.map make)
      (do let value ← sub' .lowest; skipSemicolon; return value.map make) c :=
  (h.read .lowest).bind fun _ _ _ => steps_skipSemicolon.bind fun _ _ _ => .pure

theorem steps_binding (h : Ready sub sub' n n' c) (mark : Token) :
    Steps (binding sub mark) (binding sub' mark) c :=
  (steps_expect .ident).onNode fun _ _ hd => (steps_expect .assign).onNode fun _ _ he =>
    (strides_value (h.onward (hd.trans he)) _).steps

theorem steps_returning (h : Ready sub sub' n n' c) (mark : Token) :
    Steps (returning sub mark) (returning sub' mark) c :=
  Both.peek (Steps.ite (fun _ => steps_skipSemicolon.bind fun _ _ _ => .pure)
    fun _ => (strides_value h _).steps)

theorem strides_exprStatement (h : Ready sub sub' n n' c) :
    Strides (exprStatement sub) (exprStatement sub') c :=
  Both.peek (strides_value h _)

/-- A step after a word that has been taken. -/
theorem strides_of_steps_after {α : Type} {f f' : Token → Reading α}
    (h : Steps (f c.next) (f' c.next) (after c)) :
    Strides (advance >>= f) (advance >>= f') c :=
  Both.advance (h.mono fun _ _ he => (moves_after c).trans_onward he)

theorem strides_statement (h : Ready sub sub' n n' c) :
    Strides (statement sub) (statement sub') c := by
  have hafter := h.onward (moves_after c).1
  refine Both.peek ?_
  cases c.next.kind with
  | letWord => exact strides_of_steps_after (steps_binding hafter _)
  | returnWord => exact strides_of_steps_after (steps_returning hafter _)
  | _ => exact strides_exprStatement h

end

/-! ### Turns of the loops -/

/-- A turn of `program`. -/
def programTurn (sub : Sub) (again : Reading (Program Token)) : Reading (Program Token) := do
  let next ← peek
  if next.kind = .eof then return []
  else
    let s ← statement sub
    let ss ← again
    return s.toList ++ ss

/-- A turn of `blockBody`. -/
def blockTurn (sub : Sub) (again : Reading (Option (List (Stmt Token)))) :
    Reading (Option (List (Stmt Token))) := do
  let next ← peek
  if next.kind = .rbrace then
    let _ ← advance
    return some []
  else if next.kind = .eof then
    report (.unexpected .rbrace next)
    return none
  else
    let s ← statement sub
    let ss ← again
    return ss.map (s.toList ++ ·)

/-- A turn of `items`. -/
def itemsTurn (sub : Sub) (close : Token.Kind) (again : Reading (Option (List (Expr Token)))) :
    Reading (Option (List (Expr Token))) := do
  let e ← sub .lowest
  if ← accept .comma then
    let es ← again
    return e.bind fun e => es.map (e :: ·)
  else
    onNode (expect close) fun _ => return e.map ([·])

/-- A turn of `names`. -/
def namesTurn (again : Reading (Option (List (Ident Token)))) :
    Reading (Option (List (Ident Token))) :=
  onNode (expect .ident) fun t => do
    if ← accept .comma then
      let ts ← again
      return ts.map (⟨t, t.literal⟩ :: ·)
    else
      onNode (expect .rparen) fun _ => return some [⟨t, t.literal⟩]

/-- A turn of `entries`. -/
def entriesTurn (sub : Sub) (again : Reading (Option (List (Expr Token × Expr Token)))) :
    Reading (Option (List (Expr Token × Expr Token))) := do
  if ← accept .rbrace then return some []
  else
    let key ← sub .lowest
    onNode (expect .colon) fun _ => do
      let value ← sub .lowest
      match key, value with
      | some key, some value =>
        let next ← peek
        if next.kind = .rbrace then
          let es ← again
          return es.map ((key, value) :: ·)
        else
          onNode (expect .comma) fun _ => do
            let es ← again
            return es.map ((key, value) :: ·)
      | _, _ => return none

/-- A turn of `climb`. -/
def climbTurn (sub : Sub) (n : Nat) (r : Rank)
    (again : Expr Token → Reading (Option (Expr Token))) (left : Expr Token) :
    Reading (Option (Expr Token)) := do
  let next ← peek
  match Tail.ofKind? next.kind with
  | some tail =>
    if r.level < tail.rank.level then
      let _ ← advance
      onNode (extend sub n next left tail) again
    else return some left
  | none => return some left

/-- The loops of the grammar. -/
inductive Loop
  | program | block | items (close : Token.Kind) | names | entries | climb (r : Rank)

namespace Loop

/-- What a loop carries from one turn to the next. -/
def State : Loop → Type
  | climb _ => Expr Token
  | _ => Unit

def Result : Loop → Type
  | program => Program Token
  | block => Option (List (Stmt Token))
  | items _ => Option (List (Expr Token))
  | names => Option (List (Ident Token))
  | entries => Option (List (Expr Token × Expr Token))
  | climb _ => Option (Expr Token)

/-- A loop of at most `n` turns. -/
def run (sub : Sub) (n : Nat) : (k : Loop) → k.State → Reading k.Result
  | program, _ => Grammar.program sub n
  | block, _ => blockBody sub n
  | items close, _ => Grammar.items sub close n
  | names, _ => Grammar.names n
  | entries, _ => Grammar.entries sub n
  | climb r, left => Grammar.climb sub n r left

/-- A turn before at most `n` others, which are `again`. -/
def turn (sub : Sub) (n : Nat) :
    (k : Loop) → (k.State → Reading k.Result) → k.State → Reading k.Result
  | program, again, _ => programTurn sub (again ())
  | block, again, _ => blockTurn sub (again ())
  | items close, again, _ => itemsTurn sub close (again ())
  | names, again, _ => namesTurn (again ())
  | entries, again, _ => entriesTurn sub (again ())
  | climb r, again, left => climbTurn sub n r again left

/-- A loop does one turn after the other. -/
theorem run_succ (sub : Sub) (n : Nat) (k : Loop) :
    k.run sub (n + 1) = k.turn sub n (k.run sub n) := by
  cases k <;> rfl

end Loop

/-- A turn of a loop does the same with all that may come after it, as long as this does the same at
the cursors ahead. -/
def Loop.Contracts (k : Loop) (sub sub' : Sub) : Prop :=
  ∀ ⦃n n' c⦄ ⦃again again' : k.State → Reading k.Result⦄, Ready sub sub' (n + 1) (n' + 1) c →
    (∀ s d, Ahead c d → Steps (again s) (again' s) d) →
      ∀ s, Steps (k.turn sub n again s) (k.turn sub' n' again' s) c

section

variable {sub sub' : Sub} {n n' : Nat} {c : Cursor}

/-- A loop ends, whatever the count, if this is larger than the number of tokens. -/
theorem Loop.Contracts.steps_run {k : Loop} (hk : k.Contracts sub sub')
    (h : Ready sub sub' n n' c) (s : k.State) : Steps (k.run sub n s) (k.run sub' n' s) c := by
  induction n generalizing n' c s with
  | zero => exact absurd h.lt (Nat.not_lt_zero _)
  | succ n ih =>
      obtain ⟨n', rfl⟩ := Nat.exists_eq_add_one.2 (Nat.zero_lt_of_lt h.lt')
      rw [Loop.run_succ, Loop.run_succ]
      exact hk h (fun s d hd => ih (h.ahead hd) s) s

theorem contracts_program : Loop.program.Contracts sub sub' := by
  intro n n' c again again' h hagain s
  refine Both.peek (Steps.ite (fun _ => .pure) fun heof => ?_)
  exact (strides_statement h).bind_ahead (rest_ne_nil h.finish heof) fun _ d hd =>
    (hagain () d hd).bind fun _ _ _ => .pure

theorem steps_program (h : Ready sub sub' n n' c) : Steps (program sub n) (program sub' n') c :=
  contracts_program.steps_run h ()

theorem contracts_block : Loop.block.Contracts sub sub' := by
  intro n n' c again again' h hagain s
  refine Both.peek (Steps.ite (fun _ => ?_) fun _ => Steps.ite (fun _ => .report) fun heof => ?_)
  · exact (strides_of_steps_after (f := fun _ => Pure.pure (some [])) .pure).steps
  · exact (strides_statement h).bind_ahead (rest_ne_nil h.finish heof) fun _ d hd =>
      (hagain () d hd).bind fun _ _ _ => .pure

theorem contracts_items (close : Token.Kind) : (Loop.items close).Contracts sub sub' := by
  intro n n' c again again' h hagain s
  refine (h.read .lowest).steps.bind fun x d hd => ?_
  -- Even where no expression was found, the comma before the next turn has been taken.
  refine .accept (h.onward hd).finish (by decide) (fun e he => ?_) ?_
  · exact (hagain () e (hd.trans_ahead he)).bind fun _ _ _ => .pure
  · exact (steps_expect close).onNode fun _ _ _ => .pure

theorem contracts_names : Loop.names.Contracts sub sub' := by
  intro n n' c again again' h hagain s
  refine (steps_expect .ident).onNode fun t d hd => ?_
  refine .accept (h.onward hd).finish (by decide) (fun e he => ?_) ?_
  · exact (hagain () e (hd.trans_ahead he)).bind fun _ _ _ => .pure
  · exact (steps_expect .rparen).onNode fun _ _ _ => .pure

theorem contracts_entries : Loop.entries.Contracts sub sub' := by
  intro n n' c again again' h hagain s
  have hrest : ∀ (e : Expr Token × Expr Token) d, Ahead c d →
      Steps (do let es ← again (); return es.map (e :: ·))
        (do let es ← again' (); return es.map (e :: ·)) d :=
    fun e d hd => (hagain () d hd).bind fun _ _ _ => .pure
  refine (steps_accept .rbrace).bind fun b c₁ h₁ => Steps.ite (fun _ => .pure) fun _ => ?_
  refine ((h.onward h₁).read .lowest).steps.bind fun key c₂ h₂ => ?_
  have h₂ := h₁.trans h₂
  -- The colon is what keeps an entry from being empty.
  refine .expect (h.onward h₂).finish (by decide) fun _ c₃ h₃ => ?_
  have h₃ := h₂.trans_ahead h₃
  refine ((h.onward h₃.onward).read .lowest).steps.bind fun value c₄ h₄ => ?_
  have h₄ := h₃.trans_onward h₄
  cases key with
  | none => exact .pure
  | some key =>
      cases value with
      | none => exact .pure
      | some value =>
          refine Both.peek (Steps.ite (fun _ => hrest _ c₄ h₄) fun _ => ?_)
          exact (steps_expect .comma).onNode fun _ d hd => hrest _ d (h₄.trans_onward hd)

/-! ### Expressions -/

theorem steps_block (h : Ready sub sub' n n' c) : Steps (block sub n) (block sub' n') c :=
  (steps_expect .lbrace).onNode fun _ _ hd =>
    (contracts_block.steps_run (h.onward hd) ()).bind fun _ _ _ => .pure

theorem steps_list (h : Ready sub sub' n n' c) (close : Token.Kind) :
    Steps (list sub close n) (list sub' close n') c :=
  (steps_accept close).bind fun _ _ hd =>
    Steps.ite (fun _ => .pure) fun _ => (contracts_items close).steps_run (h.onward hd) ()

theorem steps_params (h : Ready sub sub' n n' c) : Steps (params n) (params n') c :=
  (steps_expect .lparen).onNode fun _ _ hd => (steps_accept .rparen).bind fun _ _ he =>
    Steps.ite (fun _ => .pure) fun _ => contracts_names.steps_run (h.onward (hd.trans he)) ()

theorem steps_conditional (h : Ready sub sub' n n' c) (mark : Token) :
    Steps (conditional sub n mark) (conditional sub' n' mark) c := by
  refine (steps_expect .lparen).onNode fun _ _ hd => ?_
  have h := h.onward hd
  refine (h.read .lowest).steps.bind fun _ _ hd => (steps_expect .rparen).onNode fun _ _ he => ?_
  have h := h.onward (hd.trans he)
  refine (steps_block h).onNode fun _ _ hd => (steps_accept .elseWord).bind fun _ _ he =>
    Steps.ite (fun _ => ?_) fun _ => .pure
  exact (steps_block (h.onward (hd.trans he))).onNode fun _ _ _ => .pure

theorem steps_function (h : Ready sub sub' n n' c) (mark : Token) :
    Steps (function sub n mark) (function sub' n' mark) c :=
  (steps_params h).onNode fun _ _ hd => (steps_block (h.onward hd)).onNode fun _ _ _ => .pure

theorem steps_grouped (h : Ready sub sub' n n' c) : Steps (grouped sub) (grouped sub') c :=
  (h.read .lowest).steps.bind fun _ _ _ => (steps_expect .rparen).onNode fun _ _ _ => .pure

theorem steps_number (t : Token) : Steps (number t) (number t) c := by
  unfold number
  cases Integer.ofDigits? t.literal.toList with
  | some v => exact .pure
  | none => exact .report

/-- A primary takes the token that it starts with. -/
theorem both_primary (hne : c.rest ≠ []) (h : Ready sub sub' n n' (after c)) :
    Both (primary sub n) (primary sub' n') c fun _ d => Ahead c d := by
  suffices hsteps : Both (primary sub n) (primary sub' n') c fun _ d => Onward (after c) d from
    hsteps.mono fun _ _ hd => ((moves_after c).2 hne).trans_onward hd
  have hunary : ∀ op t, Steps (onNode (sub .prefixed) fun e => return some (Expr.unary t op e))
      (onNode (sub' .prefixed) fun e => return some (Expr.unary t op e)) (after c) :=
    fun _ _ => (h.read .prefixed).steps.onNode fun _ _ _ => .pure
  refine Both.advance ?_
  cases c.next.kind with
  | ident => exact Steps.pure
  | int => exact steps_number c.next
  | string => exact Steps.pure
  | trueWord => exact Steps.pure
  | falseWord => exact Steps.pure
  | bang => exact hunary .not c.next
  | minus => exact hunary .neg c.next
  | lparen => exact steps_grouped h
  | ifWord => exact steps_conditional h c.next
  | fnWord => exact steps_function h c.next
  | lbracket => exact (steps_list h .rbracket).onNode fun _ _ _ => .pure
  | lbrace => exact (contracts_entries.steps_run h ()).onNode fun _ _ _ => .pure
  | _ => exact Steps.report

/-- Where nothing is left, a primary is not found, and no part of it is looked for. -/
theorem both_primary_of_nil (hend : c.finish.kind = .eof) (hnil : c.rest = []) :
    Both (primary sub n) (primary sub' n') c fun x d => x = none ∧ Moves c d := by
  have hkind : c.next.kind = .eof := by
    rw [next, hnil]
    exact hend
  -- The end can be taken any number of times, but it starts no primary.
  refine Both.advance ?_
  rw [hkind]
  exact ⟨none, _, rfl, rfl, rfl, (moves_after c).trans_onward (onward_noting _ _)⟩

theorem steps_extend (h : Ready sub sub' n n' c) (mark : Token) (left : Expr Token) (tail : Tail) :
    Steps (extend sub n mark left tail) (extend sub' n' mark left tail) c := by
  cases tail with
  | binary op => exact (h.read op.rank).steps.onNode fun _ _ _ => .pure
  | call => exact (steps_list h .rparen).onNode fun _ _ _ => .pure
  | index =>
      exact (h.read .lowest).steps.bind fun _ _ _ =>
        (steps_expect .rbracket).onNode fun _ _ _ => .pure

theorem contracts_climb (r : Rank) : (Loop.climb r).Contracts sub sub' := by
  intro n n' c again again' h hagain left
  refine Both.peek ?_
  cases htail : Tail.ofKind? c.next.kind with
  | none => exact Steps.pure
  | some tail =>
      have hkind : c.next.kind ≠ .eof := by
        intro heof
        rw [heof] at htail
        cases htail
      have hd := ahead_after h.finish hkind
      refine Steps.ite (fun _ => Both.advance ?_) fun _ => .pure
      refine ((steps_extend (h.ahead hd) c.next left tail).onNode fun e d he => ?_).mono
        fun _ _ he => hd.onward.trans he
      exact hagain e d (hd.trans_onward he)

/-- Every loop of the grammar. -/
theorem Loop.contracts (k : Loop) : k.Contracts sub sub' := by
  cases k with
  | program => exact contracts_program
  | block => exact contracts_block
  | items close => exact contracts_items close
  | names => exact contracts_names
  | entries => exact contracts_entries
  | climb r => exact contracts_climb r

end

/-- The rule for expressions, over a reader for the expressions nested in them. -/
def level (sub : Sub) (n : Nat) : Sub := fun r =>
  onNode (primary sub n) (climb sub n r)

theorem expression_succ (n : Nat) : expression (n + 1) = level (expression n) n :=
  rfl

section

variable {sub sub' : Sub} {n n' : Nat} {c : Cursor}

/-- An expression that begins at a cursor looks for nested ones only at cursors ahead. -/
theorem strides_level (hend : c.finish.kind = .eof) (hn : c.rest.length ≤ n)
    (hn' : c.rest.length ≤ n') (h : ∀ r d, Ahead c d → Strides (sub r) (sub' r) d) (r : Rank) :
    Strides (level sub n r) (level sub' n' r) c := by
  by_cases hnil : c.rest = []
  · refine (both_primary_of_nil hend hnil).bind ?_
    rintro _ d ⟨rfl, hd⟩
    exact ⟨none, d, rfl, rfl, hd⟩
  · have hready : ∀ d, Ahead c d → Ready sub sub' n n' d := fun d hd =>
      ⟨by rw [hd.onward.finish, hend], fun r e he => h r e (hd.trans_onward he),
        hd.length_lt.trans_le hn, hd.length_lt.trans_le hn'⟩
    have hafter := (moves_after c).2 hnil
    refine (both_primary hnil (hready _ hafter)).bind fun x d hd => ?_
    cases x with
    | none => exact ⟨none, d, rfl, rfl, hd.moves⟩
    | some left =>
        exact ((contracts_climb r).steps_run (hready d hd) left).mono fun _ _ he =>
          (hd.trans_onward he).moves

/-- Any two depths that are larger than the number of tokens are one. -/
theorem strides_expression {depth depth' : Nat} (hend : c.finish.kind = .eof)
    (hdepth : c.rest.length < depth) (hdepth' : c.rest.length < depth') (r : Rank) :
    Strides (expression depth r) (expression depth' r) c := by
  induction depth generalizing depth' c r with
  | zero => exact absurd hdepth (Nat.not_lt_zero _)
  | succ depth ih =>
      obtain ⟨depth', rfl⟩ := Nat.exists_eq_add_one.2 (Nat.zero_lt_of_lt hdepth')
      rw [expression_succ, expression_succ]
      have hle := Nat.le_of_lt_succ hdepth
      have hle' := Nat.le_of_lt_succ hdepth'
      refine strides_level hend hle hle' (fun r d hd => ?_) r
      have hlt := hd.length_lt
      exact ih (by rw [hd.onward.finish, hend]) (hlt.trans_le hle) (hlt.trans_le hle') r

theorem ready_expression {depth depth' : Nat} (hend : c.finish.kind = .eof)
    (hdepth : c.rest.length < depth) (hdepth' : c.rest.length < depth') (hn : c.rest.length < n)
    (hn' : c.rest.length < n') : Ready (expression depth) (expression depth') n n' c where
  finish := hend
  strides r d hd := strides_expression (by rw [hd.finish, hend]) (hd.length_le.trans_lt hdepth)
    (hd.length_le.trans_lt hdepth') r
  lt := hn
  lt' := hn'

/-- A program is left at the end only. -/
theorem next_of_program {p : Program Token} {d : Cursor} (h : program sub n c = some (p, d)) :
    d.next.kind = .eof := by
  induction n generalizing c p with
  | zero => cases h
  | succ n ih =>
      rw [program, bind_of_eq (show peek c = some (c.next, c) from rfl)] at h
      split at h
      · rename_i heof
        cases h
        exact heof
      · obtain ⟨⟨s, c₁⟩, -, h⟩ := Option.bind_eq_some_iff.1 h
        obtain ⟨⟨ss, c₂⟩, hrest, h⟩ := Option.bind_eq_some_iff.1 h
        cases h
        exact ih hrest

end

/-- **Reading comes to an end.**  Let the end of some tokens, whatever they are, be marked by a
token of its kind, which can be taken any number of times.

* The rule for programs ends with this kind next, or with no token left if none of them has it.  Any
  two depths of nesting and counts of turns that are larger than the number of tokens give this.
* A turn of a loop comes to an end, and what follows it in the loop can make a difference only by
  what it does at cursors ahead of where the turn began.  So where no token is left the turn is the
  last.
* The rule for expressions, through which the rules come back to each other, comes to an end too,
  and a reader for the expressions nested in it can make a difference only by what it does at
  cursors ahead. -/
theorem reading_ends :
    (∀ ts finish, finish.kind = .eof →
      ∃ p c, Onward ⟨ts, finish, []⟩ c ∧ c.next.kind = .eof ∧
        ((∀ t ∈ ts, t.kind ≠ .eof) → c.rest = []) ∧
        parseTokens ts finish = ⟨p, c.errors.reverse⟩ ∧
        ∀ depth count, ts.length < depth → ts.length < count →
          program (expression depth) count ⟨ts, finish, []⟩ = some (p, c)) ∧
    (∀ (k : Loop) c depth n again again' s, c.finish.kind = .eof → c.rest.length < depth →
      c.rest.length ≤ n → (∀ s d, Ahead c d → Steps (again s) (again' s) d) →
        k.run (expression depth) (n + 1) =
            k.turn (expression depth) n (k.run (expression depth) n) ∧
        Steps (k.turn (expression depth) n again s) (k.turn (expression depth) n again' s) c) ∧
    ∀ sub sub' n r c, c.finish.kind = .eof → c.rest.length ≤ n →
      (∀ r d, Ahead c d → Strides (sub r) (sub' r) d) →
        expression (n + 1) = level (expression n) n ∧
        Strides (level sub n r) (level sub' n r) c := by
  refine ⟨fun ts finish hend => ?_, ?_, ?_⟩
  · have hlt : ts.length < ts.length + 1 := Nat.lt_succ_self _
    have hboth : ∀ depth count, ts.length < depth → ts.length < count →
        Steps (program (expression (ts.length + 1)) (ts.length + 1))
          (program (expression depth) count) ⟨ts, finish, []⟩ := fun depth count hdepth hcount =>
      steps_program (ready_expression hend hlt hdepth hlt hcount)
    obtain ⟨p, c, hrun, -, honward⟩ := hboth _ _ hlt hlt
    have heof := next_of_program hrun
    refine ⟨p, c, honward, heof, fun hts => ?_, ?_, fun depth count hdepth hcount => ?_⟩
    · obtain ⟨used, htook⟩ := honward
      have hrest : ts = used ++ c.rest := htook.rest
      by_contra hne
      obtain ⟨t, us, hr⟩ := List.exists_cons_of_ne_nil hne
      rw [next, hr] at heof
      exact hts t (by rw [hrest, hr]; simp) heof
    · rw [parseTokens, hrun]
    · obtain ⟨p', c', hrun', hsame, -⟩ := hboth depth count hdepth hcount
      rw [hsame, ← hrun', hrun]
  · intro k c depth n again again' s hend hdepth hn hagain
    have hlt := Nat.lt_succ_of_le hn
    exact ⟨k.run_succ _ n,
      k.contracts (ready_expression hend hdepth hdepth hlt hlt) hagain s⟩
  · intro sub sub' n r c hend hn h
    exact ⟨expression_succ n, strides_level hend hn hn h r⟩

/-- The tokens of `fn(a, {`, none of whose brackets is closed. -/
def unclosed : List Token :=
  [⟨.fnWord, "fn", ⟨0, 2⟩⟩, ⟨.lparen, "(", ⟨2, 3⟩⟩, ⟨.ident, "a", ⟨3, 4⟩⟩, ⟨.comma, ",", ⟨4, 5⟩⟩,
    ⟨.lbrace, "\x7b", ⟨6, 7⟩⟩]

/-- Brackets that are never closed are read to the end, at which the loop for the entries of a
table is left whatever would come after this turn. -/
theorem reading_ends_unclosed :
    (∃ p c, c.next.kind = .eof ∧ c.rest = [] ∧
      ∀ depth count, 5 < depth → 5 < count →
        program (expression depth) count ⟨unclosed, ⟨.eof, "", ⟨7, 7⟩⟩, []⟩ = some (p, c)) ∧
    (∀ again again' s, Steps (Loop.entries.turn (expression 1) 0 again s)
      (Loop.entries.turn (expression 1) 0 again' s) ⟨[], ⟨.eof, "", ⟨7, 7⟩⟩, []⟩) ∧
    Strides (level (expression 5) 5 .lowest) (level (expression 9) 5 .lowest)
      ⟨unclosed, ⟨.eof, "", ⟨7, 7⟩⟩, []⟩ := by
  obtain ⟨hprogram, hturn, hlevel⟩ := reading_ends
  obtain ⟨p, c, -, heof, hrest, -, hall⟩ := hprogram unclosed ⟨.eof, "", ⟨7, 7⟩⟩ rfl
  refine ⟨⟨p, c, heof, hrest (by decide), hall⟩, fun again again' s => ?_, ?_⟩
  · refine (hturn .entries _ 1 0 again again' s rfl (by decide) (by decide) ?_).2
    rintro _ d ⟨t, used, htook⟩
    cases htook.rest
  · refine (hlevel _ _ 5 .lowest _ rfl (by decide) fun r d hd => ?_).2
    have hlt : d.rest.length < 5 := hd.length_lt
    exact strides_expression (by rw [hd.onward.finish]) hlt (by omega) r

end Grammar

end Treewalk
