import Treewalk.Proofs.Syntax.Copied

/-! # Reading inside a longer text

What a rule finds does not depend on where in a text it starts, nor on what follows the last token
that it looks at.

* A `Setting` says where a text stands in a longer one, and `w.place c` is the cursor `c` there: the
  tokens left are further on and have more tokens behind them.  It is a way of copying them
  (`Setting.copy`).
* A step cannot have seen that nothing follows at `c` if it has left some tokens, or if nothing
  follows in the longer text either (`Unseen`).
* `Echoes w f m m'` says that the step `m'` then does at `w.place c` what the step `m` does at `c`,
  and `f` takes the result of the one to that of the other.  It is what `Copies` says of such copies,
  so it holds of each rule of the grammar. -/

namespace Treewalk

@[simp] theorem Token.kind_shift (k : Nat) (t : Token) : (t.shift k).kind = t.kind := rfl

/-- A fault further on is the fault at a token further on. -/
theorem SyntaxError.map_shift (k : Nat) : SyntaxError.map (Token.shift k) = SyntaxError.shift k := by
  funext e
  cases e <;> rfl

namespace Cursor

/-- Where a text stands in a longer one: how far on it begins, the tokens behind it, and the end. -/
structure Setting where
  offset : Nat
  sequel : List Token
  finish : Token

/-- A cursor over a text as one over the longer text. -/
def Setting.place (w : Setting) (c : Cursor) : Cursor where
  rest := c.rest.map (Token.shift w.offset) ++ w.sequel
  finish := w.finish
  errors := c.errors.map (SyntaxError.shift w.offset)

/-- Nothing at a cursor shows whether more tokens follow: none does, or there is one before them. -/
def Unseen (w : Setting) (c : Cursor) : Prop :=
  (w.sequel = [] ∧ w.finish = c.finish.shift w.offset) ∨ c.rest ≠ []

/-- The tokens of the text as they stand in the longer one. -/
def Setting.copy (w : Setting) : Copy :=
  ⟨fun t => t.span.shift w.offset, w.sequel, w.finish⟩

variable {w : Setting} {c : Cursor}

theorem Setting.copy_place (w : Setting) (c : Cursor) : w.copy.place c = w.place c := by
  rw [Setting.place, ← SyntaxError.map_shift]
  rfl

theorem next_place (hc : c.Unseen w) : (w.place c).next = c.next.shift w.offset := by
  rw [← w.copy_place]
  exact Copy.Unseen.next_place hc

theorem after_place (hc : c.Unseen w) :
    Reading.after (w.place c) = w.place (Reading.after c) := by
  rw [← w.copy_place, ← w.copy_place]
  exact Copy.Unseen.after_place hc

end Cursor

namespace Reading

open Cursor Grammar

variable {α β : Type} {w : Setting} {f : α → β} {m : Reading α} {m' : Reading β}

/-- The second step does in a longer text what the first does, unless it may see what follows. -/
structure Echoes (w : Setting) (f : α → β) (m : Reading α) (m' : Reading β) : Prop where
  took {c c' : Cursor} {a : α} : Yields m c a c' → ∃ used, Took c used c'
  repeats {c c' : Cursor} {a : α} : Yields m c a c' → c'.Unseen w →
    Yields m' (w.place c) (f a) (w.place c')

theorem echoes_iff_copies : Echoes w f m m' ↔ Copies w.copy f m m' := by
  constructor
  · refine fun h => ⟨h.took, fun {c c' a} hrun hunseen => ?_⟩
    rw [w.copy_place, w.copy_place]
    exact h.repeats hrun hunseen
  · refine fun h => ⟨h.took, fun {c c' a} hrun hunseen => ?_⟩
    rw [← w.copy_place, ← w.copy_place]
    exact h.repeats hrun hunseen

theorem yields_peek_place {c : Cursor} (hc : c.Unseen w) :
    Yields peek (w.place c) (c.next.shift w.offset) (w.place c) := by
  rw [← next_place hc]
  exact yields_peek _

theorem echoes_expect (kind : Token.Kind) :
    Echoes w (Option.map (Token.shift w.offset)) (expect kind) (expect kind) :=
  echoes_iff_copies.2 (copies_expect kind)

end Reading

namespace Grammar

open Reading Cursor

/-- A reader of nested expressions that does in a longer text what another one does. -/
def Sub.Echoes (w : Setting) (sub sub' : Sub) : Prop :=
  ∀ r, Reading.Echoes w (Option.map (Expr.map (Token.shift w.offset))) (sub r) (sub' r)

variable {w : Setting} {sub sub' : Sub}

theorem Sub.Echoes.copied (h : Sub.Echoes w sub sub') : Sub.Copied w.copy sub sub' :=
  fun r => echoes_iff_copies.1 (h r)

theorem echoes_statement (h : Sub.Echoes w sub sub') :
    Reading.Echoes w (Option.map (Stmt.map (Token.shift w.offset))) (statement sub)
      (statement sub') :=
  echoes_iff_copies.2 (copies_statement h.copied)

theorem echoes_program (h : Sub.Echoes w sub sub') {n n' : Nat} (hn : n ≤ n') :
    Reading.Echoes w (List.map (Stmt.map (Token.shift w.offset))) (program sub n)
      (program sub' n') :=
  echoes_iff_copies.2 (copies_program h.copied hn)

/-- Any depth of nesting, and any larger one. -/
theorem echoes_expression {n n' : Nat} (hn : n ≤ n') :
    Sub.Echoes w (expression n) (expression n') :=
  fun r => echoes_iff_copies.2 (copies_expression hn r)

end Grammar

end Treewalk
