import Treewalk.Proofs.Syntax.Seams

/-! # Reading copied tokens

What a rule finds depends on the kinds and literals of the tokens it looks at, and on nothing else: not
on where they stand, nor on what follows the last of them.

* A `Copy` puts tokens in other places, and says which tokens follow them there.  `w.place c` is the
  cursor `c` among the copies.
* A step cannot have seen that nothing follows at `c` if it has left some tokens, or if nothing
  follows among the copies either (`Unseen`).
* `Copies w f m m'` says that the step `m'` then does at `w.place c` what the step `m` does at `c`,
  and `f` takes the result of the one to that of the other.  It is preserved by the combinators.  It
  holds of each rule of the grammar, also with larger counts, if it holds of the readers for nested
  expressions (`Sub.Copied`). -/

namespace Treewalk

/-- The same fault at another token. -/
def SyntaxError.map (f : Token → Token) : SyntaxError → SyntaxError
  | unexpected k t => unexpected k (f t)
  | noExpression t => noExpression (f t)
  | integerRange t => integerRange (f t)

namespace Cursor

/-- Where the copies of tokens stand, the tokens that follow them, and the end. -/
structure Copy where
  span : Token → Span
  sequel : List Token
  finish : Token

namespace Copy

/-- The copy of a token. -/
def token (w : Copy) (t : Token) : Token :=
  { t with span := w.span t }

@[simp] theorem kind_token (w : Copy) (t : Token) : (w.token t).kind = t.kind := rfl

@[simp] theorem literal_token (w : Copy) (t : Token) : (w.token t).literal = t.literal := rfl

/-- A cursor as one among the copies. -/
def place (w : Copy) (c : Cursor) : Cursor where
  rest := c.rest.map w.token ++ w.sequel
  finish := w.finish
  errors := c.errors.map (SyntaxError.map w.token)

/-- Nothing at a cursor shows whether more tokens follow: none does, or there is one before them. -/
def Unseen (w : Copy) (c : Cursor) : Prop :=
  (w.sequel = [] ∧ w.finish = w.token c.finish) ∨ c.rest ≠ []

variable {w : Copy} {c c' : Cursor}

theorem Unseen.of_took {used : List Token} (h : Took c used c') (hc' : w.Unseen c') :
    w.Unseen c := by
  refine hc'.imp (fun hend => ⟨hend.1, by rw [hend.2, h.finish]⟩) fun hne hnil => hne ?_
  have hrest := h.rest
  rw [hnil] at hrest
  exact (List.append_eq_nil_iff.1 hrest.symm).2

theorem Unseen.next_place (hc : w.Unseen c) : (w.place c).next = w.token c.next := by
  rw [Cursor.next, Cursor.next, Copy.place]
  cases hr : c.rest with
  | nil =>
      obtain ⟨hnil, hfinish⟩ := hc.resolve_right fun hne => hne hr
      rw [hnil]
      exact hfinish
  | cons t ts => rfl

theorem Unseen.after_place (hc : w.Unseen c) :
    Reading.after (w.place c) = w.place (Reading.after c) := by
  rw [Reading.after, Reading.after, Copy.place, Copy.place]
  cases hr : c.rest with
  | nil =>
      obtain ⟨hnil, -⟩ := hc.resolve_right fun hne => hne hr
      rw [hnil]
      rfl
  | cons t ts => rfl

end Copy

end Cursor

namespace Reading

open Cursor Grammar

variable {α β γ δ : Type} {w : Copy} {f : α → β} {g : γ → δ} {m n : Reading α}
  {m' n' : Reading β}

/-- The second step does among the copies what the first does, unless it may see what follows. -/
structure Copies (w : Copy) (f : α → β) (m : Reading α) (m' : Reading β) : Prop where
  took {c c' : Cursor} {a : α} : Yields m c a c' → ∃ used, Took c used c'
  repeats {c c' : Cursor} {a : α} : Yields m c a c' → w.Unseen c' →
    Yields m' (w.place c) (f a) (w.place c')

theorem Copies.stuck : Copies w f stuck m' where
  took := by rintro c c' a ⟨⟩
  repeats := by rintro c c' a ⟨⟩

theorem Copies.pure {a : α} {b : β} (hb : b = f a) :
    Copies w f (Pure.pure a) (Pure.pure b) where
  took := by
    rintro c _ _ ⟨⟩
    exact ⟨[], Took.refl c⟩
  repeats := by
    rintro c _ _ ⟨⟩ -
    rw [hb]
    rfl

theorem Copies.bind {p : α → Reading γ} {p' : β → Reading δ} (h : Copies w f m m')
    (hp : ∀ a, Copies w g (p a) (p' (f a))) : Copies w g (m >>= p) (m' >>= p') where
  took := by
    intro c c'' b hrun
    obtain ⟨a, c', hm, hnext⟩ := exists_of_bind hrun
    obtain ⟨us, hus⟩ := h.took hm
    obtain ⟨vs, hvs⟩ := (hp a).took hnext
    exact ⟨us ++ vs, hus.trans hvs⟩
  repeats := by
    intro c c'' b hrun hunseen
    obtain ⟨a, c', hm, hnext⟩ := exists_of_bind hrun
    obtain ⟨vs, hvs⟩ := (hp a).took hnext
    exact (h.repeats hm (hunseen.of_took hvs)).bind ((hp a).repeats hnext hunseen)

theorem Copies.onNode {p : α → Reading (Option γ)} {p' : β → Reading (Option δ)}
    {m : Reading (Option α)} {m' : Reading (Option β)} (h : Copies w (Option.map f) m m')
    (hp : ∀ a, Copies w (Option.map g) (p a) (p' (f a))) :
    Copies w (Option.map g) (onNode m p) (onNode m' p') := by
  refine h.bind fun x => ?_
  cases x with
  | none => exact Copies.pure rfl
  | some a => exact hp a

theorem Copies.ite {c : Prop} [Decidable c] (h : Copies w f m m') (h' : Copies w f n n') :
    Copies w f (if c then m else n) (if c then m' else n') := by
  by_cases hc : c
  · rw [if_pos hc, if_pos hc]
    exact h
  · rw [if_neg hc, if_neg hc]
    exact h'

/-! ### Single tokens -/

theorem yields_peek_copied {c : Cursor} (hc : w.Unseen c) :
    Yields peek (w.place c) (w.token c.next) (w.place c) := by
  rw [← hc.next_place]
  exact yields_peek _

theorem copies_peek : Copies w w.token peek peek where
  took := by
    rintro c _ _ ⟨⟩
    exact ⟨[], Took.refl c⟩
  repeats := by
    rintro c _ _ ⟨⟩ hunseen
    exact yields_peek_copied hunseen

theorem exists_took_after (c : Cursor) : ∃ used, Took c used (after c) := by
  refine ⟨c.rest.take 1, ?_, rfl, List.suffix_rfl⟩
  rw [after, ← List.drop_one, List.take_append_drop]

theorem copies_advance : Copies w w.token advance advance where
  took := by
    rintro c _ _ ⟨⟩
    exact exists_took_after c
  repeats := by
    rintro c _ _ ⟨⟩ hunseen
    obtain ⟨used, hused⟩ := exists_took_after c
    have hc : w.Unseen c := hunseen.of_took hused
    change some ((w.place c).next, after (w.place c)) = _
    rw [hc.next_place, hc.after_place]
    rfl

theorem copies_report (e : SyntaxError) : Copies w id (report e) (report (e.map w.token)) where
  took := by
    rintro c _ _ ⟨⟩
    exact ⟨[], took_noting e c⟩
  repeats := by
    rintro c _ _ ⟨⟩ -
    rfl

theorem copies_accept (kind : Token.Kind) : Copies w id (accept kind) (accept kind) :=
  copies_peek.bind fun _ => Copies.ite (copies_advance.bind fun _ => Copies.pure rfl)
    (Copies.pure rfl)

theorem copies_expect (kind : Token.Kind) :
    Copies w (Option.map w.token) (expect kind) (expect kind) :=
  copies_peek.bind fun t => Copies.ite (copies_advance.bind fun _ => Copies.pure rfl)
    ((copies_report (.unexpected kind t)).bind fun _ => Copies.pure rfl)

theorem copies_skipSemicolon : Copies w id skipSemicolon skipSemicolon :=
  (copies_accept .semicolon).bind fun _ => Copies.pure rfl

end Reading

namespace Grammar

open Reading Cursor

/-! ### The grammar -/

/-- A larger count can be taken down by one too. -/
theorem exists_succ_of_le {n n' : Nat} (h : n + 1 ≤ n') : ∃ l, n' = l + 1 ∧ n ≤ l :=
  ⟨n' - 1, by omega, by omega⟩

/-- A reader of nested expressions that does among the copies what another one does. -/
def Sub.Copied (w : Copy) (sub sub' : Sub) : Prop :=
  ∀ r, Reading.Copies w (Option.map (Expr.map w.token)) (sub r) (sub' r)

section

variable {w : Copy} {sub sub' : Sub} (h : Sub.Copied w sub sub')
include h

/-- A value and the semicolon that may follow it. -/
theorem copies_value {make : Expr Token → Stmt Token} {make' : Expr Token → Stmt Token}
    (hmake : ∀ e, make' (e.map w.token) = (make e).map w.token) :
    Reading.Copies w (Option.map (Stmt.map w.token))
      (do let value ← sub .lowest; skipSemicolon; return value.map make)
      (do let value ← sub' .lowest; skipSemicolon; return value.map make') := by
  refine (h .lowest).bind fun x => copies_skipSemicolon.bind fun _ => Copies.pure ?_
  cases x with
  | none => rfl
  | some e => exact congrArg some (hmake e)

theorem copies_binding (mark : Token) :
    Reading.Copies w (Option.map (Stmt.map w.token)) (binding sub mark)
      (binding sub' (w.token mark)) :=
  (copies_expect .ident).onNode fun _ => (copies_expect .assign).onNode fun _ =>
    copies_value h fun _ => rfl

theorem copies_returning (mark : Token) :
    Reading.Copies w (Option.map (Stmt.map w.token)) (returning sub mark)
      (returning sub' (w.token mark)) :=
  copies_peek.bind fun _ => Copies.ite (copies_skipSemicolon.bind fun _ => Copies.pure rfl)
    (copies_value h fun _ => rfl)

theorem copies_exprStatement :
    Reading.Copies w (Option.map (Stmt.map w.token)) (exprStatement sub) (exprStatement sub') :=
  copies_peek.bind fun _ => copies_value h fun _ => rfl

theorem copies_statement :
    Reading.Copies w (Option.map (Stmt.map w.token)) (statement sub) (statement sub') := by
  refine copies_peek.bind fun first => ?_
  rw [w.kind_token]
  generalize first.kind = kind
  cases kind with
  | letWord => exact copies_advance.bind fun _ => copies_binding h first
  | returnWord => exact copies_advance.bind fun _ => copies_returning h first
  | _ => exact copies_exprStatement h

omit h in
/-- The nodes of two parts one after the other. -/
theorem map_toList_append {x : Option (Stmt Token)} {y : Option (List (Stmt Token))} :
    (y.map (List.map (Stmt.map w.token))).map ((x.map (Stmt.map w.token)).toList ++ ·) =
      (y.map (x.toList ++ ·)).map (List.map (Stmt.map w.token)) := by
  cases x <;> cases y <;> simp

theorem copies_blockBody {n n' : Nat} (hn : n ≤ n') :
    Reading.Copies w (Option.map (List.map (Stmt.map w.token))) (blockBody sub n)
      (blockBody sub' n') := by
  induction n generalizing n' with
  | zero => exact Copies.stuck
  | succ n ih =>
      obtain ⟨n', rfl, hn'⟩ := exists_succ_of_le hn
      refine copies_peek.bind fun next => Copies.ite ?_ (Copies.ite ?_ ?_)
      · exact copies_advance.bind fun _ => Copies.pure rfl
      · exact (copies_report (.unexpected .rbrace next)).bind fun _ => Copies.pure rfl
      · refine (copies_statement h).bind fun x => (ih hn').bind fun y => Copies.pure ?_
        exact map_toList_append

theorem copies_block {n n' : Nat} (hn : n ≤ n') :
    Reading.Copies w (Option.map (Block.map w.token)) (block sub n) (block sub' n') := by
  refine (copies_expect .lbrace).onNode fun mark => (copies_blockBody h hn).bind fun x => ?_
  cases x with
  | none => exact Copies.pure rfl
  | some ss => exact Copies.pure (by simp [Block.map])

theorem copies_program {n n' : Nat} (hn : n ≤ n') :
    Reading.Copies w (List.map (Stmt.map w.token)) (program sub n) (program sub' n') := by
  induction n generalizing n' with
  | zero => exact Copies.stuck
  | succ n ih =>
      obtain ⟨n', rfl, hn'⟩ := exists_succ_of_le hn
      refine copies_peek.bind fun next => Copies.ite (Copies.pure rfl) ?_
      refine (copies_statement h).bind fun x => (ih hn').bind fun ss => Copies.pure ?_
      cases x <;> simp

theorem copies_items (close : Token.Kind) {n n' : Nat} (hn : n ≤ n') :
    Reading.Copies w (Option.map (List.map (Expr.map w.token))) (items sub close n)
      (items sub' close n') := by
  induction n generalizing n' with
  | zero => exact Copies.stuck
  | succ n ih =>
      obtain ⟨n', rfl, hn'⟩ := exists_succ_of_le hn
      refine (h .lowest).bind fun x => (copies_accept .comma).bind fun b => Copies.ite ?_ ?_
      · refine (ih hn').bind fun es => Copies.pure ?_
        cases x <;> cases es <;> rfl
      · refine (copies_expect close).onNode fun _ => Copies.pure ?_
        cases x <;> rfl

theorem copies_list (close : Token.Kind) {n n' : Nat} (hn : n ≤ n') :
    Reading.Copies w (Option.map (List.map (Expr.map w.token))) (list sub close n)
      (list sub' close n') :=
  (copies_accept close).bind fun _ => Copies.ite (Copies.pure rfl) (copies_items h close hn)

omit h in
theorem copies_names {n n' : Nat} (hn : n ≤ n') :
    Reading.Copies w (Option.map (List.map (Ident.map w.token))) (names n) (names n') := by
  induction n generalizing n' with
  | zero => exact Copies.stuck
  | succ n ih =>
      obtain ⟨n', rfl, hn'⟩ := exists_succ_of_le hn
      refine (copies_expect .ident).onNode fun t => (copies_accept .comma).bind fun b =>
        Copies.ite ?_ ?_
      · refine (ih hn').bind fun ts => Copies.pure ?_
        cases ts <;> rfl
      · exact (copies_expect .rparen).onNode fun _ => Copies.pure rfl

omit h in
theorem copies_params {n n' : Nat} (hn : n ≤ n') :
    Reading.Copies w (Option.map (List.map (Ident.map w.token))) (params n) (params n') :=
  (copies_expect .lparen).onNode fun _ => (copies_accept .rparen).bind fun _ =>
    Copies.ite (Copies.pure rfl) (copies_names hn)

/-- An entry with other marks. -/
def mapEntry (f : Token → Token) (e : Expr Token × Expr Token) : Expr Token × Expr Token :=
  (e.1.map f, e.2.map f)

theorem copies_entries {n n' : Nat} (hn : n ≤ n') :
    Reading.Copies w (Option.map (List.map (mapEntry w.token))) (entries sub n)
      (entries sub' n') := by
  induction n generalizing n' with
  | zero => exact Copies.stuck
  | succ n ih =>
      obtain ⟨n', rfl, hn'⟩ := exists_succ_of_le hn
      have hrest : ∀ e : Expr Token × Expr Token,
          Reading.Copies w (Option.map (List.map (mapEntry w.token)))
            (do let es ← entries sub n
                return es.map (e :: ·))
            (do let es ← entries sub' n'
                return es.map (mapEntry w.token e :: ·)) := by
        refine fun e => (ih hn').bind fun es => Copies.pure ?_
        cases es <;> rfl
      refine (copies_accept .rbrace).bind fun b => Copies.ite (Copies.pure rfl) ?_
      refine (h .lowest).bind fun x => (copies_expect .colon).onNode fun _ =>
        (h .lowest).bind fun y => ?_
      cases x with
      | none => exact Copies.pure rfl
      | some key =>
          cases y with
          | none => exact Copies.pure rfl
          | some value =>
              refine copies_peek.bind fun next => Copies.ite (hrest (key, value)) ?_
              exact (copies_expect .comma).onNode fun _ => hrest (key, value)

/-! ### Expressions -/

theorem copies_conditional {n n' : Nat} (hn : n ≤ n') (mark : Token) :
    Reading.Copies w (Option.map (Expr.map w.token)) (conditional sub n mark)
      (conditional sub' n' (w.token mark)) := by
  refine (copies_expect .lparen).onNode fun _ => (h .lowest).bind fun x =>
    (copies_expect .rparen).onNode fun _ => (copies_block h hn).onNode fun yes =>
      (copies_accept .elseWord).bind fun b => Copies.ite ?_ ?_
  · refine (copies_block h hn).onNode fun no => Copies.pure ?_
    cases x <;> rfl
  · refine Copies.pure ?_
    cases x <;> rfl

theorem copies_function {n n' : Nat} (hn : n ≤ n') (mark : Token) :
    Reading.Copies w (Option.map (Expr.map w.token)) (function sub n mark)
      (function sub' n' (w.token mark)) :=
  (copies_params hn).onNode fun _ => (copies_block h hn).onNode fun _ => Copies.pure rfl

theorem copies_grouped :
    Reading.Copies w (Option.map (Expr.map w.token)) (grouped sub) (grouped sub') :=
  (h .lowest).bind fun _ => (copies_expect .rparen).onNode fun _ => Copies.pure rfl

omit h in
theorem copies_number (t : Token) :
    Reading.Copies w (Option.map (Expr.map w.token)) (number t) (number (w.token t)) := by
  unfold number
  rw [w.literal_token]
  cases Integer.ofDigits? t.literal.toList with
  | some v => exact Copies.pure rfl
  | none => exact (copies_report (.integerRange t)).bind fun _ => Copies.pure rfl

theorem copies_unary (op : UnaryOp) (t : Token) :
    Reading.Copies w (Option.map (Expr.map w.token))
      (onNode (sub .prefixed) fun e => return some (.unary t op e))
      (onNode (sub' .prefixed) fun e => return some (.unary (w.token t) op e)) :=
  (h .prefixed).onNode fun _ => Copies.pure rfl

theorem copies_primary {n n' : Nat} (hn : n ≤ n') :
    Reading.Copies w (Option.map (Expr.map w.token)) (primary sub n) (primary sub' n') := by
  refine copies_advance.bind fun t => ?_
  rw [w.kind_token]
  generalize t.kind = kind
  cases kind with
  | ident => exact Copies.pure rfl
  | int => exact copies_number t
  | string => exact Copies.pure rfl
  | trueWord => exact Copies.pure rfl
  | falseWord => exact Copies.pure rfl
  | bang => exact copies_unary h .not t
  | minus => exact copies_unary h .neg t
  | lparen => exact copies_grouped h
  | ifWord => exact copies_conditional h hn t
  | fnWord => exact copies_function h hn t
  | lbracket =>
      exact (copies_list h .rbracket hn).onNode fun es => Copies.pure (by simp [Expr.map])
  | lbrace =>
      refine (copies_entries h hn).onNode fun es => Copies.pure ?_
      simp only [Option.map_some, Expr.map, Expr.mapEntries_eq]
      rfl
  | _ => exact (copies_report (.noExpression t)).bind fun _ => Copies.pure rfl

theorem copies_extend {n n' : Nat} (hn : n ≤ n') (mark : Token) (left : Expr Token)
    (tail : Tail) :
    Reading.Copies w (Option.map (Expr.map w.token)) (extend sub n mark left tail)
      (extend sub' n' (w.token mark) (left.map w.token) tail) := by
  cases tail with
  | binary op => exact (h op.rank).onNode fun _ => Copies.pure rfl
  | call => exact (copies_list h .rparen hn).onNode fun es => Copies.pure (by simp [Expr.map])
  | index =>
      refine (h .lowest).bind fun x => (copies_expect .rbracket).onNode fun _ => Copies.pure ?_
      cases x <;> rfl

theorem copies_climb {n n' : Nat} (hn : n ≤ n') (r : Rank) (left : Expr Token) :
    Reading.Copies w (Option.map (Expr.map w.token)) (climb sub n r left)
      (climb sub' n' r (left.map w.token)) := by
  induction n generalizing n' left with
  | zero => exact Copies.stuck
  | succ n ih =>
      obtain ⟨n', rfl, hn'⟩ := exists_succ_of_le hn
      refine copies_peek.bind fun next => ?_
      rw [w.kind_token]
      cases Tail.ofKind? next.kind with
      | none => exact Copies.pure rfl
      | some tail =>
          refine Copies.ite (copies_advance.bind fun _ => ?_) (Copies.pure rfl)
          exact (copies_extend h hn' next left tail).onNode fun e => ih hn' e

end

/-- Any depth of nesting, and any larger one. -/
theorem copies_expression {w : Copy} {n n' : Nat} (hn : n ≤ n') :
    Sub.Copied w (expression n) (expression n') := by
  induction n generalizing n' with
  | zero => exact fun _ => Copies.stuck
  | succ n ih =>
      obtain ⟨n', rfl, hn'⟩ := exists_succ_of_le hn
      exact fun r => (copies_primary (ih hn') hn').onNode fun left =>
        copies_climb (ih hn') hn' r left

end Grammar

end Treewalk
