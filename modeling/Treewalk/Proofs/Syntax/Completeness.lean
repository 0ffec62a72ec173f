import Treewalk.Proofs.Syntax.Soundness

/-! # What is written is read

A spelling is read as the tree it spells, when one semicolon stands after every statement that is
not the last of its list.

* `Yields m c a c'` says that the step `m` goes from the cursor `c` to `c'` and gives `a`.  A rule is
  followed from its first token to its last.
* `Climbs k e ts` is what holds of an expression of level `k` inside a larger one: reading `ts`
  is the same as climbing on with `e` as the left part, if the token after `ts` releases `e`.  With
  that the operands of an operator are read one after the other, however they are nested.
* `yields_program` puts the statements of a text together, and `parse_of_spelled` is the result for
  texts. -/

namespace Treewalk

namespace Cursor

/-- The cursor that reads some more tokens first. -/
def before (c : Cursor) (ts : List Token) : Cursor :=
  { c with rest := ts ++ c.rest }

theorem before_append (c : Cursor) (ts us : List Token) :
    c.before (ts ++ us) = (c.before us).before ts := by
  simp [before]

theorem length_before (c : Cursor) (ts : List Token) :
    (c.before ts).rest.length = ts.length + c.rest.length := by
  simp [before]

theorem next_before_cons (c : Cursor) (t : Token) (ts : List Token) :
    (c.before (t :: ts)).next = t :=
  rfl

end Cursor

namespace Reading

open Cursor

variable {α β : Type}

/-- A step goes from one cursor to another and gives a result. -/
def Yields (m : Reading α) (c : Cursor) (a : α) (c' : Cursor) : Prop :=
  m c = some (a, c')

theorem Yields.pure (a : α) (c : Cursor) : Yields (Pure.pure a) c a c :=
  rfl

theorem Yields.bind {m : Reading α} {f : α → Reading β} {c c' c'' : Cursor} {a : α} {b : β}
    (h : Yields m c a c') (hf : Yields (f a) c' b c'') : Yields (m >>= f) c b c'' := by
  rw [Yields, bind_of_eq h]
  exact hf

theorem Yields.onNode {m : Reading (Option α)} {next : α → Reading (Option β)}
    {c c' c'' : Cursor} {a : α} {x : Option β} (h : Yields m c (some a) c')
    (hnext : Yields (next a) c' x c'') : Yields (onNode m next) c x c'' :=
  Yields.bind h hnext

/-- A node that is found is passed on. -/
theorem Yields.onNode_eq {m : Reading (Option α)} {next : α → Reading (Option β)} {c c' : Cursor}
    {a : α} (h : Yields m c (some a) c') : Reading.onNode m next c = next a c' :=
  bind_of_eq h

theorem yields_peek (c : Cursor) : Yields peek c c.next c :=
  rfl

theorem yields_advance (c : Cursor) (t : Token) (ts : List Token) :
    Yields advance (c.before (t :: ts)) t (c.before ts) :=
  rfl

theorem yields_expect {t : Token} {k : Token.Kind} (h : t.kind = k) (c : Cursor)
    (ts : List Token) : Yields (expect k) (c.before (t :: ts)) (some t) (c.before ts) := by
  apply Yields.bind (yields_peek _)
  rw [next_before_cons, if_pos h]
  exact Yields.bind (yields_advance c t ts) (Yields.pure _ _)

theorem yields_accept {t : Token} {k : Token.Kind} (h : t.kind = k) (c : Cursor)
    (ts : List Token) : Yields (accept k) (c.before (t :: ts)) true (c.before ts) := by
  apply Yields.bind (yields_peek _)
  rw [next_before_cons, if_pos h]
  exact Yields.bind (yields_advance c t ts) (Yields.pure _ _)

theorem yields_accept_of_ne {k : Token.Kind} {c : Cursor} (h : c.next.kind ≠ k) :
    Yields (accept k) c false c := by
  apply Yields.bind (yields_peek _)
  rw [if_neg h]
  exact Yields.pure _ _

end Reading

namespace Grammar

open Reading Cursor

/-! ### Climbing -/

/-- The next token ends an expression of a level. -/
def Releases (k : Nat) (c : Cursor) : Prop :=
  pull c.next.kind ≤ k ∧ c.next.kind ≠ .elseWord

theorem Releases.mono {k l : Nat} {c : Cursor} (h : Releases k c) (hkl : k ≤ l) :
    Releases l c :=
  ⟨h.1.trans hkl, h.2⟩

theorem releases_before {t : Token} {k : Token.Kind} (ht : t.kind = k) {l : Nat}
    (hpull : pull k ≤ l) (helse : k ≠ .elseWord) (c : Cursor) (ts : List Token) :
    Releases l (c.before (t :: ts)) := by
  rw [Releases, next_before_cons, ht]
  exact ⟨hpull, helse⟩

/-- A reader of expressions above a rank takes the whole of an expression of a level. -/
def Takes (r : Rank) (k : Nat) : Prop :=
  r.level ≤ Rank.prefixed.level ∧ (r.level < k ∨ Rank.prefixed.level ≤ k)

/-- Reading the tokens of an expression of level `k` is the same as climbing on with the
expression. -/
def Climbs (k : Nat) (e : Expr Token) (ts : List Token) : Prop :=
  ∀ ⦃n : Nat⦄ ⦃r : Rank⦄ ⦃c : Cursor⦄, Takes r k → Releases k c → ts.length + c.rest.length ≤ n →
    ∃ m, c.rest.length < m ∧ expression (n + 1) r (c.before ts) = climb (expression n) m r e c

/-- The tokens of an expression are read as the expression when the token after them does not
belong to it. -/
def ReadsFree (e : Expr Token) (ts : List Token) : Prop :=
  ∀ ⦃n : Nat⦄ ⦃c : Cursor⦄, Releases 0 c → ts.length + c.rest.length < n →
    Yields (expression n .lowest) (c.before ts) (some e) c

theorem yields_climb_of_releases {sub : Sub} {m : Nat} {r : Rank} {e : Expr Token} {c : Cursor}
    (h : pull c.next.kind ≤ r.level) (hm : c.rest.length < m) :
    Yields (climb sub m r e) c (some e) c := by
  cases m with
  | zero => omega
  | succ m =>
      unfold climb
      apply Yields.bind (yields_peek c)
      split
      · rename_i tail htail
        rw [pull, htail] at h
        rw [if_neg (Nat.not_lt.2 h)]
        exact Yields.pure _ _
      · exact Yields.pure _ _

theorem climb_eq_of_extend {sub : Sub} {m : Nat} {r : Rank} {left e : Expr Token} {c c' : Cursor}
    {t : Token} {ts : List Token} {tail : Tail} (ht : t.kind = tail.kind)
    (hr : r.level < tail.rank.level)
    (hextend : Yields (extend sub m t left tail) (c.before ts) (some e) c') :
    climb sub (m + 1) r left (c.before (t :: ts)) = climb sub m r e c' := by
  rw [climb, bind_of_eq (yields_peek _)]
  simp only [next_before_cons, Tail.ofKind?_eq_some_iff.2 ht, if_pos hr]
  rw [bind_of_eq (yields_advance c t ts)]
  exact hextend.onNode_eq

/-- An expression followed by a token that its reader leaves alone. -/
theorem Climbs.yields {k n : Nat} {e : Expr Token} {ts : List Token} (h : Climbs k e ts) {r : Rank}
    {c : Cursor} (hk : Takes r k) (hc : Releases k c)
    (hr : pull c.next.kind ≤ r.level) (hn : ts.length + c.rest.length ≤ n) :
    Yields (expression (n + 1) r) (c.before ts) (some e) c := by
  obtain ⟨m, hm, heq⟩ := h hk hc hn
  rw [Yields, heq]
  exact yields_climb_of_releases hr hm

theorem Climbs.readsFree {k : Nat} {e : Expr Token} {ts : List Token} (h : Climbs k e ts)
    (hk : 0 < k) : ReadsFree e ts := by
  intro n c hc hn
  cases n with
  | zero => omega
  | succ n => exact h.yields ⟨by decide, .inl hk⟩ (hc.mono (Nat.zero_le k)) hc.1 (by omega)

/-- An expression that is read before any tail. -/
theorem climbs_of_primary {k : Nat} {e : Expr Token} {t : Token} {ts : List Token}
    (h : ∀ ⦃n : Nat⦄ ⦃c : Cursor⦄, Releases k c → ts.length + c.rest.length ≤ n →
      Yields (primary (expression (n + 1)) (n + 1)) (c.before (t :: ts)) (some e) c) :
    Climbs k e (t :: ts) := by
  intro n r c _ hc hn
  rw [List.length_cons] at hn
  cases n with
  | zero => omega
  | succ n => exact ⟨n + 1, by omega, (h hc (by omega)).onNode_eq⟩

/-! ### Lists -/

/-- The kinds that close a list. -/
def Closes (k : Token.Kind) : Prop :=
  k = .rparen ∨ k = .rbracket

theorem Closes.releases {k : Token.Kind} (h : Closes k) {r : Token} (hr : r.Is k) (c : Cursor)
    (ts : List Token) : Releases 0 (c.before (r :: ts)) := by
  rcases h with rfl | rfl <;> exact releases_before hr.1 (by decide) (by decide) c ts

theorem Closes.ne_comma {k : Token.Kind} (h : Closes k) : k ≠ .comma := by
  rcases h with rfl | rfl <;> decide

theorem Closes.not_startsExpr {k : Token.Kind} (h : Closes k) : k.startsExpr = false := by
  rcases h with rfl | rfl <;> rfl

/-- The tokens of one or more expressions are read up to the token that closes them. -/
def ReadsItems (es : List (Expr Token)) (ts : List Token) : Prop :=
  ∀ ⦃n count : Nat⦄ ⦃c : Cursor⦄ ⦃close : Token.Kind⦄ ⦃r : Token⦄, Closes close → r.Is close →
    ts.length + 1 + c.rest.length < n → ts.length < count →
    Yields (items (expression n) close count) (c.before (ts ++ [r])) (some es) c

/-- The tokens of a list of expressions are read up to the token that closes them. -/
def ReadsList (es : List (Expr Token)) (ts : List Token) : Prop :=
  ∀ ⦃n count : Nat⦄ ⦃c : Cursor⦄ ⦃close : Token.Kind⦄ ⦃r : Token⦄, Closes close → r.Is close →
    ts.length + 1 + c.rest.length < n → ts.length < count →
    Yields (list (expression n) close count) (c.before (ts ++ [r])) (some es) c

theorem readsItems_one {e : Expr Token} {ts : List Token} (h : ReadsFree e ts) :
    ReadsItems [e] ts := by
  intro n count c close r hclose hr hn hcount
  obtain ⟨count, rfl⟩ := Nat.exists_eq_add_one.2 (Nat.zero_lt_of_lt hcount)
  unfold items
  have hne : (c.before [r]).next.kind ≠ .comma := by
    rw [next_before_cons, hr.1]
    exact hclose.ne_comma
  rw [before_append]
  refine Yields.bind (h (hclose.releases hr c []) ?_) ?_
  · rw [length_before, List.length_singleton]
    omega
  apply Yields.bind (yields_accept_of_ne hne)
  exact Yields.onNode (yields_expect hr.1 c []) (Yields.pure _ _)

theorem readsItems_cons {e e' : Expr Token} {es : List (Expr Token)} {comma : Token}
    {ts us : List Token} (h : ReadsFree e ts) (hcomma : comma.Is .comma)
    (hes : ReadsItems (e' :: es) us) : ReadsItems (e :: e' :: es) (ts ++ comma :: us) := by
  intro n count c close r hclose hr hn hcount
  obtain ⟨count, rfl⟩ := Nat.exists_eq_add_one.2 (Nat.zero_lt_of_lt hcount)
  unfold items
  rw [List.length_append, List.length_cons] at hn hcount
  rw [List.append_assoc, List.cons_append, before_append]
  refine Yields.bind (h (releases_before hcomma.1 (by decide) (by decide) c _) ?_) ?_
  · rw [length_before, List.length_cons, List.length_append, List.length_singleton]
    omega
  apply Yields.bind (yields_accept hcomma.1 c _)
  exact Yields.bind (hes hclose hr (by omega) (by omega)) (Yields.pure _ _)

theorem readsList_nil : ReadsList [] [] := by
  intro n count c close r _ hr _ _
  unfold list
  exact Yields.bind (yields_accept hr.1 c []) (Yields.pure _ _)

theorem ReadsItems.readsList {es : List (Expr Token)} {t : Token} {ts : List Token}
    (h : ReadsItems es (t :: ts)) (ht : t.kind.startsExpr = true) : ReadsList es (t :: ts) := by
  intro n count c close r hclose hr hn hcount
  have hne : t.kind ≠ close := by
    rintro rfl
    rw [hclose.not_startsExpr] at ht
    cases ht
  unfold list
  exact Yields.bind (yields_accept_of_ne hne) (h hclose hr hn hcount)

theorem readsList_of_items {es : List (Expr Token)} {ts : List Token}
    (h : Expr.ListSpelled id true es ts) (hitems : es ≠ [] → ReadsItems es ts) :
    ReadsList es ts := by
  have hread : es ≠ [] → ∀ t us, ts = t :: us → t.kind.startsExpr = true → ReadsList es ts := by
    rintro hne t us rfl ht
    exact (hitems hne).readsList ht
  cases h with
  | nil => exact readsList_nil
  | one he =>
      obtain ⟨t, us, rfl, ht⟩ := he.exists_head
      exact hread (by simp) t us rfl ht
  | cons he _ _ =>
      obtain ⟨t, us, rfl, ht⟩ := he.exists_head
      exact hread (by simp) t _ rfl ht

theorem yields_names {is : List (Ident Token)} {ts : List Token}
    (h : Ident.ListSpelled id is ts) (hne : is ≠ []) {r : Token} (hr : r.Is .rparen) {count : Nat}
    (hcount : ts.length < count) (c : Cursor) :
    Yields (names count) (c.before (ts ++ [r])) (some is) c := by
  induction h generalizing count with
  | nil => exact absurd rfl hne
  | @one t ht =>
      obtain ⟨count, rfl⟩ := Nat.exists_eq_add_one.2 (Nat.zero_lt_of_lt hcount)
      have hcomma : (c.before [r]).next.kind ≠ .comma := by
        rw [next_before_cons, hr.1]
        decide
      unfold names
      apply Yields.onNode (yields_expect ht c _)
      apply Yields.bind (yields_accept_of_ne hcomma)
      exact Yields.onNode (yields_expect hr.1 c []) (Yields.pure _ _)
  | @cons t comma i is ts ht hcomma _ ih =>
      obtain ⟨count, rfl⟩ := Nat.exists_eq_add_one.2 (Nat.zero_lt_of_lt hcount)
      rw [List.length_cons, List.length_cons] at hcount
      unfold names
      apply Yields.onNode (yields_expect ht c _)
      apply Yields.bind (yields_accept hcomma.1 c _)
      exact Yields.bind (ih (by simp) (by omega)) (Yields.pure _ _)

theorem yields_params {is : List (Ident Token)} {ts : List Token}
    (h : Ident.ListSpelled id is ts) {l r : Token} (hl : l.Is .lparen) (hr : r.Is .rparen)
    {count : Nat} (hcount : ts.length < count) (c : Cursor) :
    Yields (params count) (c.before (l :: (ts ++ [r]))) (some is) c := by
  unfold params
  apply Yields.onNode (yields_expect hl.1 c _)
  cases h with
  | nil => exact Yields.bind (yields_accept hr.1 c []) (Yields.pure _ _)
  | one ht =>
      refine Yields.bind (yields_accept_of_ne ?_) (yields_names (.one ht) (by simp) hr hcount c)
      rw [List.cons_append, next_before_cons, ht]
      decide
  | cons ht hcomma his =>
      refine Yields.bind (yields_accept_of_ne ?_)
        (yields_names (.cons ht hcomma his) (by simp) hr hcount c)
      rw [List.cons_append, next_before_cons, ht]
      decide

/-- The tokens of the entries of a table are read up to the closing brace. -/
def ReadsEntries (es : List (Expr Token × Expr Token)) (ts : List Token) : Prop :=
  ∀ ⦃n count : Nat⦄ ⦃c : Cursor⦄ ⦃r : Token⦄, r.Is .rbrace →
    ts.length + 1 + c.rest.length < n → ts.length < count →
    Yields (entries (expression n) count) (c.before (ts ++ [r])) (some es) c

theorem readsEntries_nil : ReadsEntries [] [] := by
  intro n count c r hr hn hcount
  obtain ⟨count, rfl⟩ := Nat.exists_eq_add_one.2 (Nat.zero_lt_of_lt hcount)
  unfold entries
  exact Yields.bind (yields_accept hr.1 c []) (Yields.pure _ _)

/-- The key and the value of an entry that goes on with the tokens `us`. -/
theorem yields_entry {k v : Expr Token} {es : List (Expr Token × Expr Token)} {t colon : Token}
    {ks vs us : List Token} (hk : ReadsFree k (t :: ks)) (ht : t.kind.startsExpr = true)
    (hcolon : colon.Is .colon) (hv : ReadsFree v vs) {n count : Nat} {c c' : Cursor}
    (hus : Releases 0 (c.before us))
    (hn : ks.length + vs.length + us.length + c.rest.length + 2 < n)
    (hrest : Yields (if (c.before us).next.kind = .rbrace then do
        let es ← entries (expression n) count
        return es.map ((k, v) :: ·)
      else
        onNode (expect .comma) fun _ => do
          let es ← entries (expression n) count
          return es.map ((k, v) :: ·)) (c.before us) (some es) c') :
    Yields (entries (expression n) (count + 1)) (c.before (t :: ks ++ colon :: (vs ++ us)))
      (some es) c' := by
  have hne : t.kind ≠ .rbrace := by
    intro h
    rw [h] at ht
    cases ht
  unfold entries
  refine Yields.bind (yields_accept_of_ne hne) ?_
  rw [before_append]
  refine Yields.bind (hk (releases_before hcolon.1 (by decide) (by decide) c _) ?_) ?_
  · simp only [length_before, List.length_cons, List.length_append]
    omega
  apply Yields.onNode (yields_expect hcolon.1 c _)
  rw [before_append]
  refine Yields.bind (hv hus ?_) ?_
  · rw [length_before]
    omega
  exact Yields.bind (yields_peek _) hrest

theorem readsEntries_one {k v : Expr Token} {t colon : Token} {ks vs : List Token}
    (hk : ReadsFree k (t :: ks)) (ht : t.kind.startsExpr = true) (hcolon : colon.Is .colon)
    (hv : ReadsFree v vs) : ReadsEntries [(k, v)] (t :: ks ++ colon :: vs) := by
  intro n count c r hr hn hcount
  obtain ⟨count, rfl⟩ := Nat.exists_eq_add_one.2 (Nat.zero_lt_of_lt hcount)
  simp only [List.length_append, List.length_cons] at hn hcount
  rw [List.append_assoc, List.cons_append]
  refine yields_entry hk ht hcolon hv (releases_before hr.1 (by decide) (by decide) c _) ?_ ?_
  · rw [List.length_singleton]
    omega
  · rw [if_pos (by rw [next_before_cons, hr.1])]
    exact Yields.bind (readsEntries_nil hr (by simp; omega) (by simp; omega)) (Yields.pure _ _)

theorem readsEntries_cons {k v : Expr Token} {es : List (Expr Token × Expr Token)}
    {t colon comma : Token} {ks vs ts : List Token} (hk : ReadsFree k (t :: ks))
    (ht : t.kind.startsExpr = true) (hcolon : colon.Is .colon) (hv : ReadsFree v vs)
    (hcomma : comma.Is .comma) (hes : ReadsEntries es ts) :
    ReadsEntries ((k, v) :: es) (t :: ks ++ colon :: (vs ++ comma :: ts)) := by
  intro n count c r hr hn hcount
  obtain ⟨count, rfl⟩ := Nat.exists_eq_add_one.2 (Nat.zero_lt_of_lt hcount)
  simp only [List.length_append, List.length_cons] at hn hcount
  have hassoc : (t :: ks ++ colon :: (vs ++ comma :: ts)) ++ [r] =
      t :: ks ++ colon :: (vs ++ comma :: (ts ++ [r])) := by simp
  rw [hassoc]
  refine yields_entry hk ht hcolon hv (releases_before hcomma.1 (by decide) (by decide) c _) ?_ ?_
  · simp only [List.length_cons, List.length_append, List.length_nil]
    omega
  · rw [if_neg (by rw [next_before_cons, hcomma.1]; decide)]
    apply Yields.onNode (yields_expect hcomma.1 c _)
    exact Yields.bind (hes hr (by omega) (by omega)) (Yields.pure _ _)

/-! ### Statements -/

/-- The next token is one before which a statement ends. -/
def EndsStmt (c : Cursor) : Prop :=
  c.next.kind = .rbrace ∨ c.next.kind = .eof

/-- The tokens of a statement are read, with the semicolon after them.  Without a semicolon it has to
be the last of its list. -/
def ReadsStmt (s : Stmt Token) (ts : List Token) : Prop :=
  ∀ ⦃n : Nat⦄ ⦃c : Cursor⦄ ⦃us : List Token⦄, Ending us → (us = [] → EndsStmt c) →
    ts.length + us.length + c.rest.length < n →
    Yields (statement (expression n)) (c.before (ts ++ us)) (some s) c

theorem yields_skipSemicolon {c : Cursor} {us : List Token} (hus : Ending us)
    (hc : us = [] → EndsStmt c) : Yields skipSemicolon (c.before us) () c := by
  unfold skipSemicolon
  cases hus with
  | none =>
      have hne : c.next.kind ≠ .semicolon := by rcases hc rfl with h | h <;> rw [h] <;> decide
      exact Yields.bind (yields_accept_of_ne hne) (Yields.pure _ _)
  | semicolon ht => exact Yields.bind (yields_accept ht.1 c []) (Yields.pure _ _)

/-- After a statement there is no token that could belong to it. -/
theorem next_of_ending {c : Cursor} {us : List Token} (hus : Ending us)
    (hc : us = [] → EndsStmt c) : (c.before us).next.kind = .semicolon ∨
      (c.before us).next.kind = .rbrace ∨ (c.before us).next.kind = .eof := by
  cases hus with
  | none => exact .inr (hc rfl)
  | semicolon ht => exact .inl ht.1

theorem releases_ending {c : Cursor} {us : List Token} (hus : Ending us)
    (hc : us = [] → EndsStmt c) : Releases 0 (c.before us) := by
  rcases next_of_ending hus hc with h | h | h <;> rw [Releases, h] <;> decide

theorem readsStmt_bind {t i eq : Token} {e : Expr Token} {ts : List Token} (ht : t.Is .letWord)
    (hi : i.kind = .ident) (heq : eq.Is .assign) (he : ReadsFree e ts) :
    ReadsStmt (.bind t ⟨i, i.literal⟩ e) (t :: i :: eq :: ts) := by
  intro n c us hus hc hn
  unfold statement
  apply Yields.bind (yields_peek _)
  simp only [List.length_cons] at hn
  simp only [List.cons_append, next_before_cons, ht.1]
  apply Yields.bind (yields_advance c t _)
  apply Yields.onNode (yields_expect hi c _)
  apply Yields.onNode (yields_expect heq.1 c _)
  rw [before_append]
  refine Yields.bind (he (releases_ending hus hc) ?_) ?_
  · rw [length_before]
    omega
  exact Yields.bind (yields_skipSemicolon hus hc) (Yields.pure _ _)

theorem readsStmt_ret {t : Token} (ht : t.Is .returnWord) : ReadsStmt (.ret t none) [t] := by
  intro n c us hus hc hn
  unfold statement
  apply Yields.bind (yields_peek _)
  simp only [List.cons_append, next_before_cons, ht.1, List.nil_append]
  apply Yields.bind (yields_advance c t _)
  apply Yields.bind (yields_peek _)
  rw [if_pos (next_of_ending hus hc)]
  exact Yields.bind (yields_skipSemicolon hus hc) (Yields.pure _ _)

theorem readsStmt_retValue {t u : Token} {e : Expr Token} {ts : List Token} (ht : t.Is .returnWord)
    (hu : u.kind.startsExpr = true) (he : ReadsFree e (u :: ts)) :
    ReadsStmt (.ret t (some e)) (t :: u :: ts) := by
  intro n c us hus hc hn
  unfold statement
  have hnot : ¬ (u.kind = .semicolon ∨ u.kind = .rbrace ∨ u.kind = .eof) := by
    rintro (h | h | h) <;> rw [h] at hu <;> cases hu
  apply Yields.bind (yields_peek _)
  simp only [List.length_cons] at hn
  simp only [List.cons_append, next_before_cons, ht.1]
  apply Yields.bind (yields_advance c t _)
  apply Yields.bind (yields_peek _)
  rw [next_before_cons, if_neg hnot, ← List.cons_append, before_append]
  refine Yields.bind (he (releases_ending hus hc) ?_) ?_
  · rw [length_before, List.length_cons]
    omega
  exact Yields.bind (yields_skipSemicolon hus hc) (Yields.pure _ _)

/-- A token that starts an expression starts a statement that is one. -/
theorem statement_eq_exprStatement {sub : Sub} {t : Token} (ht : t.kind.startsExpr = true)
    (c : Cursor) (ts : List Token) :
    statement sub (c.before (t :: ts)) = exprStatement sub (c.before (t :: ts)) := by
  rw [statement, bind_of_eq (yields_peek _), next_before_cons]
  cases hk : t.kind with
  | letWord =>
      rw [hk] at ht
      cases ht
  | returnWord =>
      rw [hk] at ht
      cases ht
  | _ => rfl

theorem yields_statement_expr {t : Token} {e : Expr Token} {ts us : List Token}
    (ht : t.kind.startsExpr = true) (he : ReadsFree e (t :: ts)) {n : Nat} {c : Cursor}
    (hc : Releases 0 (c.before us)) (hskip : Yields skipSemicolon (c.before us) () c)
    (hn : (t :: ts).length + us.length + c.rest.length < n) :
    Yields (statement (expression n)) (c.before (t :: ts ++ us)) (some (.expr t e)) c := by
  rw [Yields, List.cons_append, statement_eq_exprStatement ht]
  unfold exprStatement
  apply Yields.bind (yields_peek _)
  rw [next_before_cons, ← List.cons_append, before_append]
  refine Yields.bind (he hc ?_) ?_
  · rw [length_before]
    omega
  exact Yields.bind hskip (Yields.pure _ _)

theorem readsStmt_expr {t : Token} {e : Expr Token} {ts : List Token}
    (ht : t.kind.startsExpr = true) (he : ReadsFree e (t :: ts)) :
    ReadsStmt (.expr t e) (t :: ts) := by
  intro n c us hus hc hn
  exact yields_statement_expr ht he (releases_ending hus hc) (yields_skipSemicolon hus hc) hn

theorem exists_head_of_spelled {s : Stmt Token} {ts : List Token}
    (h : Stmt.Spelled id true s ts) :
    ∃ t us, ts = t :: us ∧ t.kind ≠ .rbrace ∧ t.kind ≠ .eof := by
  cases h with
  | bind ht _ _ _ => exact ⟨_, _, rfl, by rw [ht.1]; decide, by rw [ht.1]; decide⟩
  | ret ht => exact ⟨_, _, rfl, by rw [ht.1]; decide, by rw [ht.1]; decide⟩
  | retValue ht _ => exact ⟨_, _, rfl, by rw [ht.1]; decide, by rw [ht.1]; decide⟩
  | @expr t _ _ he =>
      obtain ⟨_, _, heq, ht⟩ := he.exists_head
      obtain ⟨rfl, -⟩ := List.cons.inj heq
      refine ⟨_, _, rfl, ?_, ?_⟩ <;> intro hk <;> rw [hk] at ht <;> cases ht

/-- Without a semicolon after its first statement a closed list has no others. -/
theorem nil_of_last {ss : List (Stmt Token)} {us vs : List Token}
    (hlast : true = true → ss ≠ [] → us ≠ []) (hss : Stmt.ListSpelled id true ss vs)
    (hus : us = []) : vs = [] := by
  cases hss with
  | nil => rfl
  | cons => exact absurd hus (hlast rfl (by simp))

/-- The tokens of a list of statements are read up to the closing brace. -/
def ReadsBody (ss : List (Stmt Token)) (ts : List Token) : Prop :=
  ∀ ⦃n count : Nat⦄ ⦃c : Cursor⦄ ⦃r : Token⦄, r.Is .rbrace →
    ts.length + 1 + c.rest.length < n → ts.length < count →
    Yields (blockBody (expression n) count) (c.before (ts ++ [r])) (some ss) c

/-- The tokens of a block are read. -/
def ReadsBlock (b : Block Token) (ts : List Token) : Prop :=
  ∀ ⦃n count : Nat⦄ ⦃c : Cursor⦄, ts.length + c.rest.length < n → ts.length < count →
    Yields (block (expression n) count) (c.before ts) (some b) c

theorem readsBody_nil : ReadsBody [] [] := by
  intro n count c r hr hn hcount
  obtain ⟨count, rfl⟩ := Nat.exists_eq_add_one.2 (Nat.zero_lt_of_lt hcount)
  unfold blockBody
  apply Yields.bind (yields_peek _)
  rw [List.nil_append, next_before_cons, if_pos hr.1]
  exact Yields.bind (yields_advance c r []) (Yields.pure _ _)

theorem readsBody_cons {s : Stmt Token} {ss : List (Stmt Token)} {t : Token}
    {ts us vs : List Token} (hs : ReadsStmt s (t :: ts)) (hbrace : t.kind ≠ .rbrace)
    (heof : t.kind ≠ .eof) (hus : Ending us) (hlast : us = [] → vs = []) (hss : ReadsBody ss vs) :
    ReadsBody (s :: ss) (t :: ts ++ (us ++ vs)) := by
  intro n count c r hr hn hcount
  obtain ⟨count, rfl⟩ := Nat.exists_eq_add_one.2 (Nat.zero_lt_of_lt hcount)
  unfold blockBody
  simp only [List.length_append, List.length_cons] at hn hcount
  have hassoc : (t :: ts ++ (us ++ vs)) ++ [r] = (t :: ts ++ us) ++ (vs ++ [r]) := by simp
  apply Yields.bind (yields_peek _)
  rw [List.cons_append, List.cons_append, next_before_cons, if_neg hbrace, if_neg heof,
    ← List.cons_append, ← List.cons_append, hassoc, before_append]
  refine Yields.bind (hs hus ?_ ?_) ?_
  · intro hnil
    rw [hlast hnil]
    exact .inl hr.1
  · simp only [length_before, List.length_append, List.length_cons, List.length_nil]
    omega
  · exact Yields.bind (hss hr (by omega) (by omega)) (Yields.pure _ _)

theorem readsBlock_braces {l r : Token} {ss : List (Stmt Token)} {ts : List Token}
    (hl : l.Is .lbrace) (hss : ReadsBody ss ts) (hr : r.Is .rbrace) :
    ReadsBlock (.mk l ss) (l :: (ts ++ [r])) := by
  intro n count c hn hcount
  simp only [List.length_append, List.length_cons, List.length_nil] at hn hcount
  unfold block
  apply Yields.onNode (yields_expect hl.1 c _)
  exact Yields.bind (hss hr (by omega) (by omega)) (Yields.pure _ _)

/-! ### Expressions -/

theorem climbs_name {t : Token} (ht : t.kind = .ident) :
    Climbs Rank.index.level (.name ⟨t, t.literal⟩) [t] := by
  refine climbs_of_primary fun n c _ _ => ?_
  unfold primary
  apply Yields.bind (yields_advance c t [])
  simp only [ht]
  exact Yields.pure _ _

theorem climbs_int {t : Token} {v : Int64} (ht : t.Shows v) :
    Climbs Rank.index.level (.int t v) [t] := by
  refine climbs_of_primary fun n c _ _ => ?_
  unfold primary
  apply Yields.bind (yields_advance c t [])
  simp only [ht.1, number, Integer.ofDigits?_eq_some_iff.2 ht.2.2]
  exact Yields.pure _ _

theorem climbs_string {t : Token} (ht : t.kind = .string) :
    Climbs Rank.index.level (.string t t.literal) [t] := by
  refine climbs_of_primary fun n c _ _ => ?_
  unfold primary
  apply Yields.bind (yields_advance c t [])
  simp only [ht]
  exact Yields.pure _ _

theorem climbs_bool {t : Token} {b : Bool} (ht : t.Is (if b then .trueWord else .falseWord)) :
    Climbs Rank.index.level (.bool t b) [t] := by
  refine climbs_of_primary fun n c _ _ => ?_
  unfold primary
  apply Yields.bind (yields_advance c t [])
  cases b <;> simp only [ht.1] <;> exact Yields.pure _ _

theorem climbs_unary {t : Token} {op : UnaryOp} {e : Expr Token} {ts : List Token} {k : Nat}
    (ht : t.Is op.kind) (he : Climbs k e ts) (hk : Rank.prefixed.level ≤ k) :
    Climbs Rank.prefixed.level (.unary t op e) (t :: ts) := by
  refine climbs_of_primary fun n c hc hn => ?_
  have hsub : Yields (expression (n + 1) .prefixed) (c.before ts) (some e) c :=
    he.yields ⟨Nat.le_refl _, .inr hk⟩ (hc.mono hk) hc.1 hn
  unfold primary
  apply Yields.bind (yields_advance c t ts)
  cases op <;> simp only [ht.1, UnaryOp.kind] <;> exact Yields.onNode hsub (Yields.pure _ _)

theorem climbs_pair {l r : Token} {e : Expr Token} {ts : List Token} (hl : l.Is .lparen)
    (he : ReadsFree e ts) (hr : r.Is .rparen) :
    Climbs Rank.index.level e (l :: (ts ++ [r])) := by
  refine climbs_of_primary fun n c _ hn => ?_
  rw [List.length_append, List.length_singleton] at hn
  unfold primary
  apply Yields.bind (yields_advance c l _)
  simp only [hl.1]
  rw [before_append]
  refine Yields.bind (he (releases_before hr.1 (by decide) (by decide) c []) ?_) ?_
  · rw [length_before, List.length_singleton]
    omega
  exact Yields.onNode (yields_expect hr.1 c []) (Yields.pure _ _)

theorem climbs_cond {t l r : Token} {test : Expr Token} {yes : Block Token} {ts ys : List Token}
    (ht : t.Is .ifWord) (hl : l.Is .lparen) (htest : ReadsFree test ts) (hr : r.Is .rparen)
    (hyes : ReadsBlock yes ys) :
    Climbs Rank.index.level (.cond t test yes none) (t :: l :: (ts ++ r :: ys)) := by
  refine climbs_of_primary fun n c hc hn => ?_
  simp only [List.length_append, List.length_cons] at hn
  unfold primary
  apply Yields.bind (yields_advance c t _)
  simp only [ht.1]
  apply Yields.onNode (yields_expect hl.1 c _)
  rw [before_append]
  refine Yields.bind (htest (releases_before hr.1 (by decide) (by decide) c ys) ?_) ?_
  · rw [length_before, List.length_cons]
    omega
  apply Yields.onNode (yields_expect hr.1 c ys)
  apply Yields.onNode (hyes (by omega) (by omega))
  exact Yields.bind (yields_accept_of_ne hc.2) (Yields.pure _ _)

theorem climbs_condElse {t l r w : Token} {test : Expr Token} {yes no : Block Token}
    {ts ys ns : List Token} (ht : t.Is .ifWord) (hl : l.Is .lparen) (htest : ReadsFree test ts)
    (hr : r.Is .rparen) (hyes : ReadsBlock yes ys) (hw : w.Is .elseWord) (hno : ReadsBlock no ns) :
    Climbs Rank.index.level (.cond t test yes (some no))
      (t :: l :: (ts ++ r :: (ys ++ w :: ns))) := by
  refine climbs_of_primary fun n c hc hn => ?_
  simp only [List.length_append, List.length_cons] at hn
  unfold primary
  apply Yields.bind (yields_advance c t _)
  simp only [ht.1]
  apply Yields.onNode (yields_expect hl.1 c _)
  rw [before_append]
  refine Yields.bind (htest (releases_before hr.1 (by decide) (by decide) c _) ?_) ?_
  · simp only [length_before, List.length_cons, List.length_append]
    omega
  apply Yields.onNode (yields_expect hr.1 c _)
  rw [before_append]
  refine Yields.onNode (hyes ?_ (by omega)) ?_
  · rw [length_before, List.length_cons]
    omega
  apply Yields.bind (yields_accept hw.1 c ns)
  exact Yields.onNode (hno (by omega) (by omega)) (Yields.pure _ _)

theorem climbs_func {t l r : Token} {ps : List (Ident Token)} {body : Block Token}
    {ts bs : List Token} (ht : t.Is .fnWord) (hl : l.Is .lparen) (hps : Ident.ListSpelled id ps ts)
    (hr : r.Is .rparen) (hbody : ReadsBlock body bs) :
    Climbs Rank.index.level (.func t ps body) (t :: l :: (ts ++ r :: bs)) := by
  refine climbs_of_primary fun n c _ hn => ?_
  simp only [List.length_append, List.length_cons] at hn
  have hassoc : l :: (ts ++ r :: bs) = l :: (ts ++ [r]) ++ bs := by simp
  unfold primary
  apply Yields.bind (yields_advance c t _)
  simp only [ht.1]
  rw [hassoc, before_append]
  apply Yields.onNode (yields_params hps hl hr (by omega) _)
  exact Yields.onNode (hbody (by omega) (by omega)) (Yields.pure _ _)

theorem climbs_array {l r : Token} {es : List (Expr Token)} {ts : List Token}
    (hl : l.Is .lbracket) (hes : ReadsList es ts) (hr : r.Is .rbracket) :
    Climbs Rank.index.level (.array l es) (l :: (ts ++ [r])) := by
  refine climbs_of_primary fun n c _ hn => ?_
  rw [List.length_append, List.length_singleton] at hn
  unfold primary
  apply Yields.bind (yields_advance c l _)
  simp only [hl.1]
  exact Yields.onNode (hes (.inr rfl) hr (by omega) (by omega)) (Yields.pure _ _)

theorem climbs_table {l r : Token} {es : List (Expr Token × Expr Token)} {ts : List Token}
    (hl : l.Is .lbrace) (hes : ReadsEntries es ts) (hr : r.Is .rbrace) :
    Climbs Rank.index.level (.table l es) (l :: (ts ++ [r])) := by
  refine climbs_of_primary fun n c _ hn => ?_
  rw [List.length_append, List.length_singleton] at hn
  unfold primary
  apply Yields.bind (yields_advance c l _)
  simp only [hl.1]
  exact Yields.onNode (hes hr (by omega) (by omega)) (Yields.pure _ _)

/-- An expression before a tail that its reader takes in. -/
theorem climbs_tail {tail : Tail} {mark : Token} {left e : Expr Token} {ls ts : List Token}
    {k k' : Nat} (hleft : Climbs k left ls) (hk : tail.rank.level ≤ k) (hmark : mark.Is tail.kind)
    (hr : ∀ r, Takes r k' → r.level < tail.rank.level)
    (hextend : ∀ ⦃n m : Nat⦄ ⦃c : Cursor⦄, Releases k' c → ts.length + c.rest.length < n →
      ts.length + c.rest.length < m →
      Yields (extend (expression n) m mark left tail) (c.before ts) (some e) c) :
    Climbs k' e (ls ++ mark :: ts) := by
  intro n r c hrk hc hn
  have hlt := hr r hrk
  have hpull : pull tail.kind = tail.rank.level := by
    rw [pull, Tail.ofKind?_eq_some_iff.2 rfl]
  have helse : tail.kind ≠ .elseWord := by
    rcases tail with op | _ | _
    · cases op <;> decide
    · decide
    · decide
  rw [List.length_append, List.length_cons] at hn
  have hlength : ls.length + (c.before (mark :: ts)).rest.length ≤ n := by
    rw [length_before, List.length_cons]
    omega
  obtain ⟨m, hm, heq⟩ := hleft (n := n) ⟨hrk.1, .inl (by omega)⟩
    (releases_before hmark.1 (by omega) helse c ts) hlength
  rw [length_before, List.length_cons] at hm
  obtain ⟨m, rfl⟩ := Nat.exists_eq_add_one.2 (Nat.zero_lt_of_lt hm)
  refine ⟨m, by omega, ?_⟩
  rw [before_append, heq]
  exact climb_eq_of_extend hmark.1 hlt (hextend hc (by omega) (by omega))

theorem climbs_binary {t : Token} {op : BinaryOp} {left right : Expr Token} {ls rs : List Token}
    {k k' : Nat} (hleft : Climbs k left ls) (hk : op.rank.level ≤ k) (ht : t.Is op.kind)
    (hright : Climbs k' right rs) (hk' : op.rank.level < k') :
    Climbs op.rank.level (.binary t left op right) (ls ++ t :: rs) := by
  have hop := op.level_lt_prefixed
  have hmark : t.Is (Tail.binary op).kind := ht
  have hpull : (Tail.binary op).rank.level ≤ k := hk
  refine climbs_tail hleft hpull hmark ?_ fun n m c hc hn _ => ?_
  · rintro r ⟨-, hr | hr⟩
    · exact hr
    · omega
  · obtain ⟨n, rfl⟩ := Nat.exists_eq_add_one.2 (Nat.zero_lt_of_lt hn)
    apply Yields.onNode (hright.yields ⟨hop.le, .inl hk'⟩ (hc.mono hk'.le) hc.1 (by omega))
    exact Yields.pure _ _

theorem Takes.lt_call {r : Rank} {k : Nat} (h : Takes r k) : r.level < Rank.call.level :=
  Nat.lt_of_le_of_lt h.1 (by decide)

theorem climbs_call {l r : Token} {callee : Expr Token} {args : List (Expr Token)}
    {cs ts : List Token} {k : Nat} (hcallee : Climbs k callee cs) (hk : Rank.call.level ≤ k)
    (hl : l.Is .lparen) (hargs : ReadsList args ts) (hr : r.Is .rparen) :
    Climbs Rank.index.level (.call l callee args) (cs ++ l :: (ts ++ [r])) := by
  have hmark : l.Is Tail.call.kind := hl
  have hpull : Tail.call.rank.level ≤ k := hk
  refine climbs_tail hcallee hpull hmark (fun _ h => h.lt_call) fun n m c _ hn hm => ?_
  rw [List.length_append, List.length_singleton] at hn hm
  exact Yields.onNode (hargs (.inl rfl) hr (by omega) (by omega)) (Yields.pure _ _)

theorem climbs_index {l r : Token} {target key : Expr Token} {us ts : List Token} {k : Nat}
    (htarget : Climbs k target us) (hk : Rank.index.level ≤ k) (hl : l.Is .lbracket)
    (hkey : ReadsFree key ts) (hr : r.Is .rbracket) :
    Climbs Rank.index.level (.index l target key) (us ++ l :: (ts ++ [r])) := by
  have hmark : l.Is Tail.index.kind := hl
  have hpull : Tail.index.rank.level ≤ k := hk
  have hr' : ∀ r, Takes r Rank.index.level → r.level < Tail.index.rank.level :=
    fun r h => h.lt_call.trans (by decide)
  refine climbs_tail htarget hpull hmark hr' fun n m c _ hn _ => ?_
  rw [List.length_append, List.length_singleton] at hn
  rw [before_append]
  refine Yields.bind (hkey (releases_before hr.1 (by decide) (by decide) c []) ?_) ?_
  · rw [length_before, List.length_singleton]
    omega
  exact Yields.onNode (yields_expect hr.1 c []) (Yields.pure _ _)

/-! ### Every spelling is read -/

/-- The levels at which an expression can be spelled: its own, and in parentheses the tightest. -/
def IsLevel (e : Expr Token) (k : Nat) : Prop :=
  k = e.rank.level ∨ k = Rank.index.level

theorem IsLevel.pos {e : Expr Token} {k : Nat} (h : IsLevel e k) : 0 < k := by
  rcases h with rfl | rfl
  · cases e with
    | binary _ _ op _ => exact op.level_pos
    | _ => exact Nat.succ_pos _
  · decide

/-- An expression that is not looser than a call is of the tightest level. -/
theorem IsLevel.index_le {e : Expr Token} {k : Nat} (h : IsLevel e k)
    (hk : Rank.call.level ≤ k) : Rank.index.level ≤ k := by
  rcases h with rfl | rfl
  · cases e with
    | binary _ _ op _ => exact absurd (hk.trans_lt op.level_lt_prefixed) (by decide)
    | unary _ _ _ => exact absurd hk (Nat.not_succ_le_self _)
    | _ => exact Nat.le_refl _
  · exact Nat.le_refl _

/-- An expression climbs at a level at which it can stand at a place. -/
def ClimbsAt (place : Place) (e : Expr Token) (ts : List Token) : Prop :=
  ∃ k, IsLevel e k ∧ place.level ≤ k ∧ Climbs k e ts

theorem ClimbsAt.readsFree {e : Expr Token} {ts : List Token} (h : ClimbsAt .free e ts) :
    ReadsFree e ts := by
  obtain ⟨k, hlevel, -, hclimbs⟩ := h
  exact hclimbs.readsFree hlevel.pos

mutual

theorem climbsAt_of_spelled {place : Place} {e : Expr Token} {ts : List Token}
    (h : Expr.Spelled id true place e ts) : ClimbsAt place e ts :=
  match h with
  | .bare hplace hb => by
      rw [Place.encloses_iff] at hplace
      exact ⟨e.rank.level, .inl rfl, by omega, climbs_of_bare hb⟩
  | .pair hl he hr => by
      have hclimbs := climbs_pair hl (climbsAt_of_spelled he).readsFree hr
      exact ⟨Rank.index.level, .inr rfl, place.level_le_index, hclimbs⟩

theorem climbs_of_bare {e : Expr Token} {ts : List Token} (h : Expr.Bare id true e ts) :
    Climbs e.rank.level e ts :=
  match h with
  | .name ht => climbs_name ht
  | .int ht => climbs_int ht
  | .string ht => climbs_string ht
  | .bool ht => climbs_bool ht
  | .unary ht he => by
      obtain ⟨k, -, hk, hclimbs⟩ := climbsAt_of_spelled he
      exact climbs_unary ht hclimbs hk
  | .binary hl ht hr => by
      obtain ⟨k, -, hk, hleft⟩ := climbsAt_of_spelled hl
      obtain ⟨k', -, hk', hright⟩ := climbsAt_of_spelled hr
      exact climbs_binary hleft hk ht hright hk'
  | .cond ht hl htest hr hyes =>
      climbs_cond ht hl (climbsAt_of_spelled htest).readsFree hr (readsBlock_of_spelled hyes)
  | .condElse ht hl htest hr hyes hw hno =>
      climbs_condElse ht hl (climbsAt_of_spelled htest).readsFree hr (readsBlock_of_spelled hyes)
        hw (readsBlock_of_spelled hno)
  | .func ht hl hps hr hbody => climbs_func ht hl hps hr (readsBlock_of_spelled hbody)
  | .call hcallee hl hargs hr => by
      obtain ⟨k, -, hk, hclimbs⟩ := climbsAt_of_spelled hcallee
      exact climbs_call hclimbs hk hl (readsList_of_items hargs (readsItems_of_spelled hargs)) hr
  | .array hl hes hr => climbs_array hl (readsList_of_items hes (readsItems_of_spelled hes)) hr
  | .index htarget hl hkey hr => by
      obtain ⟨k, hlevel, hk, hclimbs⟩ := climbsAt_of_spelled htarget
      exact climbs_index hclimbs (hlevel.index_le hk) hl (climbsAt_of_spelled hkey).readsFree hr
  | .table hl hes hr => climbs_table hl (readsEntries_of_spelled hes) hr

theorem readsItems_of_spelled {es : List (Expr Token)} {ts : List Token}
    (h : Expr.ListSpelled id true es ts) : es ≠ [] → ReadsItems es ts :=
  match h with
  | .nil => fun hne => absurd rfl hne
  | .one he => fun _ => readsItems_one (climbsAt_of_spelled he).readsFree
  | .cons he hcomma hes => fun _ =>
      readsItems_cons (climbsAt_of_spelled he).readsFree hcomma
        (readsItems_of_spelled hes (by simp))

theorem readsEntries_of_spelled {es : List (Expr Token × Expr Token)} {ts : List Token}
    (h : Expr.EntriesSpelled id true es ts) : ReadsEntries es ts :=
  match h with
  | .nil => readsEntries_nil
  | .one hk hcolon hv => by
      have hkey := (climbsAt_of_spelled hk).readsFree
      have hvalue := (climbsAt_of_spelled hv).readsFree
      obtain ⟨t, ts, rfl, ht⟩ := hk.exists_head
      exact readsEntries_one hkey ht hcolon hvalue
  | .cons hk hcolon hv hcomma hes => by
      have hkey := (climbsAt_of_spelled hk).readsFree
      have hvalue := (climbsAt_of_spelled hv).readsFree
      have hentries := readsEntries_of_spelled hes
      obtain ⟨t, ts, rfl, ht⟩ := hk.exists_head
      exact readsEntries_cons hkey ht hcolon hvalue hcomma hentries

theorem readsBlock_of_spelled {b : Block Token} {ts : List Token}
    (h : Block.Spelled id true b ts) : ReadsBlock b ts :=
  match h with
  | .braces hl hss hr => readsBlock_braces hl (readsBody_of_spelled hss) hr

theorem readsStmt_of_spelled {s : Stmt Token} {ts : List Token} (h : Stmt.Spelled id true s ts) :
    ReadsStmt s ts :=
  match h with
  | .bind ht hi heq he => readsStmt_bind ht hi heq (climbsAt_of_spelled he).readsFree
  | .ret ht => readsStmt_ret ht
  | .retValue ht he => by
      have hvalue := (climbsAt_of_spelled he).readsFree
      obtain ⟨u, us, rfl, hu⟩ := he.exists_head
      exact readsStmt_retValue ht hu hvalue
  | .expr he => by
      have hvalue := (climbsAt_of_spelled he).readsFree
      obtain ⟨u, us, heq, hu⟩ := he.exists_head
      obtain ⟨rfl, rfl⟩ := List.cons.inj heq
      exact readsStmt_expr hu hvalue

theorem readsBody_of_spelled {ss : List (Stmt Token)} {ts : List Token}
    (h : Stmt.ListSpelled id true ss ts) : ReadsBody ss ts :=
  match h with
  | .nil => readsBody_nil
  | .cons hs hus hlast hss => by
      have hstmt := readsStmt_of_spelled hs
      have hbody := readsBody_of_spelled hss
      obtain ⟨t, ts, rfl, hbrace, heof⟩ := exists_head_of_spelled hs
      exact readsBody_cons hstmt hbrace heof hus (nil_of_last hlast hss) hbody

end

theorem yields_program {ss : List (Stmt Token)} {ts : List Token}
    (h : Program.Spelled id true ss ts) {n count : Nat} {c : Cursor} (hc : c.rest = [])
    (heof : c.finish.kind = .eof) (hn : ts.length < n) (hcount : ts.length < count) :
    Yields (program (expression n) count) (c.before ts) ss c := by
  have hnext : c.next.kind = .eof := by
    rw [next, hc]
    exact heof
  unfold Program.Spelled at h
  induction ss generalizing ts count with
  | nil =>
      obtain ⟨count, rfl⟩ := Nat.exists_eq_add_one.2 (Nat.zero_lt_of_lt hcount)
      cases h
      unfold program
      apply Yields.bind (yields_peek c)
      rw [if_pos hnext]
      exact Yields.pure _ _
  | cons s ss ih =>
      obtain ⟨count, rfl⟩ := Nat.exists_eq_add_one.2 (Nat.zero_lt_of_lt hcount)
      cases h with
      | @cons _ _ ts us vs hs hus hlast hss =>
          have hstmt := readsStmt_of_spelled hs
          have hnil := nil_of_last hlast hss
          obtain ⟨t, ts, rfl, -, hne⟩ := exists_head_of_spelled hs
          simp only [List.length_append, List.length_cons] at hn hcount
          unfold program
          apply Yields.bind (yields_peek _)
          rw [List.cons_append, next_before_cons, if_neg hne, ← List.cons_append,
            ← List.append_assoc, before_append]
          refine Yields.bind (hstmt hus ?_ ?_) ?_
          · intro hus
            rw [hnil hus]
            exact .inr hnext
          · rw [length_before, hc, List.length_cons, List.length_nil]
            omega
          · exact Yields.bind (ih hss (by omega) (by omega)) (Yields.pure _ _)

end Grammar

/-- A text whose tokens are a spelling of a tree reads as the tree, without a fault. -/
theorem parse_of_spelled {source : String} {p : Program Token}
    (h : p.Spelled id true (tokens source)) : parse source = ⟨p, []⟩ := by
  have hyields := Grammar.yields_program (c := ⟨[], endToken source, []⟩) h rfl rfl
    (Nat.lt_succ_self _) (Nat.lt_succ_self _)
  rw [Cursor.before, List.append_nil] at hyields
  exact parse_of_program hyields

end Treewalk
