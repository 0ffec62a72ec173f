import Treewalk.Proofs.Syntax.Reading
import Treewalk.Syntax.Read
import Treewalk.Syntax.Render

/-! # What is read is what is written

Every rule of the grammar ends, and what it finds without noting a fault is spelled by the tokens
it took.

* `Sub.Reads n sub` is the assumption of each rule on the reader of nested expressions: it ends on
  every cursor with at most `n` tokens, takes a token if there is one, and finds what
  `FoundAbove` says.
* `reads_expression` discharges it: `expression (n + 1)` reads whatever has at most `n` tokens.  So
  one more than the number of tokens is enough for a text (`parse_sound`).
* `spelled_parse`: the tokens of a text that reads without a fault are a spelling of its program.
* `leaves_parse`: whatever the faults, every leaf of a statement that was read is a leaf of a
  token of the text. -/

namespace Treewalk

namespace Grammar

open Reading Cursor

/-- The level at which a token pulls the expression before it into a larger one, and zero if it
does not. -/
def pull (k : Token.Kind) : Nat :=
  match Tail.ofKind? k with
  | some tail => tail.rank.level
  | none => 0

/-- What a reader of expressions above a rank finds: no operator outside parentheses is looser than
the rank allows, and the next token does not belong to the expression any more. -/
def FoundAbove (r : Rank) (e : Expr Token) (us : List Token) (c : Cursor) : Prop :=
  ∃ k, Expr.Tight id false k e us ∧ (r.level < k ∨ Rank.prefixed.level ≤ k) ∧
    pull c.next.kind ≤ r.level

/-- A reader of nested expressions that ends on all cursors with at most `n` tokens. -/
def Sub.Reads (ok : Leaf Token → Prop) (n : Nat) (sub : Sub) : Prop :=
  ∀ r c, c.Fits ok → c.rest.length ≤ n →
    Ends (sub r) c (Finds ok Expr.leaves (FoundAbove r) (c.rest.length - 1) c)

variable {ok : Leaf Token → Prop} {n : Nat} {sub : Sub}

/-- Between delimiters any expression may stand. -/
theorem Sub.Reads.free (h : Sub.Reads ok n sub) {c : Cursor} (hc : c.Fits ok)
    (hn : c.rest.length ≤ n) :
    Ends (sub .lowest) c (Finds ok Expr.leaves
      (fun e us _ => Expr.Spelled id false .free e us) (c.rest.length - 1) c) := by
  refine (h .lowest c hc hn).finds_mono ?_
  rintro e us c' ⟨k, hk, -, -⟩
  exact hk.spelled (Nat.zero_le k)

theorem Sub.Reads.right (h : Sub.Reads ok n sub) (op : BinaryOp) {c : Cursor} (hc : c.Fits ok)
    (hn : c.rest.length ≤ n) :
    Ends (sub op.rank) c (Finds ok Expr.leaves
      (fun e us c' => Expr.Spelled id false (.right op) e us ∧ pull c'.next.kind ≤ op.rank.level)
      (c.rest.length - 1) c) := by
  refine (h op.rank c hc hn).finds_mono ?_
  rintro e us c' ⟨k, hk, habove, hpull⟩
  have := op.level_lt_prefixed
  refine ⟨hk.spelled ?_, hpull⟩
  simp only [Place.level]
  omega

theorem Sub.Reads.operand (h : Sub.Reads ok n sub) {c : Cursor} (hc : c.Fits ok)
    (hn : c.rest.length ≤ n) :
    Ends (sub .prefixed) c (Finds ok Expr.leaves
      (fun e us c' => Expr.Spelled id false .operand e us ∧
        pull c'.next.kind ≤ Rank.prefixed.level) (c.rest.length - 1) c) := by
  refine (h .prefixed c hc hn).finds_mono ?_
  rintro e us c' ⟨k, hk, habove, hpull⟩
  refine ⟨hk.spelled ?_, hpull⟩
  simp only [Place.level]
  omega

/-! ### Statements -/

theorem ends_skipSemicolon {α : Type} {c : Cursor} {Q : α → Cursor → Prop}
    {next : Unit → Reading α} (hc : c.Fits ok)
    (hnext : ∀ us c', Ending us → Took c us c' → c'.rest.length ≤ c.rest.length →
      c.faults = c'.faults → Ends (next ()) c' Q) :
    Ends (skipSemicolon >>= next) c Q := by
  have h : Ends skipSemicolon c fun _ c' => ∃ us, Ending us ∧ Took c us c' ∧
      c'.rest.length ≤ c.rest.length ∧ c.faults = c'.faults := by
    refine ends_accept hc (by decide) ?_ ?_
    · intro t c' hk hleg htook _ hlen hfaults
      exact Ends.pure ⟨[t], .semicolon (hleg.is hk rfl), htook, hlen.le, hfaults⟩
    · intro _
      exact Ends.pure ⟨[], .none, Took.refl c, Nat.le_refl _, rfl⟩
  refine Ends.bind h ?_
  rintro _ c' ⟨us, hend, htook, hlen, hfaults⟩
  exact hnext us c' hend htook hlen hfaults

theorem ends_binding (hsub : Sub.Reads ok n sub) {mark : Token} (hmark : mark.Is .letWord)
    (hok : ok (.word .letWord mark)) {c : Cursor} (hc : c.Fits ok) (hn : c.rest.length ≤ n) :
    Ends (binding sub mark) c (Finds ok Stmt.leaves
      (fun s us _ => Stmt.Ended id false s (mark :: us)) c.rest.length c) := by
  unfold binding
  refine finds_expect (Took.refl c) hc (Nat.le_refl _) (by decide) ?_
  intro name c₁ hname _ hleaves h₁ hc₁ hlen₁ hf₁
  refine finds_expect h₁ hc₁ hlen₁.le (by decide) ?_
  intro eq c₂ heq hleg _ h₂ hc₂ hlen₂ hf₂
  refine finds_part h₂ hc₂ (hsub.free hc₂ (by omega)) ?_
  intro value c₃ vs h₃ hc₃ hlen₃ hf₃ hok₃ hS₃
  refine ends_skipSemicolon hc₃ ?_
  intro us c₄ hend h₄ hlen₄ hf₄
  refine finds_map (h₃.trans h₄) (by omega) ?_ ?_
  · intro e he l hl
    simp only [Stmt.leaves, List.mem_cons] at hl
    rcases hl with rfl | rfl | hl
    · exact hok
    · exact hleaves _ (Token.name_mem_leaves hname)
    · exact hok₃ e he l hl
  · intro hle
    obtain ⟨e, he, hS⟩ := hS₃ (by omega)
    refine ⟨e, he, mark :: name :: eq :: vs, us, by simp, ?_, hend⟩
    exact .bind hmark hname (hleg.is heq rfl) hS

theorem ends_returning (hsub : Sub.Reads ok n sub) {mark : Token} (hmark : mark.Is .returnWord)
    (hok : ok (.word .returnWord mark)) {c : Cursor} (hc : c.Fits ok) (hn : c.rest.length ≤ n) :
    Ends (returning sub mark) c (Finds ok Stmt.leaves
      (fun s us _ => Stmt.Ended id false s (mark :: us)) c.rest.length c) := by
  unfold returning
  apply ends_peek
  split
  · refine ends_skipSemicolon hc ?_
    intro us c₁ hend h₁ hlen₁ hf₁
    refine finds_some h₁ hlen₁ ?_ fun _ => ⟨[mark], us, rfl, .ret hmark, hend⟩
    simpa [Stmt.leaves] using hok
  · refine finds_part (Took.refl _) hc (hsub.free hc hn) ?_
    intro value c₁ vs h₁ hc₁ hlen₁ hf₁ hok₁ hS₁
    refine ends_skipSemicolon hc₁ ?_
    intro us c₂ hend h₂ hlen₂ hf₂
    refine finds_map (h₁.trans h₂) (by omega) ?_ ?_
    · intro e he l hl
      simp only [Stmt.leaves, List.mem_cons] at hl
      rcases hl with rfl | hl
      · exact hok
      · exact hok₁ e he l hl
    · intro hle
      obtain ⟨e, he, hS⟩ := hS₁ (by omega)
      exact ⟨e, he, mark :: vs, us, by simp, .retValue hmark hS, hend⟩

theorem ends_exprStatement (hsub : Sub.Reads ok n sub) {c : Cursor} (hc : c.Fits ok)
    (hn : c.rest.length ≤ n) :
    Ends (exprStatement sub) c (Finds ok Stmt.leaves
      (fun s us _ => Stmt.Ended id false s us) (c.rest.length - 1) c) := by
  unfold exprStatement
  apply ends_peek
  refine finds_part (Took.refl c) hc (hsub.free hc hn) ?_
  intro value c₁ vs h₁ hc₁ hlen₁ hf₁ hok₁ hS₁
  refine ends_skipSemicolon hc₁ ?_
  intro us c₂ hend h₂ hlen₂ hf₂
  refine finds_map (h₁.trans h₂) (by omega) ?_ ?_
  · intro e he l hl
    exact hok₁ e he l (by simpa [Stmt.leaves] using hl)
  · intro hle
    obtain ⟨e, he, hS⟩ := hS₁ (by omega)
    obtain ⟨t, ts, rfl, -⟩ := hS.exists_head
    have ht : c.next = t := by rw [Cursor.next, h₁.rest]; rfl
    refine ⟨e, he, t :: ts, us, by simp, ?_, hend⟩
    rw [ht]
    exact .expr hS

theorem ends_statement (hsub : Sub.Reads ok n sub) {c : Cursor} (hc : c.Fits ok)
    (hn : c.rest.length ≤ n) :
    Ends (statement sub) c (Finds ok Stmt.leaves
      (fun s us _ => Stmt.Ended id false s us) (c.rest.length - 1) c) := by
  unfold statement
  apply ends_peek
  split
  · rename_i hk
    refine ends_take hc (by rw [hk]; decide) ?_
    intro c₁ hleg hleaves h₁ hc₁ hlen₁ hf₁
    have hmark := hleg.is hk rfl
    have hword := hleaves _ (Token.word_mem_leaves _)
    rw [hk] at hword
    exact finds_last h₁ (ends_binding hsub hmark hword hc₁ (by omega)) (by omega)
      fun _ s vs _ hs => hs
  · rename_i hk
    refine ends_take hc (by rw [hk]; decide) ?_
    intro c₁ hleg hleaves h₁ hc₁ hlen₁ hf₁
    have hmark := hleg.is hk rfl
    have hword := hleaves _ (Token.word_mem_leaves _)
    rw [hk] at hword
    exact finds_last h₁ (ends_returning hsub hmark hword hc₁ (by omega)) (by omega)
      fun _ s vs _ hs => hs
  · exact ends_exprStatement hsub hc hn

theorem ends_blockBody (hsub : Sub.Reads ok n sub) {count : Nat} {c : Cursor} (hc : c.Fits ok)
    (hn : c.rest.length ≤ n) (hcount : c.rest.length < count) :
    Ends (blockBody sub count) c (Finds ok Stmt.allLeaves
      (fun ss us _ => ∃ ts r, us = ts ++ [r] ∧ Stmt.ListSpelled id false ss ts ∧ r.Is .rbrace)
      c.rest.length c) := by
  induction count generalizing c with
  | zero => omega
  | succ count ih =>
      unfold blockBody
      apply ends_peek
      split
      · rename_i hk
        refine ends_take hc (by rw [hk]; decide) ?_
        intro c₁ hleg _ h₁ hc₁ hlen₁ hf₁
        refine finds_some h₁ hlen₁.le (by simp [Stmt.allLeaves]) fun _ => ?_
        exact ⟨[], c.next, rfl, .nil, hleg.is hk rfl⟩
      · split
        · exact finds_report (Took.refl c) (Nat.le_refl _) _
        · rename_i _ heof
          obtain ⟨rest, hr⟩ := hc.rest_eq_of_ne_eof heof
          have hpos : 0 < c.rest.length := by rw [hr]; simp
          refine finds_part (Took.refl c) hc (ends_statement hsub hc hn) ?_
          intro s c₁ vs h₁ hc₁ hlen₁ hf₁ hok₁ hS₁
          refine finds_part h₁ hc₁ (ih hc₁ (by omega) (by omega)) ?_
          intro ss c₂ ws h₂ hc₂ hlen₂ hf₂ hok₂ hS₂
          refine finds_map h₂ (by omega) ?_ ?_
          · intro rs hrs l hl
            rw [Stmt.allLeaves_append, List.mem_append] at hl
            rcases hl with hl | hl
            · cases s with
              | none => simp [Stmt.allLeaves] at hl
              | some s => exact hok₁ s rfl l (by simpa [Stmt.allLeaves] using hl)
            · exact hok₂ rs hrs l hl
          · intro hle
            obtain ⟨s', rfl, ts, us, rfl, hs, hend⟩ := hS₁ (by omega)
            obtain ⟨rs, rfl, ts', r, rfl, hrs, hr⟩ := hS₂ hle
            refine ⟨rs, rfl, ts ++ (us ++ ts'), r, by simp, ?_, hr⟩
            exact .cons hs hend (by simp) hrs

theorem ends_block (hsub : Sub.Reads ok n sub) {count : Nat} {c : Cursor} (hc : c.Fits ok)
    (hn : c.rest.length ≤ n) (hcount : c.rest.length < count) :
    Ends (block sub count) c (Finds ok Block.leaves
      (fun b us _ => Block.Spelled id false b us) c.rest.length c) := by
  unfold block
  refine finds_expect (Took.refl c) hc (Nat.le_refl _) (by decide) ?_
  intro mark c₁ hk hleg _ h₁ hc₁ hlen₁ hf₁
  refine finds_part h₁ hc₁ (ends_blockBody hsub hc₁ (by omega) (by omega)) ?_
  intro body c₂ vs h₂ hc₂ hlen₂ hf₂ hok₂ hS₂
  refine finds_map h₂ (by omega) hok₂ ?_
  intro hle
  obtain ⟨ss, hss, ts, r, rfl, hspelled, hr⟩ := hS₂ hle
  exact ⟨ss, hss, .braces (hleg.is hk rfl) hspelled hr⟩

theorem ends_program (hsub : Sub.Reads ok n sub) {count : Nat} {c : Cursor} (hc : c.Fits ok)
    (hn : c.rest.length ≤ n) (hcount : c.rest.length < count) :
    Ends (program sub count) c fun ss c' =>
      Took c c.rest c' ∧ (∀ s ∈ ss, ∀ l ∈ s.leaves, ok l) ∧
        (c'.faults ≤ c.faults → Stmt.ListSpelled id false ss c.rest) := by
  induction count generalizing c with
  | zero => omega
  | succ count ih =>
      unfold program
      apply ends_peek
      split
      · rename_i heof
        have hnil := hc.rest_eq_nil_of_eof heof
        refine Ends.pure ⟨?_, by simp, fun _ => ?_⟩
        · rw [hnil]; exact Took.refl c
        · rw [hnil]; exact .nil
      · rename_i heof
        obtain ⟨rest, hr⟩ := hc.rest_eq_of_ne_eof heof
        have hpos : 0 < c.rest.length := by rw [hr]; simp
        refine finds_part (Took.refl c) hc (ends_statement hsub hc hn) ?_
        intro s c₁ vs h₁ hc₁ hlen₁ hf₁ hok₁ hS₁
        refine Ends.bind (ih hc₁ (by omega) (by omega)) ?_
        rintro ss c₂ ⟨h₂, hok₂, hS₂⟩
        have hrest : c.rest = [] ++ vs ++ c₁.rest := h₁.rest
        refine Ends.pure ⟨?_, ?_, ?_⟩
        · rw [hrest]; exact h₁.trans h₂
        · intro s' hs'
          rcases List.mem_append.1 hs' with hs' | hs'
          · exact hok₁ s' (by simpa using hs')
          · exact hok₂ s' hs'
        · intro hle
          have hf₂ := h₂.faults_le
          obtain ⟨s', rfl, ts, us, rfl, hs, hend⟩ := hS₁ (by omega)
          rw [hrest, List.nil_append, List.append_assoc]
          exact .cons hs hend (by simp) (hS₂ (by omega))

/-! ### Lists -/

theorem ends_items (hsub : Sub.Reads ok n sub) {close : Token.Kind} (hclose : close ≠ .eof)
    (hfixed : close.isFixed = true) {count : Nat} {c : Cursor} (hc : c.Fits ok)
    (hn : c.rest.length ≤ n) (hcount : c.rest.length < count) :
    Ends (items sub close count) c (Finds ok Expr.allLeaves
      (fun es us _ => es ≠ [] ∧ ∃ ts r, us = ts ++ [r] ∧ Expr.ListSpelled id false es ts ∧
        r.Is close) c.rest.length c) := by
  induction count generalizing c with
  | zero => omega
  | succ count ih =>
      unfold items
      refine finds_part (Took.refl c) hc (hsub.free hc hn) ?_
      intro e c₁ vs h₁ hc₁ hlen₁ hf₁ hok₁ hS₁
      refine ends_accept hc₁ (by decide) ?_ ?_
      · intro comma c₂ hk hleg h₂ hc₂ hlen₂ hf₂
        refine finds_part (h₁.trans h₂) hc₂ (ih hc₂ (by omega) (by omega)) ?_
        intro es c₃ ws h₃ hc₃ hlen₃ hf₃ hok₃ hS₃
        cases e with
        | none =>
            refine Ends.pure (finds_none h₃ (by omega) ?_)
            by_contra hle
            obtain ⟨e, he, -⟩ := hS₁ (by omega)
            cases he
        | some e =>
            refine finds_map h₃ (by omega) ?_ ?_
            · intro rs hrs l hl
              simp only [Expr.allLeaves, List.mem_append] at hl
              rcases hl with hl | hl
              · exact hok₁ e rfl l hl
              · exact hok₃ rs hrs l hl
            · intro hle
              obtain ⟨e', he', hspelled⟩ := hS₁ (by omega)
              obtain rfl := Option.some.inj he'
              obtain ⟨rs, rfl, hne, ts, r, rfl, hrs, hr⟩ := hS₃ hle
              obtain ⟨e₂, es₂, rfl⟩ := List.exists_cons_of_ne_nil hne
              refine ⟨_, rfl, by simp, vs ++ comma :: ts, r, by simp, ?_, hr⟩
              exact .cons hspelled (hleg.is hk rfl) hrs
      · intro _
        refine finds_expect h₁ hc₁ (by omega) hclose ?_
        intro r c₂ hk hleg _ h₂ hc₂ hlen₂ hf₂
        refine finds_map h₂ (by omega) ?_ ?_
        · intro e' he' l hl
          exact hok₁ e' he' l (by simpa [Expr.allLeaves] using hl)
        · intro hle
          obtain ⟨e', rfl, hspelled⟩ := hS₁ (by omega)
          exact ⟨e', rfl, by simp, vs, r, by simp, .one hspelled, hleg.is hk hfixed⟩

theorem ends_list (hsub : Sub.Reads ok n sub) {close : Token.Kind} (hclose : close ≠ .eof)
    (hfixed : close.isFixed = true) {count : Nat} {c : Cursor} (hc : c.Fits ok)
    (hn : c.rest.length ≤ n) (hcount : c.rest.length < count) :
    Ends (list sub close count) c (Finds ok Expr.allLeaves
      (fun es us _ => ∃ ts r, us = ts ++ [r] ∧ Expr.ListSpelled id false es ts ∧ r.Is close)
      c.rest.length c) := by
  unfold list
  refine ends_accept hc hclose ?_ ?_
  · intro r c₁ hk hleg h₁ hc₁ hlen₁ hf₁
    refine finds_some h₁ hlen₁.le (by simp [Expr.allLeaves]) fun _ => ?_
    exact ⟨[], r, rfl, .nil, hleg.is hk hfixed⟩
  · intro _
    exact (ends_items hsub hclose hfixed hc hn hcount).finds_mono fun es us _ h => h.2

/-- The leaves of the names of parameters. -/
def nameLeaves (is : List (Ident Token)) : List (Leaf Token) :=
  is.map fun i => .name i.name

theorem ends_names {count : Nat} {c : Cursor} (hc : c.Fits ok) (hcount : c.rest.length < count) :
    Ends (names count) c (Finds ok nameLeaves
      (fun is us _ => is ≠ [] ∧ ∃ ts r, us = ts ++ [r] ∧ Ident.ListSpelled id is ts ∧
        r.Is .rparen) c.rest.length c) := by
  induction count generalizing c with
  | zero => omega
  | succ count ih =>
      unfold names
      refine finds_expect (Took.refl c) hc (Nat.le_refl _) (by decide) ?_
      intro t c₁ ht _ hleaves h₁ hc₁ hlen₁ hf₁
      have hname := hleaves _ (Token.name_mem_leaves ht)
      refine ends_accept hc₁ (by decide) ?_ ?_
      · intro comma c₂ hk hleg h₂ hc₂ hlen₂ hf₂
        refine finds_part (h₁.trans h₂) hc₂ (ih hc₂ (by omega)) ?_
        intro is c₃ ws h₃ hc₃ hlen₃ hf₃ hok₃ hS₃
        refine finds_map h₃ (by omega) ?_ ?_
        · intro js hjs l hl
          rcases List.mem_cons.1 hl with rfl | hl
          · exact hname
          · exact hok₃ js hjs l hl
        · intro hle
          obtain ⟨js, rfl, hne, ts, r, rfl, hjs, hr⟩ := hS₃ hle
          obtain ⟨j, js', rfl⟩ := List.exists_cons_of_ne_nil hne
          refine ⟨_, rfl, by simp, t :: comma :: ts, r, by simp, ?_, hr⟩
          exact .cons ht (hleg.is hk rfl) hjs
      · intro _
        refine finds_expect h₁ hc₁ hlen₁.le (by decide) ?_
        intro r c₂ hk hleg _ h₂ hc₂ hlen₂ hf₂
        refine finds_some h₂ (by omega) ?_ fun _ => ?_
        · simpa [nameLeaves] using hname
        · exact ⟨by simp, [t], r, rfl, .one ht, hleg.is hk rfl⟩

theorem ends_params {count : Nat} {c : Cursor} (hc : c.Fits ok) (hcount : c.rest.length < count) :
    Ends (params count) c (Finds ok nameLeaves
      (fun is us _ => ∃ l ts r, us = l :: (ts ++ [r]) ∧ l.Is .lparen ∧
        Ident.ListSpelled id is ts ∧ r.Is .rparen) c.rest.length c) := by
  unfold params
  refine finds_expect (Took.refl c) hc (Nat.le_refl _) (by decide) ?_
  intro l c₁ hl hlegl _ h₁ hc₁ hlen₁ hf₁
  refine ends_accept hc₁ (by decide) ?_ ?_
  · intro r c₂ hk hleg h₂ hc₂ hlen₂ hf₂
    refine finds_some (h₁.trans h₂) (by omega) (by simp [nameLeaves]) fun _ => ?_
    exact ⟨l, [], r, rfl, hlegl.is hl rfl, .nil, hleg.is hk rfl⟩
  · intro _
    refine finds_last h₁ (ends_names hc₁ (by omega)) (by omega) ?_
    rintro _ is vs c' ⟨-, ts, r, rfl, his, hr⟩
    exact ⟨l, ts, r, rfl, hlegl.is hl rfl, his, hr⟩

/-- At a closing brace there are no more entries. -/
theorem ends_entries_of_rbrace {count : Nat} {c : Cursor} (hc : c.Fits ok)
    (hk : c.next.kind = .rbrace) (hcount : c.rest.length < count) :
    Ends (entries sub count) c (Finds ok Expr.entryLeaves
      (fun es us _ => es = [] ∧ ∃ r, us = [r] ∧ r.Is .rbrace) c.rest.length c) := by
  cases count with
  | zero => omega
  | succ count =>
      unfold entries
      refine ends_accept hc (by decide) ?_ fun hne => absurd hk hne
      intro r c₁ hr hleg h₁ hc₁ hlen₁ hf₁
      refine finds_some h₁ hlen₁.le (by simp [Expr.entryLeaves]) fun _ => ?_
      exact ⟨rfl, r, rfl, hleg.is hr rfl⟩

theorem ends_entries (hsub : Sub.Reads ok n sub) {count : Nat} {c : Cursor} (hc : c.Fits ok)
    (hn : c.rest.length ≤ n) (hcount : c.rest.length < count) :
    Ends (entries sub count) c (Finds ok Expr.entryLeaves
      (fun es us _ => ∃ ts r, us = ts ++ [r] ∧ Expr.EntriesSpelled id false es ts ∧
        r.Is .rbrace) c.rest.length c) := by
  induction count generalizing c with
  | zero => omega
  | succ count ih =>
      unfold entries
      refine ends_accept hc (by decide) ?_ ?_
      · intro r c₁ hk hleg h₁ hc₁ hlen₁ hf₁
        refine finds_some h₁ hlen₁.le (by simp [Expr.entryLeaves]) fun _ => ?_
        exact ⟨[], r, rfl, .nil, hleg.is hk rfl⟩
      · intro _
        refine finds_part (Took.refl c) hc (hsub.free hc hn) ?_
        intro key c₁ us h₁ hc₁ hlen₁ hf₁ hok₁ hS₁
        refine finds_expect h₁ hc₁ (by omega) (by decide) ?_
        intro colon c₂ hcolon hlegc _ h₂ hc₂ hlen₂ hf₂
        refine finds_part h₂ hc₂ (hsub.free hc₂ (by omega)) ?_
        intro value c₃ vs h₃ hc₃ hlen₃ hf₃ hok₃ hS₃
        split
        · rename_i k v
          have hkv : ∀ es, (∀ l ∈ Expr.entryLeaves es, ok l) →
              ∀ l ∈ Expr.entryLeaves ((k, v) :: es), ok l := by
            intro es hes l hl
            simp only [Expr.entryLeaves, List.mem_append] at hl
            rcases hl with hl | hl | hl
            · exact hok₁ k rfl l hl
            · exact hok₃ v rfl l hl
            · exact hes l hl
          have hspelled : c₃.faults ≤ c.faults →
              Expr.Spelled id false .free k us ∧ Expr.Spelled id false .free v vs := by
            intro hle
            obtain ⟨k', hk', hk⟩ := hS₁ (by omega)
            obtain ⟨v', hv', hv⟩ := hS₃ hle
            obtain rfl := Option.some.inj hk'
            obtain rfl := Option.some.inj hv'
            exact ⟨hk, hv⟩
          apply ends_peek
          split
          · rename_i hbrace
            refine finds_part h₃ hc₃ (ends_entries_of_rbrace hc₃ hbrace (by omega)) ?_
            intro es c₄ ws h₄ hc₄ hlen₄ hf₄ hok₄ hS₄
            refine finds_map h₄ (by omega) (fun es hes => hkv es (hok₄ es hes)) ?_
            intro hle
            obtain ⟨es', rfl, rfl, r, rfl, hr⟩ := hS₄ hle
            obtain ⟨hk, hv⟩ := hspelled (by omega)
            refine ⟨[], rfl, us ++ colon :: vs, r, by simp, ?_, hr⟩
            exact .one hk (hlegc.is hcolon rfl) hv
          · refine finds_expect h₃ hc₃ (by omega) (by decide) ?_
            intro comma c₄ hcomma hlegm _ h₄ hc₄ hlen₄ hf₄
            refine finds_part h₄ hc₄ (ih hc₄ (by omega) (by omega)) ?_
            intro es c₅ ws h₅ hc₅ hlen₅ hf₅ hok₅ hS₅
            refine finds_map h₅ (by omega) (fun es hes => hkv es (hok₅ es hes)) ?_
            intro hle
            obtain ⟨es', rfl, ts, r, rfl, hes, hr⟩ := hS₅ hle
            obtain ⟨hk, hv⟩ := hspelled (by omega)
            refine ⟨es', rfl, us ++ colon :: (vs ++ comma :: ts), r, by simp, ?_, hr⟩
            exact .cons hk (hlegc.is hcolon rfl) hv (hlegm.is hcomma rfl) hes
        · rename_i hnone
          refine Ends.pure (finds_none h₃ (by omega) ?_)
          by_contra hle
          obtain ⟨k, rfl, -⟩ := hS₁ (by omega)
          obtain ⟨v, rfl, -⟩ := hS₃ (by omega)
          exact hnone k v rfl rfl

/-! ### Expressions -/

/-- The tokens spell an expression whose own tokens close it on both sides, or that is a single
token. -/
def FoundWhole (e : Expr Token) (us : List Token) : Prop :=
  Expr.Bare id false e us ∧ e.rank = .index

theorem ends_conditional (hsub : Sub.Reads ok n sub) {count : Nat} {mark : Token}
    (hmark : mark.Is .ifWord) {c : Cursor} (hc : c.Fits ok) (hn : c.rest.length ≤ n)
    (hcount : c.rest.length < count) :
    Ends (conditional sub count mark) c (Finds ok Expr.leaves
      (fun e us _ => FoundWhole e (mark :: us)) c.rest.length c) := by
  unfold conditional
  refine finds_expect (Took.refl c) hc (Nat.le_refl _) (by decide) ?_
  intro l c₁ hl hlegl _ h₁ hc₁ hlen₁ hf₁
  refine finds_part h₁ hc₁ (hsub.free hc₁ (by omega)) ?_
  intro test c₂ ts h₂ hc₂ hlen₂ hf₂ hok₂ hS₂
  refine finds_expect h₂ hc₂ (by omega) (by decide) ?_
  intro r c₃ hr hlegr _ h₃ hc₃ hlen₃ hf₃
  refine finds_node h₃ hc₃ (ends_block hsub hc₃ (by omega) (by omega)) (by omega) ?_
  intro yes c₄ ys h₄ hc₄ hlen₄ hf₄ hok₄ hS₄
  refine ends_accept hc₄ (by decide) ?_ ?_
  · intro w c₅ hw hlegw h₅ hc₅ hlen₅ hf₅
    refine finds_node (h₄.trans h₅) hc₅ (ends_block hsub hc₅ (by omega) (by omega)) (by omega) ?_
    intro no c₆ ns h₆ hc₆ hlen₆ hf₆ hok₆ hS₆
    refine finds_map h₆ (by omega) ?_ ?_
    · intro e he l hl
      simp only [Expr.leaves, List.mem_append] at hl
      rcases hl with hl | hl | hl
      · exact hok₂ e he l hl
      · exact hok₄ l hl
      · exact hok₆ l hl
    · intro hle
      obtain ⟨e, rfl, he⟩ := hS₂ (by omega)
      refine ⟨e, rfl, ?_, rfl⟩
      have := Expr.Bare.condElse hmark (hlegl.is hl rfl) he (hlegr.is hr rfl) (hS₄ (by omega))
        (hlegw.is hw rfl) (hS₆ hle)
      simpa using this
  · intro _
    refine finds_map h₄ (by omega) ?_ ?_
    · intro e he l hl
      simp only [Expr.leaves, List.mem_append] at hl
      rcases hl with hl | hl
      · exact hok₂ e he l hl
      · exact hok₄ l hl
    · intro hle
      obtain ⟨e, rfl, he⟩ := hS₂ (by omega)
      refine ⟨e, rfl, ?_, rfl⟩
      have := Expr.Bare.cond hmark (hlegl.is hl rfl) he (hlegr.is hr rfl) (hS₄ hle)
      simpa using this

theorem ends_function (hsub : Sub.Reads ok n sub) {count : Nat} {mark : Token}
    (hmark : mark.Is .fnWord) (hok : ok (.word .fnWord mark)) {c : Cursor} (hc : c.Fits ok)
    (hn : c.rest.length ≤ n) (hcount : c.rest.length < count) :
    Ends (function sub count mark) c (Finds ok Expr.leaves
      (fun e us _ => FoundWhole e (mark :: us)) c.rest.length c) := by
  unfold function
  refine finds_node (Took.refl c) hc (ends_params hc hcount) (Nat.le_refl _) ?_
  intro ps c₁ us h₁ hc₁ hlen₁ hf₁ hok₁ hS₁
  refine finds_node h₁ hc₁ (ends_block hsub hc₁ (by omega) (by omega)) (by omega) ?_
  intro body c₂ bs h₂ hc₂ hlen₂ hf₂ hok₂ hS₂
  refine finds_some h₂ (by omega) ?_ fun hle => ?_
  · intro l hl
    simp only [Expr.leaves, List.mem_cons, List.mem_append] at hl
    rcases hl with rfl | hl | hl
    · exact hok
    · exact hok₁ l hl
    · exact hok₂ l hl
  · obtain ⟨l, ts, r, rfl, hl, hps, hr⟩ := hS₁ (by omega)
    refine ⟨?_, rfl⟩
    have := Expr.Bare.func hmark hl hps hr (hS₂ hle)
    simpa using this

theorem ends_grouped (hsub : Sub.Reads ok n sub) {c : Cursor} (hc : c.Fits ok)
    (hn : c.rest.length ≤ n) :
    Ends (grouped sub) c (Finds ok Expr.leaves
      (fun e us _ => ∃ ts r, us = ts ++ [r] ∧ Expr.Spelled id false .free e ts ∧ r.Is .rparen)
      c.rest.length c) := by
  unfold grouped
  refine finds_part (Took.refl c) hc (hsub.free hc hn) ?_
  intro e c₁ ts h₁ hc₁ hlen₁ hf₁ hok₁ hS₁
  refine finds_expect h₁ hc₁ (by omega) (by decide) ?_
  intro r c₂ hr hlegr _ h₂ hc₂ hlen₂ hf₂
  refine Ends.pure ⟨_, h₂, by omega, hok₁, fun hle => ?_⟩
  obtain ⟨e, rfl, he⟩ := hS₁ (by omega)
  exact ⟨e, rfl, ts, r, rfl, he, hlegr.is hr rfl⟩

theorem ends_number {t : Token} (ht : t.kind = .int) (hleg : t.Legible)
    (hleaves : ∀ l ∈ t.leaves, ok l) (c : Cursor) :
    Ends (number t) c (Finds ok Expr.leaves
      (fun e us _ => FoundWhole e (t :: us)) c.rest.length c) := by
  unfold number
  split
  · rename_i v hv
    refine finds_some (Took.refl c) (Nat.le_refl _) ?_ fun _ => ⟨.int (hleg.shows ht hv), rfl⟩
    simpa [Expr.leaves] using hleaves _ (Token.int_mem_leaves ht hv)
  · exact finds_report (Took.refl c) (Nat.le_refl _) _

theorem pull_le_index (k : Token.Kind) : pull k ≤ Rank.index.level := by
  cases k <;> decide

/-- What has been read of an expression: it holds together at least as tightly as `least`, and as
the next token pulls. -/
def FoundPart (least : Nat) (e : Expr Token) (us : List Token) (c : Cursor) : Prop :=
  ∃ k, Expr.Tight id false k e us ∧ least ≤ k ∧ pull c.next.kind ≤ k

theorem FoundWhole.part {e : Expr Token} {us : List Token} (h : FoundWhole e us) {least : Nat}
    (hl : least ≤ Rank.index.level) (c : Cursor) : FoundPart least e us c :=
  ⟨Rank.index.level, .inl ⟨by rw [h.2], h.1⟩, hl, pull_le_index _⟩

theorem prefixed_le_index : Rank.prefixed.level ≤ Rank.index.level := by
  decide

/-- At the end of the text no expression starts. -/
theorem ends_primary_of_eof {count : Nat} {c : Cursor} (hc : c.Fits ok)
    (hk : c.next.kind = .eof) :
    Ends (primary sub count) c fun x c' => x = none ∧ Took c [] c' ∧ c.faults < c'.faults := by
  unfold primary
  have hafter : after c = c := by
    have hrest := hc.rest_eq_nil_of_eof hk
    cases c
    simp_all [after]
  apply ends_advance
  rw [hafter, hk]
  exact ends_report (Ends.pure ⟨rfl, took_noting _ c, by rw [faults_noting]; omega⟩)

theorem ends_unary (hsub : Sub.Reads ok n sub) {t : Token} {op : UnaryOp} (ht : t.Is op.kind)
    {c : Cursor} (hc : c.Fits ok) (hn : c.rest.length ≤ n) :
    Ends (onNode (sub .prefixed) fun e => return some (.unary t op e)) c
      (Finds ok Expr.leaves (fun e us => FoundPart Rank.prefixed.level e (t :: us))
        c.rest.length c) := by
  refine finds_node (Took.refl c) hc (hsub.operand hc hn) (by omega) ?_
  intro e c₁ us h₁ hc₁ hlen₁ hf₁ hok₁ hS₁
  refine finds_some h₁ (by omega) hok₁ fun hle => ?_
  obtain ⟨he, hpull⟩ := hS₁ hle
  exact ⟨Rank.prefixed.level, .inl ⟨rfl, .unary ht he⟩, Nat.le_refl _, hpull⟩

theorem ends_array (hsub : Sub.Reads ok n sub) {count : Nat} {t : Token} (ht : t.Is .lbracket)
    {c : Cursor} (hc : c.Fits ok) (hn : c.rest.length ≤ n) (hcount : c.rest.length < count) :
    Ends (onNode (list sub .rbracket count) fun es => return some (.array t es)) c
      (Finds ok Expr.leaves (fun e us _ => FoundWhole e (t :: us)) c.rest.length c) := by
  refine finds_node (Took.refl c) hc (ends_list hsub (by decide) rfl hc hn hcount)
    (Nat.le_refl _) ?_
  intro es c₁ us h₁ hc₁ hlen₁ hf₁ hok₁ hS₁
  refine finds_some h₁ hlen₁ hok₁ fun hle => ?_
  obtain ⟨ts, r, rfl, hes, hr⟩ := hS₁ hle
  exact ⟨.array ht hes hr, rfl⟩

theorem ends_table (hsub : Sub.Reads ok n sub) {count : Nat} {t : Token} (ht : t.Is .lbrace)
    {c : Cursor} (hc : c.Fits ok) (hn : c.rest.length ≤ n) (hcount : c.rest.length < count) :
    Ends (onNode (entries sub count) fun es => return some (.table t es)) c
      (Finds ok Expr.leaves (fun e us _ => FoundWhole e (t :: us)) c.rest.length c) := by
  refine finds_node (Took.refl c) hc (ends_entries hsub hc hn hcount) (Nat.le_refl _) ?_
  intro es c₁ us h₁ hc₁ hlen₁ hf₁ hok₁ hS₁
  refine finds_some h₁ hlen₁ hok₁ fun hle => ?_
  obtain ⟨ts, r, rfl, hes, hr⟩ := hS₁ hle
  exact ⟨.table ht hes hr, rfl⟩

theorem ends_primary (hsub : Sub.Reads ok n sub) {count : Nat} {c : Cursor} (hc : c.Fits ok)
    (hn : c.rest.length ≤ n + 1) (hcount : n < count) :
    Ends (primary sub count) c
      (Finds ok Expr.leaves (FoundPart Rank.prefixed.level) (c.rest.length - 1) c) := by
  by_cases heof : c.next.kind = .eof
  · refine (ends_primary_of_eof hc heof).mono ?_
    rintro _ c' ⟨rfl, htook, hlt⟩
    have hnil := hc.rest_eq_nil_of_eof heof
    have hrest := htook.rest
    refine finds_none htook ?_ hlt
    simp_all
  unfold primary
  refine ends_take hc heof ?_
  intro c₁ hleg hleaves h₁ hc₁ hlen₁ hf₁
  -- All but the unary operators and the parentheses read a whole expression.
  have hwhole : ∀ {m : Reading (Option (Expr Token))} {n' : Nat}, n' ≤ c.rest.length - 1 →
      Ends m c₁ (Finds ok Expr.leaves (fun e us _ => FoundWhole e (c.next :: us)) n' c₁) →
      Ends m c₁ (Finds ok Expr.leaves (FoundPart Rank.prefixed.level) (c.rest.length - 1) c) :=
    fun hn' h => finds_last h₁ h hn' fun _ _ _ c' he => he.part prefixed_le_index c'
  have hbool : ∀ b, c.next.Is (if b then .trueWord else .falseWord) →
      Ends (pure (some (.bool c.next b))) c₁
        (Finds ok Expr.leaves (fun e us _ => FoundWhole e (c.next :: us)) c₁.rest.length c₁) :=
    fun b h => finds_some (Took.refl c₁) (Nat.le_refl _) (by simp [Expr.leaves])
      fun _ => ⟨.bool h, rfl⟩
  split
  · rename_i hk
    refine hwhole (by omega) (finds_some (Took.refl c₁) (Nat.le_refl _) ?_ fun _ =>
      ⟨.name hk, rfl⟩)
    simpa [Expr.leaves] using hleaves _ (Token.name_mem_leaves hk)
  · rename_i hk
    exact hwhole (by omega) (ends_number hk hleg hleaves c₁)
  · rename_i hk
    refine hwhole (by omega) (finds_some (Took.refl c₁) (Nat.le_refl _) ?_ fun _ =>
      ⟨.string hk, rfl⟩)
    simpa [Expr.leaves] using hleaves _ (Token.string_mem_leaves hk)
  · rename_i hk
    exact hwhole (by omega) (hbool true (hleg.is hk rfl))
  · rename_i hk
    exact hwhole (by omega) (hbool false (hleg.is hk rfl))
  · rename_i hk
    refine finds_last h₁ (ends_grouped hsub hc₁ (by omega)) (by omega) ?_
    rintro _ e _ c' ⟨ts, r, rfl, he, hr⟩
    exact ⟨Rank.index.level, .inr ⟨rfl, _, ts, r, hleg.is hk rfl, he, hr, rfl⟩,
      prefixed_le_index, pull_le_index _⟩
  · rename_i hk
    exact hwhole (by omega)
      (ends_conditional hsub (hleg.is hk rfl) hc₁ (by omega) (by omega))
  · rename_i hk
    have hword := hleaves _ (Token.word_mem_leaves _)
    rw [hk] at hword
    exact hwhole (by omega)
      (ends_function hsub (hleg.is hk rfl) hword hc₁ (by omega) (by omega))
  · rename_i hk
    exact hwhole (by omega) (ends_array hsub (hleg.is hk rfl) hc₁ (by omega) (by omega))
  · rename_i hk
    exact hwhole (by omega) (ends_table hsub (hleg.is hk rfl) hc₁ (by omega) (by omega))
  · split
    · rename_i op hop
      have hk := UnaryOp.ofKind?_eq_some_iff.1 hop
      have ht : c.next.Is op.kind := hleg.is hk op.isFixed_kind
      exact finds_last h₁ (ends_unary hsub ht hc₁ (by omega)) (by omega) fun _ e us c' he => he
    · exact finds_report h₁ (by omega) _

/-! ### Tails -/

/-- The kind of the token that starts a tail. -/
def Tail.kind : Tail → Token.Kind
  | binary op => op.kind
  | call => .lparen
  | index => .lbracket

theorem Tail.ofKind?_eq_some_iff {k : Token.Kind} {tail : Tail} :
    Tail.ofKind? k = some tail ↔ k = tail.kind := by
  rcases tail with op | _ | _
  · cases op <;> cases k <;> decide
  · cases k <;> decide
  · cases k <;> decide

theorem Tail.isFixed_kind (tail : Tail) : tail.kind.isFixed = true := by
  cases tail with
  | binary op => exact op.isFixed_kind
  | _ => rfl

theorem Tail.kind_ne_eof (tail : Tail) : tail.kind ≠ .eof := by
  intro h
  have := tail.isFixed_kind
  rw [h] at this
  cases this

theorem ends_extend (hsub : Sub.Reads ok n sub) {count : Nat} {tail : Tail} {mark : Token}
    (hmark : mark.Is tail.kind) {left : Expr Token} (hok : ∀ l ∈ left.leaves, ok l) {c : Cursor}
    (hc : c.Fits ok) (hn : c.rest.length ≤ n) (hcount : c.rest.length < count) :
    Ends (extend sub count mark left tail) c (Finds ok Expr.leaves
      (fun e us c' => ∀ k ls, Expr.Tight id false k left ls → tail.rank.level ≤ k →
        FoundPart tail.rank.level e (ls ++ mark :: us) c') c.rest.length c) := by
  unfold extend
  cases tail with
  | binary op =>
      refine finds_node (Took.refl c) hc (hsub.right op hc hn) (by omega) ?_
      intro right c₁ us h₁ hc₁ hlen₁ hf₁ hok₁ hS₁
      refine finds_some h₁ (by omega) ?_ ?_
      · intro l hl
        simp only [Expr.leaves, List.mem_append] at hl
        exact hl.elim (hok l) (hok₁ l)
      · intro hle k ls hleft hk
        obtain ⟨hright, hpull⟩ := hS₁ hle
        have hl : Expr.Spelled id false (.left op) left ls := hleft.spelled hk
        exact ⟨op.rank.level, .inl ⟨rfl, .binary hl hmark hright⟩, Nat.le_refl _, hpull⟩
  | call =>
      refine finds_node (Took.refl c) hc (ends_list hsub (by decide) rfl hc hn hcount)
        (Nat.le_refl _) ?_
      intro args c₁ us h₁ hc₁ hlen₁ hf₁ hok₁ hS₁
      refine finds_some h₁ hlen₁ ?_ ?_
      · intro l hl
        simp only [Expr.leaves, List.mem_append] at hl
        exact hl.elim (hok l) (hok₁ l)
      · intro hle k ls hleft hk
        obtain ⟨ts, r, rfl, hargs, hr⟩ := hS₁ hle
        have hl : Expr.Spelled id false .head left ls := hleft.spelled hk
        exact FoundWhole.part ⟨.call hl hmark hargs hr, rfl⟩ (by decide) c₁
  | index =>
      refine finds_part (Took.refl c) hc (hsub.free hc hn) ?_
      intro key c₁ us h₁ hc₁ hlen₁ hf₁ hok₁ hS₁
      refine finds_expect h₁ hc₁ (by omega) (by decide) ?_
      intro r c₂ hr hlegr _ h₂ hc₂ hlen₂ hf₂
      refine finds_map h₂ (by omega) ?_ ?_
      · intro e he l hl
        simp only [Expr.leaves, List.mem_append] at hl
        exact hl.elim (hok l) (hok₁ e he l)
      · intro hle
        obtain ⟨e, rfl, he⟩ := hS₁ (by omega)
        refine ⟨e, rfl, ?_⟩
        intro k ls hleft hk
        have hl : Expr.Spelled id false .head left ls :=
          hleft.spelled (Nat.le_trans (by decide) hk)
        exact FoundWhole.part ⟨.index hl hmark he (hlegr.is hr rfl), rfl⟩ (Nat.le_refl _) c₂

/-- What was read so far becomes the left part of larger expressions as long as the next token pulls
more tightly than the rank. -/
theorem ends_climb (hsub : Sub.Reads ok n sub) {count m : Nat} {r : Rank} {left : Expr Token}
    (hok : ∀ l ∈ left.leaves, ok l) {c₀ c : Cursor} {us : List Token} (h₀ : Took c₀ us c)
    (hc : c.Fits ok) (hn : c.rest.length ≤ n) (hm : c.rest.length ≤ m)
    (hcount : c.rest.length < count)
    (hpart : c.faults ≤ c₀.faults → ∃ least, (r.level < least ∨ Rank.prefixed.level ≤ least) ∧
      FoundPart least left us c) :
    Ends (climb sub count r left) c (Finds ok Expr.leaves (FoundAbove r) m c₀) := by
  induction count generalizing c us left with
  | zero => omega
  | succ count ih =>
      have hstop : pull c.next.kind ≤ r.level →
          Ends (pure (some left)) c (Finds ok Expr.leaves (FoundAbove r) m c₀) := by
        intro hpull
        refine finds_some h₀ hm hok fun hle => ?_
        obtain ⟨least, hleast, k, hk, hlk, -⟩ := hpart hle
        exact ⟨k, hk, by omega, hpull⟩
      unfold climb
      apply ends_peek
      split
      · rename_i tail htail
        have hpull : pull c.next.kind = tail.rank.level := by rw [pull, htail]
        have hkind := Tail.ofKind?_eq_some_iff.1 htail
        split
        · rename_i hlt
          refine ends_take hc (by rw [hkind]; exact tail.kind_ne_eof) ?_
          intro c₁ hleg _ h₁ hc₁ hlen₁ hf₁
          refine finds_node (h₀.trans h₁) hc₁ (ends_extend hsub (hleg.is hkind tail.isFixed_kind)
            hok hc₁ (by omega) (by omega)) (by omega) ?_
          intro e c₂ vs h₂ hc₂ hlen₂ hf₂ hok₂ hS₂
          refine ih hok₂ h₂ hc₂ (by omega) (by omega) (by omega) fun hle => ?_
          obtain ⟨_, _, k, hk, -, hpullk⟩ := hpart (by omega)
          refine ⟨tail.rank.level, .inl hlt, ?_⟩
          have := hS₂ hle k us hk (by omega)
          simpa using this
        · exact hstop (by omega)
      · rename_i hnone
        refine hstop ?_
        rw [pull, hnone]
        exact Nat.zero_le _

/-- **One more than the number of tokens is enough** to read an expression. -/
theorem reads_expression (ok : Leaf Token → Prop) (n : Nat) :
    Sub.Reads ok n (expression (n + 1)) := by
  induction n with
  | zero =>
      intro r c hc hn
      have hnil : c.rest = [] := List.length_eq_zero_iff.1 (by omega)
      have heof : c.next.kind = .eof := by rw [Cursor.next, hnil]; exact hc.finish
      unfold expression
      refine Ends.onNode (ends_primary_of_eof hc heof) ?_ ?_
      · rintro c' ⟨-, htook, hlt⟩
        have hrest := htook.rest
        refine finds_none htook ?_ hlt
        simp_all
      · rintro _ _ ⟨h, -, -⟩
        cases h
  | succ n ih =>
      intro r c hc hn
      unfold expression
      refine finds_node (Took.refl c) hc (ends_primary ih hc hn (Nat.lt_succ_self n))
        (Nat.le_refl _) ?_
      intro left c₁ us h₁ hc₁ hlen₁ hf₁ hok₁ hS₁
      refine ends_climb ih hok₁ h₁ hc₁ (by omega) hlen₁ (by omega) fun hle => ?_
      exact ⟨_, .inr (Nat.le_refl _), hS₁ hle⟩

end Grammar

open Grammar Cursor

/-- The cursor at the start of a text. -/
def startCursor (source : String) : Cursor :=
  ⟨tokens source, endToken source, []⟩

theorem fits_startCursor {source : String} {ok : Leaf Token → Prop}
    (hok : ∀ t ∈ tokens source, ∀ l ∈ t.leaves, ok l) : (startCursor source).Fits ok :=
  ⟨rfl, fun _ ht => legible_of_mem_tokens ht, hok⟩

theorem parse_of_program {source : String} {p : Program Token} {c : Cursor}
    (h : program (expression ((tokens source).length + 1)) ((tokens source).length + 1)
      (startCursor source) = some (p, c)) : parse source = ⟨p, c.errors.reverse⟩ := by
  rw [startCursor] at h
  simp only [parse, parseTokens, h]

/-- A text is read to its end within the count of steps that its reading is given. -/
theorem exists_run (source : String) : ∃ p c,
    program (expression ((tokens source).length + 1)) ((tokens source).length + 1)
        (startCursor source) = some (p, c) ∧
      Took (startCursor source) (tokens source) c ∧ parse source = ⟨p, c.errors.reverse⟩ := by
  obtain ⟨p, c, hrun, htook, -⟩ := ends_program (reads_expression (fun _ => True) _)
    (fits_startCursor fun _ _ _ _ => trivial) (Nat.le_refl _) (Nat.lt_succ_self _)
  exact ⟨p, c, hrun, htook, parse_of_program hrun⟩

/-- A text never runs out of the count of steps that its reading is given; what it reads as takes its
leaves from the tokens, and is spelled by them unless a fault was noted. -/
theorem parse_sound {source : String} {ok : Leaf Token → Prop}
    (hok : ∀ t ∈ tokens source, ∀ l ∈ t.leaves, ok l) :
    (∀ s ∈ (parse source).program, ∀ l ∈ s.leaves, ok l) ∧
      ((parse source).errors = [] →
        (parse source).program.Spelled id false (tokens source)) := by
  have hsub := reads_expression ok (tokens source).length
  obtain ⟨p, c, heq, -, hleaves, hspelled⟩ :=
    ends_program hsub (fits_startCursor hok) (Nat.le_refl _) (Nat.lt_succ_self _)
  rw [parse_of_program heq]
  refine ⟨hleaves, fun herrors => hspelled ?_⟩
  rw [List.reverse_eq_nil_iff] at herrors
  rw [Cursor.faults, herrors]
  exact Nat.zero_le _

/-- Whatever the faults of a text, its statements have no leaves but those of its tokens. -/
theorem leaves_parse {source : String} {ok : Leaf Token → Prop}
    (hok : ∀ t ∈ tokens source, ∀ l ∈ t.leaves, ok l) {s : Stmt Token}
    (hs : s ∈ (parse source).program) : ∀ l ∈ s.leaves, ok l :=
  (parse_sound hok).1 s hs

/-- Whatever the faults of a text, its statements have no names but those of its tokens. -/
theorem names_parse {source : String} {ok : String → Prop}
    (hok : ∀ t ∈ tokens source, t.kind = .ident → ok t.literal) {s : Stmt Token}
    (hs : s ∈ (parse source).program) {w : String} (hw : .name w ∈ s.leaves) : ok w := by
  have hleaves : ∀ t ∈ tokens source, ∀ l ∈ t.leaves, ∀ w, l = .name w → ok w := by
    rintro t ht l hl w rfl
    obtain ⟨hk, rfl⟩ := Token.of_name_mem_leaves hl
    exact hok t ht hk
  exact leaves_parse hleaves hs _ hw w rfl

/-- **A clean reading accounts for every token**: the tokens of a text that reads without a fault are a
spelling of its program, marks included. -/
theorem spelled_parse {source : String} (h : (parse source).errors = []) :
    (parse source).program.Spelled id false (tokens source) :=
  (@parse_sound source (fun _ => True) (by simp)).2 h

/-- A text with a call, parentheses that are needed, parentheses that are not, and all operators in
their order.  The rendering has all parentheses of the tree. -/
theorem spelled_parse_order :
    (parse "let f = fn(a) { (a + 1) * 2 };f(-((2)))[0];a == b + 1 * 23 < c").errors = [] ∧
      ((parse "let f = fn(a) { (a + 1) * 2 };f(-((2)))[0];a == b + 1 * 23 < c").program.map
        Token.literal).render =
          "let f = fn(a) { ((a + 1) * 2) };(f((-2))[0])(a == ((b + (1 * 23)) < c))" ∧
      (parse "let f = fn(a) { (a + 1) * 2 };f(-((2)))[0];a == b + 1 * 23 < c").program.Spelled
        id false (tokens "let f = fn(a) { (a + 1) * 2 };f(-((2)))[0];a == b + 1 * 23 < c") :=
  ⟨by decide +kernel, by decide +kernel, spelled_parse (by decide +kernel)⟩

end Treewalk
