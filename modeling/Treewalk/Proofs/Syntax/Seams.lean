import Mathlib.Data.List.Chain
import Treewalk.Proofs.Syntax.Written

/-! # Statements side by side

What is read where an expression statement is followed by another statement with no semicolon between
them.

* The expression ends at the seam just when the next token is no operator and opens neither arguments
  nor a key.
* If the token goes on the expression, climbing on from it gives a larger one or nothing at all
  (`sizeOf_lt_of_climb`).  So the statement is not read as it was written (`ne_of_overrun`). -/

namespace Treewalk

namespace Grammar

open Reading Cursor

/-! ### Reading past the end -/

section

variable {α β : Type}

/-- A step after another ends when both do. -/
theorem exists_of_bind {m : Reading α} {f : α → Reading β} {c c' : Cursor} {b : β}
    (h : Yields (m >>= f) c b c') : ∃ a d, Yields m c a d ∧ Yields (f a) d b c' := by
  obtain ⟨⟨a, d⟩, hm, hf⟩ := Option.bind_eq_some_iff.1 h
  exact ⟨a, d, hm, hf⟩

/-- A node is made out of a node. -/
theorem exists_of_onNode {m : Reading (Option α)} {next : α → Reading (Option β)} {c c' : Cursor}
    {b : β} (h : Yields (Reading.onNode m next) c (some b) c') :
    ∃ a d, Yields m c (some a) d ∧ Yields (next a) d (some b) c' := by
  obtain ⟨x, d, hm, hnext⟩ := exists_of_bind h
  cases x with
  | none => cases hnext
  | some a => exact ⟨a, d, hm, hnext⟩

end

/-- An expression is a proper part of what it is extended to. -/
theorem sizeOf_lt_of_extend {sub : Sub} {n : Nat} {mark : Token} {left e : Expr Token} {tail : Tail}
    {c c' : Cursor} (h : Yields (extend sub n mark left tail) c (some e) c') :
    sizeOf (left.map unmark) < sizeOf (e.map unmark) := by
  cases tail with
  | binary op =>
      obtain ⟨right, d, -, hnode⟩ := exists_of_onNode h
      cases hnode
      simp only [Expr.map, Expr.binary.sizeOf_spec]
      omega
  | call =>
      obtain ⟨args, d, -, hnode⟩ := exists_of_onNode h
      cases hnode
      simp only [Expr.map, Expr.call.sizeOf_spec]
      omega
  | index =>
      obtain ⟨key, d, -, h⟩ := exists_of_bind h
      obtain ⟨r, d', -, hnode⟩ := exists_of_onNode h
      cases key with
      | none => cases hnode
      | some key =>
          cases hnode
          simp only [Expr.map, Expr.index.sizeOf_spec]
          omega

theorem sizeOf_le_of_climb {sub : Sub} {n : Nat} {r : Rank} {left e : Expr Token} {c c' : Cursor}
    (h : Yields (climb sub n r left) c (some e) c') :
    sizeOf (left.map unmark) ≤ sizeOf (e.map unmark) := by
  induction n generalizing left c with
  | zero => cases h
  | succ n ih =>
      obtain ⟨t, d, -, h⟩ := exists_of_bind h
      split at h
      · split at h
        · obtain ⟨_, d', -, h⟩ := exists_of_bind h
          obtain ⟨e', d'', hextend, hclimb⟩ := exists_of_onNode h
          exact (sizeOf_lt_of_extend hextend).le.trans (ih hclimb)
        · cases h
          exact Nat.le_refl _
      · cases h
        exact Nat.le_refl _

/-- Climbing on past a token that goes on the expression. -/
theorem sizeOf_lt_of_climb {sub : Sub} {n : Nat} {r : Rank} {left e : Expr Token} {c c' : Cursor}
    (hpull : r.level < pull c.next.kind) (h : Yields (climb sub n r left) c (some e) c') :
    sizeOf (left.map unmark) < sizeOf (e.map unmark) := by
  cases n with
  | zero => cases h
  | succ n =>
      obtain ⟨t, d, hpeek, h⟩ := exists_of_bind h
      cases hpeek
      rw [pull] at hpull
      split at h
      · rename_i tail htail
        rw [show c.rest.headD c.finish = c.next from rfl] at htail
        rw [htail] at hpull
        rw [if_pos hpull] at h
        obtain ⟨_, d', -, h⟩ := exists_of_bind h
        obtain ⟨e', d'', hextend, hclimb⟩ := exists_of_onNode h
        exact (sizeOf_lt_of_extend hextend).trans_le (sizeOf_le_of_climb hclimb)
      · rename_i hnone
        rw [show c.rest.headD c.finish = c.next from rfl] at hnone
        rw [hnone] at hpull
        exact absurd hpull (Nat.not_lt_zero _)

theorem releases_of_pull_pos {c : Cursor} (h : 0 < pull c.next.kind) :
    Releases Rank.index.level c := by
  rw [Releases]
  revert h
  cases c.next.kind <;> decide

/-! ### One statement -/

/-- An expression before a token that goes on with it is not read as it was written. -/
theorem ne_of_overrun {e : Expr Token} {t : Token} {ts : List Token}
    (he : Expr.Spelled id true .head e (t :: ts)) {n : Nat} {c c' : Cursor} {s : Stmt Token}
    (hpull : 0 < pull c.next.kind) (hn : (t :: ts).length + c.rest.length < n)
    (h : Yields (statement (expression n)) (c.before (t :: ts)) (some s) c') :
    s.map unmark ≠ .expr () (e.map unmark) := by
  obtain ⟨u, us, heq, hstarts⟩ := he.exists_head
  obtain ⟨rfl, rfl⟩ := List.cons.inj heq
  obtain ⟨k, hlevel, hhead, hclimbs⟩ := climbsAt_of_spelled he
  obtain ⟨n, rfl⟩ := Nat.exists_eq_add_one.2 (Nat.zero_lt_of_lt hn)
  have hindex : Rank.index.level ≤ k := hlevel.index_le hhead
  have htakes : Takes .lowest k := ⟨by decide, .inl hlevel.pos⟩
  obtain ⟨m, -, hclimb⟩ := hclimbs (n := n) htakes ((releases_of_pull_pos hpull).mono hindex)
    (by omega)
  rw [Yields, statement_eq_exprStatement hstarts] at h
  obtain ⟨first, d, hpeek, h⟩ := exists_of_bind h
  cases hpeek
  obtain ⟨x, d, hx, h⟩ := exists_of_bind h
  obtain ⟨_, d', -, h⟩ := exists_of_bind h
  cases x with
  | none => cases h
  | some e' =>
      cases h
      -- All of `e` is read before the climb goes on, so what is read in the end is larger than `e`.
      rw [Yields, hclimb] at hx
      have hlt := sizeOf_lt_of_climb (r := .lowest) hpull hx
      intro hsame
      rw [Stmt.map, Stmt.expr.injEq] at hsame
      rw [hsame.2] at hlt
      exact Nat.lt_irrefl _ hlt

/-- The next token is one before which a statement ends with no semicolon. -/
def EndsBare (c : Cursor) : Prop :=
  Releases 0 c ∧ c.next.kind ≠ .semicolon

/-- A statement is read from its tokens and the semicolon after them.  After an expression there need
not be one if the next token does not go on with it. -/
theorem yields_statement {s : Stmt Token} {ts us : List Token} (hs : Stmt.Spelled id true s ts)
    (hus : Ending us) {c : Cursor} (hc : us = [] → s.isExpr = true ∧ EndsBare c) {n : Nat}
    (hn : ts.length + us.length + c.rest.length < n) :
    Yields (statement (expression n)) (c.before (ts ++ us)) (some s) c := by
  cases hus with
  | semicolon ht => exact readsStmt_of_spelled hs (.semicolon ht) (by simp) hn
  | none =>
      obtain ⟨hexpr, hreleases, hsemicolon⟩ := hc rfl
      cases hs with
      | expr he =>
          obtain ⟨t, us, heq, hstarts⟩ := he.exists_head
          obtain ⟨rfl, rfl⟩ := List.cons.inj heq
          have hskip : Yields skipSemicolon c () c :=
            Yields.bind (yields_accept_of_ne hsemicolon) (Yields.pure _ _)
          exact yields_statement_expr hstarts (climbsAt_of_spelled he).readsFree hreleases hskip hn
      | _ => cases hexpr

/-! ### Statements one after the other -/

/-- A statement, its tokens and those of the semicolon after it.  Without a semicolon it is an
expression that could stand before arguments as it is. -/
structure Segment where
  stmt : Stmt Token
  text : List Token
  ending : List Token
  spelled : Stmt.Spelled id true stmt text
  ends : Ending ending
  tight : ending = [] → ∃ m e, stmt = .expr m e ∧ Expr.Spelled id true .head e text

namespace Segment

/-- All tokens of a statement. -/
def tokens (g : Segment) : List Token :=
  g.text ++ g.ending

/-- The next statement does not go on with an expression before it. -/
def Releases (g h : Segment) : Prop :=
  g.ending = [] → ∀ t ∈ h.text.head?, pull t.kind = 0

theorem exists_head (g : Segment) : ∃ t ts, g.text = t :: ts ∧ t.kind ≠ .eof ∧
    t.kind ≠ .semicolon ∧ t.kind ≠ .elseWord := by
  obtain ⟨stmt, text, -, hspelled, -, -⟩ := g
  cases hspelled with
  | bind ht _ _ _ => exact ⟨_, _, rfl, by rw [ht.1]; decide⟩
  | ret ht => exact ⟨_, _, rfl, by rw [ht.1]; decide⟩
  | retValue ht _ => exact ⟨_, _, rfl, by rw [ht.1]; decide⟩
  | expr he =>
      obtain ⟨t, ts, heq, ht⟩ := he.exists_head
      refine ⟨t, ts, heq, ?_, ?_, ?_⟩ <;> intro hk <;> rw [hk] at ht <;> cases ht

end Segment

/-- The tokens of statements that follow each other. -/
def tokensOf (gs : List Segment) : List Token :=
  gs.flatMap Segment.tokens

theorem endsBare_before {gs : List Segment} {c : Cursor} (hc : c.next.kind = .eof)
    (h : ∀ g ∈ gs.head?, ∀ t ∈ g.text.head?, pull t.kind = 0) :
    EndsBare (c.before (tokensOf gs)) := by
  cases gs with
  | nil =>
      rw [tokensOf, List.flatMap_nil, EndsBare, Releases]
      rw [show (c.before []).next = c.next from rfl, hc]
      decide
  | cons g gs =>
      obtain ⟨t, ts, heq, -, hsemicolon, helse⟩ := g.exists_head
      have hpull : pull t.kind = 0 := h g rfl t (by rw [heq]; rfl)
      have hnext : (c.before (tokensOf (g :: gs))).next = t := by
        rw [tokensOf, List.flatMap_cons, Segment.tokens, heq]
        rfl
      rw [EndsBare, Releases, hnext, hpull]
      exact ⟨⟨Nat.le_refl _, helse⟩, hsemicolon⟩

theorem before_tokensOf_cons (g : Segment) (gs : List Segment) (c : Cursor) :
    c.before (tokensOf (g :: gs)) = (c.before (tokensOf gs)).before (g.text ++ g.ending) := by
  rw [tokensOf, List.flatMap_cons, Segment.tokens, before_append]
  rfl

theorem length_tokensOf_cons (g : Segment) (gs : List Segment) :
    (tokensOf (g :: gs)).length = g.text.length + g.ending.length + (tokensOf gs).length := by
  rw [tokensOf, List.flatMap_cons, Segment.tokens, List.length_append, List.length_append]
  rfl

/-- A statement is read from its tokens if the next one does not go on with it. -/
theorem yields_segment {g : Segment} {gs : List Segment} (h : ∀ g' ∈ gs.head?, g.Releases g')
    {c : Cursor} (hc : c.next.kind = .eof) {n : Nat}
    (hn : (tokensOf (g :: gs)).length + c.rest.length < n) :
    Yields (statement (expression n)) (c.before (tokensOf (g :: gs))) (some g.stmt)
      (c.before (tokensOf gs)) := by
  rw [before_tokensOf_cons]
  rw [length_tokensOf_cons] at hn
  refine yields_statement g.spelled g.ends (fun hending => ?_) ?_
  · obtain ⟨m, e, hstmt, -⟩ := g.tight hending
    exact ⟨by rw [hstmt]; rfl, endsBare_before hc fun g' hg' => h g' hg' hending⟩
  · rw [length_before]
    omega

/-- A statement is not read from its tokens if the next one goes on with it. -/
theorem ne_of_not_releases {g h : Segment} {gs : List Segment} (hnot : ¬ g.Releases h) {c c' : Cursor}
    {n : Nat} (hn : (tokensOf (g :: h :: gs)).length + c.rest.length < n) {s : Stmt Token}
    (hs : Yields (statement (expression n)) (c.before (tokensOf (g :: h :: gs))) (some s) c') :
    s.map unmark ≠ g.stmt.map unmark := by
  simp only [Segment.Releases, Classical.not_imp, not_forall] at hnot
  obtain ⟨hending, t, ht, hpull⟩ := hnot
  obtain ⟨m, e, hstmt, he⟩ := g.tight hending
  obtain ⟨u, us, hu, -⟩ := h.exists_head
  have htu : u = t := by simpa [hu] using ht
  obtain ⟨v, vs, hv, -⟩ := he.exists_head
  have hnext : (c.before (tokensOf (h :: gs))).next = t := by
    rw [tokensOf, List.flatMap_cons, Segment.tokens, hu, htu]
    rfl
  rw [before_tokensOf_cons, hending, List.append_nil, hv] at hs
  rw [hv] at he
  rw [hstmt]
  refine ne_of_overrun he ?_ ?_ hs
  · rw [hnext]
    omega
  · rw [length_tokensOf_cons, hending, hv] at hn
    rw [length_before]
    simp only [List.length_nil] at hn
    omega

/-- Statements of which none goes on with the one before it are read. -/
theorem yields_program_of_isChain {gs : List Segment} (h : gs.IsChain Segment.Releases) {c : Cursor}
    (hc : c.next.kind = .eof) {n count : Nat} (hn : (tokensOf gs).length + c.rest.length < n)
    (hcount : (tokensOf gs).length < count) :
    Yields (program (expression n) count) (c.before (tokensOf gs)) (gs.map Segment.stmt) c := by
  induction gs generalizing count with
  | nil =>
      obtain ⟨count, rfl⟩ := Nat.exists_eq_add_one.2 (Nat.zero_lt_of_lt hcount)
      rw [show c.before (tokensOf []) = c from rfl]
      unfold program
      apply Yields.bind (yields_peek _)
      rw [if_pos hc]
      exact Yields.pure _ _
  | cons g gs ih =>
      obtain ⟨count, rfl⟩ := Nat.exists_eq_add_one.2 (Nat.zero_lt_of_lt hcount)
      rw [List.isChain_cons] at h
      obtain ⟨t, ts, heq, heof, -⟩ := g.exists_head
      have hnext : (c.before (tokensOf (g :: gs))).next.kind ≠ .eof := by
        rw [before_tokensOf_cons, heq]
        exact heof
      have hstmt := yields_segment h.1 hc hn
      rw [length_tokensOf_cons, heq, List.length_cons] at hn hcount
      unfold program
      apply Yields.bind (yields_peek _)
      rw [if_neg hnext]
      exact Yields.bind hstmt (Yields.bind (ih h.2 (by omega) (by omega)) (Yields.pure _ _))

section

variable {n count : Nat} {c c' : Cursor} {ss : List (Stmt Token)}

/-- Reading a statement takes at least one token, unless none is left; and if it notes no fault there
is a statement. -/
theorem took_of_statement {x : Option (Stmt Token)} (hc : c.Fits fun _ => True)
    (hn : c.rest.length ≤ n) (h : Yields (statement (expression (n + 1))) c x c') :
    ∃ used, Took c used c' ∧ c'.rest.length ≤ c.rest.length - 1 ∧
      (c'.faults ≤ c.faults → ∃ s, x = some s) := by
  obtain ⟨y, d, heq, used, htook, hlen, -, hclean⟩ :=
    ends_statement (reads_expression (fun _ => True) n) hc hn
  rw [Yields, heq] at h
  cases h
  refine ⟨used, htook, hlen, fun hle => ?_⟩
  obtain ⟨s, hs, -⟩ := hclean hle
  exact ⟨s, hs⟩

theorem faults_le_of_program (hc : c.Fits fun _ => True) (hn : c.rest.length ≤ n)
    (hcount : c.rest.length < count) (h : Yields (program (expression (n + 1)) count) c ss c') :
    c.faults ≤ c'.faults := by
  obtain ⟨p, d, heq, htook, -⟩ :=
    ends_program (reads_expression (fun _ => True) n) hc hn hcount
  rw [Yields, heq] at h
  cases h
  exact htook.faults_le

/-- The first of the statements that are read without a fault. -/
theorem exists_cons_of_program (hc : c.Fits fun _ => True) (hn : c.rest.length ≤ n)
    (hcount : c.rest.length < count + 1) (heof : c.next.kind ≠ .eof)
    (h : Yields (program (expression (n + 1)) (count + 1)) c ss c') (hclean : c'.faults ≤ c.faults) :
    ∃ s rest d, ss = s :: rest ∧ Yields (statement (expression (n + 1))) c (some s) d ∧
      Yields (program (expression (n + 1)) count) d rest c' := by
  obtain ⟨rest, hrest⟩ := hc.rest_eq_of_ne_eof heof
  have hpos : 0 < c.rest.length := by
    rw [hrest]
    exact Nat.succ_pos _
  obtain ⟨t, d, hpeek, h⟩ := exists_of_bind h
  cases hpeek
  rw [show c.rest.headD c.finish = c.next from rfl, if_neg heof] at h
  obtain ⟨x, d, hx, h⟩ := exists_of_bind h
  obtain ⟨rest, d', hrest, h⟩ := exists_of_bind h
  cases h
  obtain ⟨used, htook, hlen, hsome⟩ := took_of_statement hc hn hx
  have hfaults := htook.faults_le
  have hle := faults_le_of_program (htook.fits hc) (by omega) (by omega) hrest
  obtain ⟨s, rfl⟩ := hsome (by omega)
  exact ⟨s, rest, d, rfl, hx, hrest⟩

/-- Statements that are read as they were written have none that goes on with the one before it. -/
theorem isChain_of_yields_program {gs : List Segment}
    (hfits : (c.before (tokensOf gs)).Fits fun _ => True) (hc : c.rest = [])
    (hn : (tokensOf gs).length ≤ n) (hcount : (tokensOf gs).length < count)
    (h : Yields (program (expression (n + 1)) count) (c.before (tokensOf gs)) ss c')
    (hclean : c'.faults ≤ c.faults)
    (hsame : ss.map (Stmt.map unmark) = gs.map fun g => g.stmt.map unmark) :
    gs.IsChain Segment.Releases := by
  have heof : c.next.kind = .eof := by
    rw [Cursor.next, hc]
    exact hfits.finish
  induction gs generalizing count ss with
  | nil => exact .nil
  | cons g gs ih =>
      cases gs with
      | nil => exact .singleton g
      | cons g' gs =>
          obtain ⟨count, rfl⟩ := Nat.exists_eq_add_one.2 (Nat.zero_lt_of_lt hcount)
          obtain ⟨t, ts, heq, hne, -⟩ := g.exists_head
          have hnext : (c.before (tokensOf (g :: g' :: gs))).next.kind ≠ .eof := by
            rw [before_tokensOf_cons, heq]
            exact hne
          have hlength : (c.before (tokensOf (g :: g' :: gs))).rest.length =
              (tokensOf (g :: g' :: gs)).length := by
            rw [length_before, hc]
            rfl
          obtain ⟨s, rest, d, rfl, hs, hrest⟩ :=
            exists_cons_of_program hfits (by omega) (by omega) hnext h hclean
          obtain ⟨hhead, htail⟩ := List.cons.inj hsame
          have hlen : (tokensOf (g :: g' :: gs)).length + c.rest.length < n + 1 := by
            rw [hc, List.length_nil]
            omega
          have hreleases : g.Releases g' := by
            by_contra hnot
            exact ne_of_not_releases hnot hlen hs hhead
          have hg : ∀ h ∈ (g' :: gs).head?, g.Releases h := by
            rintro h ⟨⟩
            exact hreleases
          -- So the first statement is read up to the seam, and the rest is read as in `hrest`.
          have hstmt := yields_segment hg heof hlen
          rw [Yields, hs] at hstmt
          cases hstmt
          rw [length_tokensOf_cons] at hn hcount
          have htext : 0 < g.text.length := by
            rw [heq]
            exact Nat.succ_pos _
          obtain ⟨used, htook, -⟩ := took_of_statement hfits (by omega) hs
          have hfits' := htook.fits hfits
          rw [List.isChain_cons_cons]
          exact ⟨hreleases, ih hfits' (by omega) (by omega) hrest htail⟩

end

end Grammar

open Grammar

/-- The cursor at the end of a text, if no fault was noted. -/
def endCursor (source : String) : Cursor :=
  ⟨[], endToken source, []⟩

theorem before_endCursor (source : String) :
    (endCursor source).before (tokens source) = startCursor source := by
  rw [Cursor.before, endCursor, startCursor, List.append_nil]

variable {source : String} {gs : List Segment}

/-- A text of statements of which none goes on with the one before it is read as these statements. -/
theorem parse_of_isChain (hgs : tokensOf gs = tokens source) (h : gs.IsChain Segment.Releases) :
    parse source = ⟨gs.map Segment.stmt, []⟩ := by
  have hlen : (tokensOf gs).length < (tokens source).length + 1 := by
    rw [hgs]
    exact Nat.lt_succ_self _
  have hyields := yields_program_of_isChain h (c := endCursor source) rfl hlen hlen
  rw [hgs, before_endCursor] at hyields
  exact parse_of_program hyields

/-- If a text of statements is read as these statements, none goes on with the one before it. -/
theorem isChain_of_parse (hgs : tokensOf gs = tokens source) (herrors : (parse source).errors = [])
    (hsame : (parse source).program.map unmark = gs.map fun g => g.stmt.map unmark) :
    gs.IsChain Segment.Releases := by
  have hfits : (startCursor source).Fits fun _ => True := fits_startCursor fun _ _ _ _ => trivial
  have hcount : (tokens source).length < (tokens source).length + 1 := Nat.lt_succ_self _
  obtain ⟨p, c, heq, -, hparse⟩ := exists_run source
  rw [hparse] at herrors hsame
  rw [List.reverse_eq_nil_iff] at herrors
  rw [← before_endCursor, ← hgs] at heq hfits
  rw [← hgs] at hcount
  refine isChain_of_yields_program hfits rfl (Nat.le_refl _) hcount heq ?_ hsame
  rw [Cursor.faults, herrors]
  exact Nat.zero_le _

end Treewalk
