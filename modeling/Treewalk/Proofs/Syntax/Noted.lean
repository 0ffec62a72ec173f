import Treewalk.Proofs.Syntax.Seams
import Treewalk.Proofs.Token.Covered

/-! # Where faults are noted

A reader that goes on notes its faults at the tokens that it passes, in their order, and one that
finds no node has noted a fault.

* `Went c c'` says that a reader went from `c` to `c'`: it left faults noted before as they were, and
  if the tokens ahead of it were in order, its own are at tokens from `c` to `c'`, in order.
* `Notes miss m` says that the step `m` goes on, and has noted a fault if its result is a miss.  It is
  preserved by the combinators.  `Answers m` is the case of a step that may find no node.
* `Rule sub count m` lists the rules of the grammar.  All of them go on (`Rule.proceeds`).

The tokens of a text are in order, so its faults are (`errors_in_order`). -/

namespace Treewalk

/-- The byte at which a fault shows. -/
def SyntaxError.start (e : SyntaxError) : Nat :=
  e.token.span.start

namespace Cursor

/-- The tokens that a reader may still meet. -/
def ahead (c : Cursor) : List Token :=
  c.rest ++ [c.finish]

/-- The byte at which the next token starts. -/
def front (c : Cursor) : Nat :=
  c.next.span.start

/-- The tokens ahead are in the order of their starts. -/
def Ordered (c : Cursor) : Prop :=
  c.ahead.Pairwise fun t u => t.span.start ≤ u.span.start

/-- Faults between two bytes, the latest first. -/
structure Between (low high : Nat) (es : List SyntaxError) : Prop where
  descends : es.Pairwise fun e e' => e'.start ≤ e.start
  low_le : ∀ e ∈ es, low ≤ e.start
  le_high : ∀ e ∈ es, e.start ≤ high

/-- A reader went from `c` to `c'`. -/
structure Went (c c' : Cursor) : Prop where
  ahead : c'.ahead <:+ c.ahead
  noted : ∃ es, c'.errors = es ++ c.errors ∧ (∀ e ∈ es, e.token ∈ c.ahead) ∧
    (c.Ordered → Between c.front c'.front es)

variable {c c₁ c₂ d : Cursor} {es es' : List SyntaxError} {e : SyntaxError}

theorem exists_ahead_eq (c : Cursor) : ∃ ts, c.ahead = c.next :: ts := by
  unfold ahead next
  cases c.rest with
  | nil => exact ⟨[], rfl⟩
  | cons t ts => exact ⟨ts ++ [c.finish], rfl⟩

theorem next_mem_ahead (c : Cursor) : c.next ∈ c.ahead := by
  obtain ⟨ts, hts⟩ := c.exists_ahead_eq
  rw [hts]
  exact List.mem_cons_self

/-- No token ahead starts before the next one. -/
theorem Ordered.front_le (h : c.Ordered) {t : Token} (ht : t ∈ c.ahead) :
    c.front ≤ t.span.start := by
  obtain ⟨ts, hts⟩ := c.exists_ahead_eq
  rw [Ordered, hts] at h
  rw [hts] at ht
  rcases List.mem_cons.1 ht with rfl | ht
  · exact Nat.le_refl _
  · exact (List.pairwise_cons.1 h).1 t ht

theorem Ordered.of_suffix (h : c.Ordered) (hd : d.ahead <:+ c.ahead) : d.Ordered :=
  h.sublist hd.sublist

theorem Ordered.front_mono (h : c.Ordered) (hd : d.ahead <:+ c.ahead) : c.front ≤ d.front :=
  h.front_le (hd.mem d.next_mem_ahead)

theorem Between.append {low mid mid' high : Nat} (h : Between low mid es)
    (h' : Between mid' high es') (hlow : low ≤ mid') (hmid : mid ≤ mid') (hhigh : mid' ≤ high) :
    Between low high (es' ++ es) where
  descends := by
    refine List.pairwise_append.2 ⟨h'.descends, h.descends, fun e' he' e he => ?_⟩
    have hle := h.le_high e he
    have hge := h'.low_le e' he'
    omega
  low_le := by
    intro e he
    rcases List.mem_append.1 he with he | he
    · exact hlow.trans (h'.low_le e he)
    · exact h.low_le e he
  le_high := by
    intro e he
    rcases List.mem_append.1 he with he | he
    · exact h'.le_high e he
    · have hle := h.le_high e he
      omega

theorem Went.of_errors_eq (h : d.ahead <:+ c.ahead) (herrors : d.errors = c.errors) : Went c d :=
  ⟨h, [], herrors, by simp, fun _ => ⟨.nil, by simp, by simp⟩⟩

theorem Went.refl (c : Cursor) : Went c c :=
  .of_errors_eq List.suffix_rfl rfl

theorem Went.trans (h₁ : Went c c₁) (h₂ : Went c₁ c₂) : Went c c₂ := by
  obtain ⟨es, hes, htokens, hbetween⟩ := h₁.noted
  obtain ⟨es', hes', htokens', hbetween'⟩ := h₂.noted
  refine ⟨h₂.ahead.trans h₁.ahead, es' ++ es, ?_, ?_, fun hordered => ?_⟩
  · rw [hes', hes, List.append_assoc]
  · intro e he
    rcases List.mem_append.1 he with he | he
    · exact h₁.ahead.mem (htokens' e he)
    · exact htokens e he
  · have hordered₁ := hordered.of_suffix h₁.ahead
    have hfront := hordered.front_mono h₁.ahead
    exact (hbetween hordered).append (hbetween' hordered₁) hfront (Nat.le_refl _)
      (hordered₁.front_mono h₂.ahead)

theorem Went.faults_le (h : Went c d) : c.faults ≤ d.faults := by
  obtain ⟨es, hes, -⟩ := h.noted
  rw [faults, faults, hes, List.length_append]
  exact Nat.le_add_left _ _

theorem Went.errors (h : Went c d) : c.errors <:+ d.errors := by
  obtain ⟨es, hes, -⟩ := h.noted
  exact ⟨es, hes.symm⟩

/-- A fault is noted at the token that is next at first, before or after this token is taken. -/
theorem Went.noting (h : Went c d) (herrors : d.errors = c.errors) (he : e.token = c.next) :
    Went c (Reading.noting e d) := by
  refine ⟨h.ahead, [e], ?_, ?_, fun hordered => ⟨List.pairwise_singleton _ _, ?_, ?_⟩⟩
  · rw [Reading.noting, herrors]
    rfl
  · intro e' he'
    rw [List.mem_singleton.1 he', he]
    exact c.next_mem_ahead
  · intro e' he'
    rw [List.mem_singleton.1 he', SyntaxError.start, he]
    exact Nat.le_refl _
  · intro e' he'
    rw [List.mem_singleton.1 he', SyntaxError.start, he]
    exact hordered.front_mono h.ahead

theorem went_after (c : Cursor) : Went c (Reading.after c) := by
  refine .of_errors_eq ?_ rfl
  unfold ahead Reading.after
  cases c.rest with
  | nil => exact List.suffix_rfl
  | cons t ts => exact List.suffix_cons t _

end Cursor

namespace Reading

open Cursor Grammar

variable {α β : Type} {miss miss' : α → Prop} {m n : Reading α} {c d c' : Cursor} {a : α}

/-- A reader went on, and noted a fault if its result is a miss. -/
def Accounts (miss : α → Prop) (c : Cursor) (a : α) (c' : Cursor) : Prop :=
  Went c c' ∧ (miss a → c.faults < c'.faults)

/-- A step goes on, and has noted a fault if its result is a miss. -/
def Notes (miss : α → Prop) (m : Reading α) : Prop :=
  ∀ ⦃c a c'⦄, Yields m c a c' → Accounts miss c a c'

/-- A step goes on. -/
def Proceeds (m : Reading α) : Prop :=
  Notes (fun _ => False) m

/-- A step goes on, and has noted a fault if it found no node. -/
def Answers (m : Reading (Option α)) : Prop :=
  Notes (· = none) m

theorem Notes.mono (h : Notes miss m) (hmiss : ∀ a, miss' a → miss a) : Notes miss' m :=
  fun _ a _ hrun => ⟨(h hrun).1, fun ha => (h hrun).2 (hmiss a ha)⟩

theorem Notes.proceeds (h : Notes miss m) : Proceeds m :=
  h.mono fun _ => False.elim

/-- A step that follows another one. -/
theorem Notes.onward (h : Notes miss m) (hw : Went c d) (hrun : Yields m d a c') :
    Accounts miss c a c' := by
  obtain ⟨hw', hmiss⟩ := h hrun
  exact ⟨hw.trans hw', fun ha => Nat.lt_of_le_of_lt hw.faults_le (hmiss ha)⟩

theorem Notes.pure (ha : ¬ miss a) : Notes miss (Pure.pure a) := by
  rintro c _ _ ⟨⟩
  exact ⟨.refl c, fun h => absurd h ha⟩

theorem Notes.stuck : Notes miss stuck := by
  rintro c a c' ⟨⟩

/-- After a miss of the first step the second need not note a fault. -/
theorem Notes.bind {missβ : β → Prop} {p : α → Reading β} (h : Notes miss m)
    (hp : ∀ a, Notes (fun b => missβ b ∧ ¬ miss a) (p a)) : Notes missβ (m >>= p) := by
  intro c b c'' hrun
  obtain ⟨a, c', hm, hnext⟩ := exists_of_bind hrun
  obtain ⟨hw, hmiss⟩ := h hm
  obtain ⟨hw', hmiss'⟩ := hp a hnext
  refine ⟨hw.trans hw', fun hb => ?_⟩
  by_cases ha : miss a
  · exact Nat.lt_of_lt_of_le (hmiss ha) hw'.faults_le
  · exact Nat.lt_of_le_of_lt hw.faults_le (hmiss' ⟨hb, ha⟩)

theorem Proceeds.bind {missβ : β → Prop} {p : α → Reading β} (h : Proceeds m)
    (hp : ∀ a, Notes missβ (p a)) : Notes missβ (m >>= p) :=
  Notes.bind h fun a => (hp a).mono fun _ hb => hb.1

theorem Answers.onNode {missβ : Option β → Prop} {m : Reading (Option α)}
    {p : α → Reading (Option β)} (h : Answers m) (hp : ∀ a, Notes missβ (p a)) :
    Notes missβ (onNode m p) := by
  refine Notes.bind h fun x => ?_
  cases x with
  | none => exact Notes.pure fun hb => hb.2 rfl
  | some a => exact (hp a).mono fun _ hb => hb.1

theorem Notes.ite {q : Prop} [Decidable q] (h : Notes miss m) (h' : Notes miss n) :
    Notes miss (if q then m else n) := by
  by_cases hq : q
  · rw [if_pos hq]
    exact h
  · rw [if_neg hq]
    exact h'

/-! ### Single tokens -/

/-- What is done with the next token may depend on where it stands. -/
theorem Notes.peek {p : Token → Reading α}
    (h : ∀ ⦃c a c'⦄, Yields (p c.next) c a c' → Accounts miss c a c') :
    Notes miss (peek >>= p) := by
  intro c a c' hrun
  obtain ⟨t, d, hpeek, hnext⟩ := exists_of_bind hrun
  cases hpeek
  exact h hnext

theorem Notes.advance {p : Token → Reading α}
    (h : ∀ ⦃c a c'⦄, Yields (p c.next) (after c) a c' → Accounts miss c a c') :
    Notes miss (advance >>= p) := by
  intro c a c' hrun
  obtain ⟨t, d, htake, hnext⟩ := exists_of_bind hrun
  cases htake
  exact h hnext

theorem proceeds_peek : Proceeds peek := by
  rintro c _ _ ⟨⟩
  exact ⟨.refl c, False.elim⟩

theorem proceeds_advance : Proceeds advance := by
  rintro c _ _ ⟨⟩
  exact ⟨went_after c, False.elim⟩

/-- A rule gives up with a fault at the token that was next. -/
theorem accounts_report {e : SyntaxError} (hw : Went c d) (herrors : d.errors = c.errors)
    (he : e.token = c.next) {x : Option α} (h : Yields (do report e; return none) d x c') :
    Accounts (· = none) c x c' := by
  obtain ⟨u, c₁, hreport, hpure⟩ := exists_of_bind h
  cases hreport
  cases hpure
  refine ⟨hw.noting herrors he, fun _ => ?_⟩
  rw [faults, faults, List.length_cons, herrors]
  exact Nat.lt_succ_self _

theorem proceeds_accept (k : Token.Kind) : Proceeds (accept k) :=
  proceeds_peek.bind fun _ =>
    Notes.ite (proceeds_advance.bind fun _ => Notes.pure id) (Notes.pure id)

theorem answers_expect (k : Token.Kind) : Answers (expect k) := by
  refine Notes.peek fun c x c' hrun => ?_
  split at hrun
  · have htake : Answers (do let _ ← advance; return some c.next) :=
      proceeds_advance.bind fun _ => Notes.pure (Option.some_ne_none _)
    exact htake hrun
  · exact accounts_report (.refl c) rfl rfl hrun

theorem proceeds_skipSemicolon : Proceeds skipSemicolon :=
  (proceeds_accept .semicolon).bind fun _ => Notes.pure id

end Reading

namespace Grammar

open Reading Cursor

/-! ### The grammar -/

/-- A reader of nested expressions that notes a fault where it finds none. -/
def Sub.Answers (sub : Sub) : Prop :=
  ∀ r, Reading.Answers (sub r)

section

variable {sub : Sub} (h : sub.Answers)
include h

/-- A value and the semicolon that may follow it. -/
theorem answers_value (make : Expr Token → Stmt Token) :
    Reading.Answers (do let value ← sub .lowest; skipSemicolon; return value.map make) := by
  refine (h .lowest).bind fun x => proceeds_skipSemicolon.bind fun _ => Notes.pure ?_
  cases x <;> simp

theorem answers_binding (mark : Token) : Reading.Answers (binding sub mark) :=
  (answers_expect .ident).onNode fun _ => (answers_expect .assign).onNode fun _ =>
    answers_value h _

theorem answers_returning (mark : Token) : Reading.Answers (returning sub mark) :=
  proceeds_peek.bind fun _ => Notes.ite
    (proceeds_skipSemicolon.bind fun _ => Notes.pure (Option.some_ne_none _)) (answers_value h _)

theorem answers_exprStatement : Reading.Answers (exprStatement sub) :=
  proceeds_peek.bind fun _ => answers_value h _

theorem answers_statement : Reading.Answers (statement sub) := by
  refine proceeds_peek.bind fun first => ?_
  generalize first.kind = kind
  cases kind with
  | letWord => exact proceeds_advance.bind fun _ => answers_binding h first
  | returnWord => exact proceeds_advance.bind fun _ => answers_returning h first
  | _ => exact answers_exprStatement h

theorem answers_blockBody (n : Nat) : Reading.Answers (blockBody sub n) := by
  induction n with
  | zero => exact Notes.stuck
  | succ n ih =>
      refine Notes.peek fun c x c' hrun => ?_
      split at hrun
      · have hclose : Reading.Answers (α := List (Stmt Token))
            (do let _ ← advance; return some []) :=
          proceeds_advance.bind fun _ => Notes.pure (Option.some_ne_none _)
        exact hclose hrun
      · split at hrun
        · exact accounts_report (.refl c) rfl rfl hrun
        · have hmore : Reading.Answers (do
              let s ← statement sub
              let ss ← blockBody sub n
              return ss.map (s.toList ++ ·)) :=
            (answers_statement h).proceeds.bind fun s => ih.bind fun ss =>
              Notes.pure (by cases ss <;> simp)
          exact hmore hrun

theorem answers_block (n : Nat) : Reading.Answers (block sub n) :=
  (answers_expect .lbrace).onNode fun _ => (answers_blockBody h n).bind fun ss =>
    Notes.pure (by cases ss <;> simp)

theorem proceeds_program (n : Nat) : Proceeds (program sub n) := by
  induction n with
  | zero => exact Notes.stuck
  | succ n ih =>
      exact proceeds_peek.bind fun _ => Notes.ite (Notes.pure id)
        ((answers_statement h).proceeds.bind fun _ => ih.bind fun _ => Notes.pure id)

theorem answers_items (close : Token.Kind) (n : Nat) : Reading.Answers (items sub close n) := by
  induction n with
  | zero => exact Notes.stuck
  | succ n ih =>
      refine (h .lowest).bind fun x => (proceeds_accept .comma).bind fun b => Notes.ite ?_ ?_
      · refine ih.bind fun es => Notes.pure ?_
        cases x <;> cases es <;> simp
      · refine (answers_expect close).onNode fun _ => Notes.pure ?_
        cases x <;> simp

theorem answers_list (close : Token.Kind) (n : Nat) : Reading.Answers (list sub close n) :=
  (proceeds_accept close).bind fun _ =>
    Notes.ite (Notes.pure (Option.some_ne_none _)) (answers_items h close n)

omit h in
theorem answers_names (n : Nat) : Reading.Answers (names n) := by
  induction n with
  | zero => exact Notes.stuck
  | succ n ih =>
      refine (answers_expect .ident).onNode fun t => (proceeds_accept .comma).bind fun b =>
        Notes.ite ?_ ?_
      · refine ih.bind fun ts => Notes.pure ?_
        cases ts <;> simp
      · exact (answers_expect .rparen).onNode fun _ => Notes.pure (Option.some_ne_none _)

omit h in
theorem answers_params (n : Nat) : Reading.Answers (params n) :=
  (answers_expect .lparen).onNode fun _ => (proceeds_accept .rparen).bind fun _ =>
    Notes.ite (Notes.pure (Option.some_ne_none _)) (answers_names n)

theorem answers_entries (n : Nat) : Reading.Answers (entries sub n) := by
  induction n with
  | zero => exact Notes.stuck
  | succ n ih =>
      have hrest : ∀ e : Expr Token × Expr Token, Reading.Answers (do
          let es ← entries sub n
          return es.map (e :: ·)) :=
        fun e => ih.bind fun es => Notes.pure (by cases es <;> simp)
      refine (proceeds_accept .rbrace).bind fun b =>
        Notes.ite (Notes.pure (Option.some_ne_none _)) ?_
      refine (h .lowest).bind fun x => (answers_expect .colon).onNode fun _ =>
        (h .lowest).bind fun y => ?_
      -- The entry is given up if the key or the value has no node, which noted a fault.
      cases x with
      | none => exact Notes.pure (by simp)
      | some key =>
          cases y with
          | none => exact Notes.pure (by simp)
          | some value =>
              refine proceeds_peek.bind fun next => Notes.ite ?_ ?_
              · exact (hrest (key, value)).mono fun _ hmiss => hmiss.1.1
              · exact (answers_expect .comma).onNode fun _ =>
                  (hrest (key, value)).mono fun _ hmiss => hmiss.1.1

/-! ### Expressions -/

theorem answers_conditional (n : Nat) (mark : Token) :
    Reading.Answers (conditional sub n mark) := by
  refine (answers_expect .lparen).onNode fun _ => (h .lowest).bind fun x =>
    (answers_expect .rparen).onNode fun _ => (answers_block h n).onNode fun yes =>
      (proceeds_accept .elseWord).bind fun b => Notes.ite ?_ ?_
  · refine (answers_block h n).onNode fun no => Notes.pure ?_
    cases x <;> simp
  · refine Notes.pure ?_
    cases x <;> simp

theorem answers_function (n : Nat) (mark : Token) : Reading.Answers (function sub n mark) :=
  (answers_params n).onNode fun _ => (answers_block h n).onNode fun _ =>
    Notes.pure (Option.some_ne_none _)

theorem answers_grouped : Reading.Answers (grouped sub) :=
  (h .lowest).bind fun x => (answers_expect .rparen).onNode fun _ => Notes.pure (by cases x <;> simp)

theorem answers_unary (op : UnaryOp) (mark : Token) :
    Reading.Answers (onNode (sub .prefixed) fun e => return some (Expr.unary mark op e)) :=
  (h .prefixed).onNode fun _ => Notes.pure (Option.some_ne_none _)

omit h in
/-- A number that does not fit is a fault at its token. -/
theorem accounts_number {c c' : Cursor} {x : Option (Expr Token)}
    (hrun : Yields (number c.next) (after c) x c') : Accounts (· = none) c x c' := by
  unfold number at hrun
  split at hrun
  · cases hrun
    exact ⟨went_after c, fun hnone => by cases hnone⟩
  · exact accounts_report (went_after c) rfl rfl hrun

theorem answers_primary (n : Nat) : Reading.Answers (primary sub n) := by
  refine Notes.advance fun c x c' hrun => ?_
  have hw := went_after c
  have hfound : ∀ e : Expr Token, Reading.Answers (Pure.pure (some e)) :=
    fun _ => Notes.pure (Option.some_ne_none _)
  cases hk : c.next.kind <;> simp only [hk] at hrun
  case ident => exact (hfound _).onward hw hrun
  case int => exact accounts_number hrun
  case string => exact (hfound _).onward hw hrun
  case trueWord => exact (hfound _).onward hw hrun
  case falseWord => exact (hfound _).onward hw hrun
  case bang => exact (answers_unary h .not c.next).onward hw hrun
  case minus => exact (answers_unary h .neg c.next).onward hw hrun
  case lparen => exact (answers_grouped h).onward hw hrun
  case ifWord => exact (answers_conditional h n c.next).onward hw hrun
  case fnWord => exact (answers_function h n c.next).onward hw hrun
  case lbracket =>
    exact Notes.onward ((answers_list h .rbracket n).onNode fun _ => hfound _) hw hrun
  case lbrace =>
    exact Notes.onward ((answers_entries h n).onNode fun _ => hfound _) hw hrun
  all_goals exact accounts_report hw rfl rfl hrun

theorem answers_extend (n : Nat) (mark : Token) (left : Expr Token) (tail : Tail) :
    Reading.Answers (extend sub n mark left tail) := by
  cases tail with
  | binary op => exact (h op.rank).onNode fun _ => Notes.pure (Option.some_ne_none _)
  | call => exact (answers_list h .rparen n).onNode fun _ => Notes.pure (Option.some_ne_none _)
  | index =>
      refine (h .lowest).bind fun x => (answers_expect .rbracket).onNode fun _ => Notes.pure ?_
      cases x <;> simp

theorem answers_climb (n : Nat) (r : Rank) (left : Expr Token) :
    Reading.Answers (climb sub n r left) := by
  induction n generalizing left with
  | zero => exact Notes.stuck
  | succ n ih =>
      refine proceeds_peek.bind fun next => ?_
      cases Tail.ofKind? next.kind with
      | none => exact Notes.pure (Option.some_ne_none _)
      | some tail =>
          refine Notes.ite (proceeds_advance.bind fun _ => ?_) (Notes.pure (Option.some_ne_none _))
          exact (answers_extend h n next left tail).onNode fun e => ih e

end

theorem answers_expression (n : Nat) : Sub.Answers (expression n) := by
  induction n with
  | zero => exact fun _ => Notes.stuck
  | succ n ih => exact fun r => (answers_primary ih n).onNode fun left => answers_climb ih n r left

/-- The rules of the grammar, with a reader for nested expressions and a count for their loops. -/
inductive Rule (sub : Sub) (count : Nat) : {α : Type} → Reading α → Prop
  | program : Rule sub count (program sub count)
  | statement : Rule sub count (statement sub)
  | binding (mark : Token) : Rule sub count (binding sub mark)
  | returning (mark : Token) : Rule sub count (returning sub mark)
  | exprStatement : Rule sub count (exprStatement sub)
  | block : Rule sub count (block sub count)
  | blockBody : Rule sub count (blockBody sub count)
  | expression (r : Rank) : Rule sub count (sub r)
  | primary : Rule sub count (primary sub count)
  | climb (r : Rank) (left : Expr Token) : Rule sub count (climb sub count r left)
  | extend (mark : Token) (left : Expr Token) (tail : Tail) :
      Rule sub count (extend sub count mark left tail)
  | grouped : Rule sub count (grouped sub)
  | conditional (mark : Token) : Rule sub count (conditional sub count mark)
  | function (mark : Token) : Rule sub count (function sub count mark)
  | params : Rule sub count (params count)
  | names : Rule sub count (names count)
  | list (close : Token.Kind) : Rule sub count (list sub close count)
  | items (close : Token.Kind) : Rule sub count (items sub close count)
  | entries : Rule sub count (entries sub count)

/-- Every rule goes on. -/
theorem Rule.proceeds {sub : Sub} (h : sub.Answers) {count : Nat} {α : Type} {m : Reading α}
    (hm : Rule sub count m) : Proceeds m := by
  cases hm with
  | program => exact proceeds_program h count
  | statement => exact (answers_statement h).proceeds
  | binding mark => exact (answers_binding h mark).proceeds
  | returning mark => exact (answers_returning h mark).proceeds
  | exprStatement => exact (answers_exprStatement h).proceeds
  | block => exact (answers_block h count).proceeds
  | blockBody => exact (answers_blockBody h count).proceeds
  | expression r => exact (h r).proceeds
  | primary => exact (answers_primary h count).proceeds
  | climb r left => exact (answers_climb h count r left).proceeds
  | extend mark left tail => exact (answers_extend h count mark left tail).proceeds
  | grouped => exact (answers_grouped h).proceeds
  | conditional mark => exact (answers_conditional h count mark).proceeds
  | function mark => exact (answers_function h count mark).proceeds
  | params => exact (answers_params count).proceeds
  | names => exact (answers_names count).proceeds
  | list close => exact (answers_list h close count).proceeds
  | items close => exact (answers_items h close count).proceeds
  | entries => exact (answers_entries h count).proceeds

end Grammar

open Cursor Reading Grammar

/-- Each token of a text starts behind the one before it, and the end behind all of them. -/
theorem pairwise_ahead (source : String) :
    (startCursor source).ahead.Pairwise fun t u => t.span.start < u.span.start := by
  refine List.pairwise_append.2 ⟨?_, List.pairwise_singleton _ _, ?_⟩
  · refine (Token.pairwise_scan 0 source.toList).imp_of_mem fun {t u} ht _ hle => ?_
    have hbounds := Token.bounds_of_mem_scan ht
    omega
  · intro t ht u hu
    have hbounds := Token.bounds_of_mem_scan (show t ∈ Token.scan 0 source.toList from ht)
    rw [byteLength_toList] at hbounds
    rw [List.mem_singleton.1 hu]
    show t.span.start < source.utf8ByteSize
    omega

theorem ordered_startCursor (source : String) : (startCursor source).Ordered :=
  (pairwise_ahead source).imp Nat.le_of_lt

/-- The faults of a text, the latest first, lie between its first token and its end. -/
theorem between_parse (source : String) :
    (∀ e ∈ (parse source).errors, e.token ∈ (startCursor source).ahead) ∧
      ∃ low high, Between low high (parse source).errors.reverse := by
  obtain ⟨p, c, hrun, -, hparse⟩ := exists_run source
  obtain ⟨es, hes, htokens, hbetween⟩ :=
    (proceeds_program (answers_expression _) _ hrun).1.noted
  have herrors : c.errors = es := hes.trans (List.append_nil es)
  rw [hparse, herrors, List.reverse_reverse]
  exact ⟨fun e he => htokens e (List.mem_reverse.1 he), _, _, hbetween (ordered_startCursor source)⟩

/-- A fault of a text shows at one of its tokens or at its end. -/
theorem token_mem_of_mem_errors {source : String} {e : SyntaxError}
    (h : e ∈ (parse source).errors) : e.token ∈ tokens source ++ [endToken source] :=
  (between_parse source).1 e h

/-- **The faults of a text come in order, and none is silent.**  Each shows at a token or at the end.
Every call of a rule leaves the faults noted before it as they are, and a call that finds no
statement, no expression or no block has noted one. -/
theorem errors_in_order (source : String) :
    ((parse source).errors.Pairwise fun e e' => e.token.span.start ≤ e'.token.span.start) ∧
    (∀ e ∈ (parse source).errors, e.token ∈ tokens source ∨ e.token = endToken source) ∧
    ∀ depth count, ∀ c c' : Cursor,
      (∀ {α : Type} (m : Reading α) (a : α), Rule (expression depth) count m → Yields m c a c' →
        c.errors <:+ c'.errors) ∧
      (∀ r, Yields (expression depth r) c none c' → c.errors.length < c'.errors.length) ∧
      (Yields (statement (expression depth)) c none c' → c.errors.length < c'.errors.length) ∧
      (Yields (blockBody (expression depth) count) c none c' →
        c.errors.length < c'.errors.length) ∧
      (Yields (block (expression depth) count) c none c' →
        c.errors.length < c'.errors.length) := by
  refine ⟨?_, fun e he => ?_, fun depth count c c' => ⟨?_, ?_, ?_, ?_, ?_⟩⟩
  · obtain ⟨-, low, high, hbetween⟩ := between_parse source
    exact List.pairwise_reverse.1 hbetween.descends
  · rcases List.mem_append.1 (token_mem_of_mem_errors he) with hmem | hmem
    · exact .inl hmem
    · exact .inr (List.mem_singleton.1 hmem)
  · intro α m a hm hrun
    exact (hm.proceeds (answers_expression depth) hrun).1.errors
  · exact fun r hrun => (answers_expression depth r hrun).2 rfl
  · exact fun hrun => (answers_statement (answers_expression depth) hrun).2 rfl
  · exact fun hrun => (answers_blockBody (answers_expression depth) count hrun).2 rfl
  · exact fun hrun => (answers_block (answers_expression depth) count hrun).2 rfl

/-- A binding without `=`, and a function whose body is not closed: at each cursor the call finds
nothing. -/
theorem errors_in_order_unclosed :
    (parse "let x 5; fn() \x7b").errors.map (·.token.span.start) = [6, 15] ∧
      ((parse "let x 5; fn() \x7b").errors.Pairwise fun e e' =>
        e.token.span.start ≤ e'.token.span.start) ∧
      ∃ c₁ c₂ c₃ c₄ : Cursor,
        (Yields (statement (expression 9)) (startCursor "let x 5; fn() \x7b") none c₁ ∧
          0 < c₁.errors.length) ∧
        (Yields (expression 9 .lowest) ⟨(tokens "let x 5; fn() \x7b").drop 4, c₁.finish, []⟩ none c₂ ∧
          0 < c₂.errors.length) ∧
        (Yields (block (expression 9) 9) ⟨(tokens "let x 5; fn() \x7b").drop 7, c₁.finish, []⟩ none
          c₃ ∧ 0 < c₃.errors.length) ∧
        Yields (blockBody (expression 9) 9) c₃ none c₄ ∧ c₃.errors.length < c₄.errors.length ∧
          c₃.errors <:+ c₄.errors := by
  have htokens : tokens "let x 5; fn() \x7b" =
      [⟨.letWord, "let", ⟨0, 3⟩⟩, ⟨.ident, "x", ⟨4, 5⟩⟩, ⟨.int, "5", ⟨6, 7⟩⟩,
        ⟨.semicolon, ";", ⟨7, 8⟩⟩, ⟨.fnWord, "fn", ⟨9, 11⟩⟩, ⟨.lparen, "(", ⟨11, 12⟩⟩,
        ⟨.rparen, ")", ⟨12, 13⟩⟩, ⟨.lbrace, "\x7b", ⟨14, 15⟩⟩] := by
    decide +kernel
  have hnoted := errors_in_order "let x 5; fn() \x7b"
  have hcalls := hnoted.2.2 9 9
  have hstatement : Yields (statement (expression 9)) (startCursor "let x 5; fn() \x7b") none
      ⟨(tokens "let x 5; fn() \x7b").drop 2, endToken "let x 5; fn() \x7b",
        [.unexpected .assign ⟨.int, "5", ⟨6, 7⟩⟩]⟩ := by
    rw [startCursor, htokens]
    rfl
  have hexpression : Yields (expression 9 .lowest)
      ⟨(tokens "let x 5; fn() \x7b").drop 4, endToken "let x 5; fn() \x7b", []⟩ none
      ⟨[], endToken "let x 5; fn() \x7b",
        [.unexpected .rbrace (endToken "let x 5; fn() \x7b")]⟩ := by
    rw [htokens]
    rfl
  have hblock : Yields (block (expression 9) 9)
      ⟨(tokens "let x 5; fn() \x7b").drop 7, endToken "let x 5; fn() \x7b", []⟩ none
      ⟨[], endToken "let x 5; fn() \x7b",
        [.unexpected .rbrace (endToken "let x 5; fn() \x7b")]⟩ := by
    rw [htokens]
    rfl
  have hbody : Yields (blockBody (expression 9) 9)
      ⟨[], endToken "let x 5; fn() \x7b", [.unexpected .rbrace (endToken "let x 5; fn() \x7b")]⟩
      none ⟨[], endToken "let x 5; fn() \x7b",
        [.unexpected .rbrace (endToken "let x 5; fn() \x7b"),
          .unexpected .rbrace (endToken "let x 5; fn() \x7b")]⟩ := rfl
  exact ⟨by decide +kernel, hnoted.1, _, _, _, _,
    ⟨hstatement, (hcalls _ _).2.2.1 hstatement⟩, ⟨hexpression, (hcalls _ _).2.1 _ hexpression⟩,
    ⟨hblock, (hcalls _ _).2.2.2.2 hblock⟩, hbody, (hcalls _ _).2.2.2.1 hbody,
    (hcalls _ _).1 _ _ .blockBody hbody⟩

end Treewalk
