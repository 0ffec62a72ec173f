import Treewalk.Proofs.Syntax.Longer
import Treewalk.Proofs.Token.Pieces

/-! # Texts in two pieces

A text that reads without a fault and ends with a semicolon can be put before any other.  The
statements of the two follow each other, and the faults are those of the second (`parse_append`).

* No expression ends with a semicolon (`Expr.Spelled.closesOff`).  So the reader of the last value of
  the first text leaves the semicolon, and has not seen what follows it.
* The statement that this value belongs to takes the semicolon and looks no further
  (`repeats_statement`).  All statements before it have left some tokens. -/

namespace Treewalk

/-! ### The last token of an expression -/

/-- The last of some tokens is no semicolon. -/
def ClosesOff (ts : List Token) : Prop :=
  ∃ us t, ts = us ++ [t] ∧ t.kind ≠ .semicolon

theorem ClosesOff.append {ts : List Token} (h : ClosesOff ts) (us : List Token) :
    ClosesOff (us ++ ts) := by
  obtain ⟨vs, t, rfl, ht⟩ := h
  exact ⟨us ++ vs, t, by rw [List.append_assoc], ht⟩

theorem closesOff_of_is {t : Token} {k : Token.Kind} (h : t.Is k) (hk : k ≠ .semicolon)
    (us : List Token) : ClosesOff (us ++ [t]) :=
  ⟨us, t, rfl, by rw [h.1]; exact hk⟩

theorem closesOff_singleton {t : Token} (h : t.kind ≠ .semicolon) : ClosesOff [t] :=
  ⟨[], t, rfl, h⟩

section

variable {α : Type} {mark : Token → α} {closed : Bool}

theorem Block.Spelled.closesOff {b : Block α} {ts : List Token}
    (h : Block.Spelled mark closed b ts) : ClosesOff ts := by
  cases h with
  | braces _ _ hr => exact (closesOff_of_is hr (by decide) _).append [_]

mutual

/-- No expression ends with a semicolon. -/
theorem Expr.Spelled.closesOff {place : Place} {e : Expr α} {ts : List Token}
    (h : Expr.Spelled mark closed place e ts) : ClosesOff ts :=
  match h with
  | .bare _ hb => hb.closesOff
  | .pair _ _ hr => (closesOff_of_is hr (by decide) _).append [_]

theorem Expr.Bare.closesOff {e : Expr α} {ts : List Token} (h : Expr.Bare mark closed e ts) :
    ClosesOff ts :=
  match h with
  | .name hk => closesOff_singleton (by rw [hk]; decide)
  | .int hv => closesOff_singleton (by rw [hv.1]; decide)
  | .string hk => closesOff_singleton (by rw [hk]; decide)
  | .bool hk => closesOff_singleton (by rw [hk.1]; split <;> decide)
  | .unary _ he => he.closesOff.append [_]
  | .binary _ _ hr => (hr.closesOff.append [_]).append _
  | .cond _ _ _ _ hy => ((hy.closesOff.append [_]).append _).append [_, _]
  | .condElse _ _ _ _ _ _ hn =>
      ((((hn.closesOff.append [_]).append _).append [_]).append _).append [_, _]
  | .func _ _ _ _ hb => ((hb.closesOff.append [_]).append _).append [_, _]
  | .call _ _ _ hr => ((closesOff_of_is hr (by decide) _).append [_]).append _
  | .array _ _ hr => (closesOff_of_is hr (by decide) _).append [_]
  | .index _ _ _ hr => ((closesOff_of_is hr (by decide) _).append [_]).append _
  | .table _ _ hr => (closesOff_of_is hr (by decide) _).append [_]

end

end

theorem ClosesOff.getLast_ne {ts us : List Token} {t : Token} (h : ClosesOff ts)
    (heq : ts = us ++ [t]) : t.kind ≠ .semicolon := by
  obtain ⟨vs, t', hts, ht'⟩ := h
  obtain ⟨-, hlast⟩ := List.append_inj' (heq.symm.trans hts) rfl
  obtain ⟨rfl, -⟩ := List.cons.inj hlast
  exact ht'

namespace Grammar

open Reading Cursor

/-! ### The end of the first text -/

/-- A cursor with at most `n` tokens left, the last of which is a semicolon. -/
structure BeforeSemicolon (n : Nat) (c : Cursor) : Prop where
  fits : c.Fits fun _ => True
  length : c.rest.length ≤ n
  last : ∃ ts t, c.rest = ts ++ [t] ∧ t.kind = .semicolon

section

variable {n : Nat} {w : Setting} {c c' d : Cursor}

theorem BeforeSemicolon.unseen (h : BeforeSemicolon n c) : c.Unseen w := by
  obtain ⟨ts, t, hrest, -⟩ := h.last
  refine .inr ?_
  rw [hrest]
  simp

/-- Some tokens were taken, but not all. -/
theorem BeforeSemicolon.of_took {used : List Token} (h : BeforeSemicolon n c)
    (htook : Took c used c') (hne : c'.rest ≠ []) : BeforeSemicolon n c' := by
  refine ⟨htook.fits h.fits, ?_, ?_⟩
  · have hlength := htook.length_eq
    have hle := h.length
    omega
  · obtain ⟨ts, t, hrest, ht⟩ := h.last
    obtain ⟨us, u, hus⟩ : ∃ us u, c'.rest = us ++ [u] :=
      ⟨_, _, (List.dropLast_append_getLast hne).symm⟩
    refine ⟨us, u, hus, ?_⟩
    have heq := htook.rest
    rw [hrest, hus, ← List.append_assoc] at heq
    obtain ⟨-, hlast⟩ := List.append_inj' heq rfl
    obtain ⟨rfl, -⟩ := List.cons.inj hlast
    exact ht

/-- A token other than the last was taken. -/
theorem BeforeSemicolon.after (h : BeforeSemicolon n c) (hk : c.next.kind ≠ .semicolon) :
    BeforeSemicolon n (after c) := by
  obtain ⟨ts, t, hrest, ht⟩ := h.last
  cases ts with
  | nil =>
      have hnext : c.next = t := by
        rw [Cursor.next, hrest]
        rfl
      rw [hnext] at hk
      exact absurd ht hk
  | cons u us =>
      have hnext : c.rest = c.next :: (us ++ [t]) := by
        rw [Cursor.next, hrest]
        rfl
      refine h.of_took (took_after hnext) ?_
      rw [Reading.after, hnext]
      simp

theorem BeforeSemicolon.noting (h : BeforeSemicolon n c) (e : SyntaxError) :
    BeforeSemicolon n (noting e c) := by
  refine h.of_took (took_noting e c) ?_
  obtain ⟨ts, t, hrest, -⟩ := h.last
  rw [Reading.noting, hrest]
  simp

/-- The value of the last statement does not take the semicolon, if no fault was noted. -/
theorem BeforeSemicolon.of_value {sub : Sub} (hsub : Sub.Reads (fun _ => True) n sub)
    (h : BeforeSemicolon n c) {x : Option (Expr Token)} (hx : Yields (sub .lowest) c x c')
    (hclean : c'.errors = []) : BeforeSemicolon n c' := by
  obtain ⟨y, c₁, heq, used, htook, -, -, hfound⟩ := hsub.free h.fits h.length
  rw [Yields, heq] at hx
  cases hx
  refine h.of_took htook fun hnil => ?_
  have hfaults : c'.faults ≤ c.faults := by
    rw [faults, hclean]
    exact Nat.zero_le _
  obtain ⟨e, -, hspelled⟩ := hfound hfaults
  obtain ⟨ts, t, hrest, ht⟩ := h.last
  have hused : used = ts ++ [t] := by
    rw [← hrest, htook.rest, hnil, List.append_nil]
  exact hspelled.closesOff.getLast_ne hused ht

theorem BeforeSemicolon.of_expect {k : Token.Kind} (h : BeforeSemicolon n c) (hk : k ≠ .semicolon)
    {x : Option Token} (hx : Yields (expect k) c x c') : BeforeSemicolon n c' := by
  obtain ⟨t, c₁, hpeek, hx⟩ := exists_of_bind hx
  cases hpeek
  change Yields (if c.next.kind = k then _ else _) c x c' at hx
  split at hx
  · rename_i hkind
    cases hx
    exact h.after (by rw [hkind]; exact hk)
  · cases hx
    exact h.noting _

theorem skipSemicolon_eq (c : Cursor) :
    skipSemicolon c = some ((), if c.next.kind = .semicolon then after c else c) := by
  by_cases hk : c.next.kind = .semicolon
  · have haccept : Yields (accept .semicolon) c true (after c) := by
      apply Yields.bind (yields_peek c)
      rw [if_pos hk]
      rfl
    rw [if_pos hk]
    exact Yields.bind haccept (Yields.pure _ _)
  · rw [if_neg hk]
    exact Yields.bind (yields_accept_of_ne hk) (Yields.pure _ _)

/-- Whether a semicolon is taken does not depend on what follows it. -/
theorem repeats_skipSemicolon (hc : c.Unseen w) {u : Unit} (h : Yields skipSemicolon c u c') :
    Yields skipSemicolon (w.place c) u (w.place c') := by
  rw [Yields, skipSemicolon_eq] at h ⊢
  obtain ⟨-, rfl⟩ := Prod.mk.inj (Option.some.inj h)
  rw [next_place hc, Token.kind_shift, after_place hc, apply_ite w.place]

/-- A statement is read by the rule that its first token tells. -/
theorem statement_of_letWord (sub : Sub) (hk : c.next.kind = .letWord) :
    statement sub c = binding sub c.next (after c) := by
  rw [statement, bind_of_eq (yields_peek c), hk]
  rfl

theorem statement_of_returnWord (sub : Sub) (hk : c.next.kind = .returnWord) :
    statement sub c = returning sub c.next (after c) := by
  rw [statement, bind_of_eq (yields_peek c), hk]
  rfl

theorem statement_of_ne (sub : Sub) (hlet : c.next.kind ≠ .letWord)
    (hreturn : c.next.kind ≠ .returnWord) : statement sub c = exprStatement sub c := by
  rw [statement, bind_of_eq (yields_peek c)]
  cases hk : c.next.kind with
  | letWord => exact absurd hk hlet
  | returnWord => exact absurd hk hreturn
  | _ => rfl

section

variable {sub sub' : Sub} (hsub : Sub.Reads (fun _ => True) n sub) (hecho : Sub.Echoes w sub sub')
  (h : BeforeSemicolon n c) {x : Option (Stmt Token)} (hclean : c'.errors = [])
include hsub hecho h hclean

/-- The value of the last statement, and the semicolon. -/
theorem repeats_value {make : Expr Token → Stmt Token} (make' : Expr Token → Stmt Token)
    (hmake : ∀ e, make' (e.map (Token.shift w.offset)) = (make e).map (Token.shift w.offset))
    (hrun : Yields (do let value ← sub .lowest; skipSemicolon; return value.map make) c x c') :
    Yields (do let value ← sub' .lowest; skipSemicolon; return value.map make') (w.place c)
      (x.map (Stmt.map (Token.shift w.offset))) (w.place c') := by
  obtain ⟨y, c₁, hvalue, hrun⟩ := exists_of_bind hrun
  obtain ⟨u, c₂, hskip, hpure⟩ := exists_of_bind hrun
  cases hpure
  have hclean₁ : c₁.errors = [] := by
    rw [Yields, skipSemicolon_eq] at hskip
    obtain ⟨-, rfl⟩ := Prod.mk.inj (Option.some.inj hskip)
    revert hclean
    split <;> exact id
  have hunseen := (h.of_value hsub hvalue hclean₁).unseen (w := w)
  refine ((hecho .lowest).repeats hvalue hunseen).bind
    ((repeats_skipSemicolon hunseen hskip).bind ?_)
  cases y with
  | none => rfl
  | some e =>
      rw [Option.map_some, Option.map_some, hmake]
      rfl

theorem repeats_binding (mark : Token) (hrun : Yields (binding sub mark) c x c') :
    Yields (binding sub' (mark.shift w.offset)) (w.place c)
      (x.map (Stmt.map (Token.shift w.offset))) (w.place c') := by
  obtain ⟨target, c₁, hident, hrun⟩ := exists_of_bind hrun
  have h₁ := h.of_expect (by decide) hident
  refine ((echoes_expect .ident).repeats hident h₁.unseen).bind ?_
  cases target with
  | none =>
      cases hrun
      rfl
  | some target =>
      obtain ⟨sign, c₂, hassign, hrun⟩ := exists_of_bind hrun
      have h₂ := h₁.of_expect (by decide) hassign
      refine ((echoes_expect .assign).repeats hassign h₂.unseen).bind ?_
      cases sign with
      | none =>
          cases hrun
          rfl
      | some sign => exact repeats_value hsub hecho h₂ hclean _ (fun _ => rfl) hrun

theorem repeats_returning (mark : Token) (hrun : Yields (returning sub mark) c x c') :
    Yields (returning sub' (mark.shift w.offset)) (w.place c)
      (x.map (Stmt.map (Token.shift w.offset))) (w.place c') := by
  obtain ⟨t, c₁, hpeek, hrun⟩ := exists_of_bind hrun
  cases hpeek
  refine (yields_peek_place h.unseen).bind ?_
  rw [show c.rest.headD c.finish = c.next from rfl] at hrun
  rw [Token.kind_shift]
  split at hrun
  · rename_i hbare
    obtain ⟨u, c₂, hskip, hpure⟩ := exists_of_bind hrun
    cases hpure
    rw [if_pos hbare]
    exact (repeats_skipSemicolon h.unseen hskip).bind rfl
  · rename_i hbare
    rw [if_neg hbare]
    exact repeats_value hsub hecho h hclean _ (fun _ => rfl) hrun

theorem repeats_exprStatement (hrun : Yields (exprStatement sub) c x c') :
    Yields (exprStatement sub') (w.place c) (x.map (Stmt.map (Token.shift w.offset)))
      (w.place c') := by
  obtain ⟨t, c₁, hpeek, hrun⟩ := exists_of_bind hrun
  cases hpeek
  exact (yields_peek_place h.unseen).bind
    (repeats_value hsub hecho h hclean _ (fun _ => rfl) hrun)

/-- **The last statement of the first text is read in the longer one as it is on its own.** -/
theorem repeats_statement (hrun : Yields (statement sub) c x c') :
    Yields (statement sub') (w.place c) (x.map (Stmt.map (Token.shift w.offset))) (w.place c') := by
  have hnext := next_place h.unseen (w := w)
  have hkind : (w.place c).next.kind = c.next.kind := by rw [hnext, Token.kind_shift]
  by_cases hlet : c.next.kind = .letWord
  · rw [Yields, statement_of_letWord sub hlet] at hrun
    rw [Yields, statement_of_letWord sub' (hkind.trans hlet), hnext, after_place h.unseen]
    exact repeats_binding hsub hecho (h.after (by rw [hlet]; decide)) hclean c.next hrun
  by_cases hreturn : c.next.kind = .returnWord
  · rw [Yields, statement_of_returnWord sub hreturn] at hrun
    rw [Yields, statement_of_returnWord sub' (hkind.trans hreturn), hnext, after_place h.unseen]
    exact repeats_returning hsub hecho (h.after (by rw [hreturn]; decide)) hclean c.next hrun
  · rw [Yields, statement_of_ne sub hlet hreturn] at hrun
    rw [Yields, statement_of_ne sub' (by rwa [hkind]) (by rwa [hkind])]
    exact repeats_exprStatement hsub hecho h hclean hrun

end

end

/-! ### All statements -/

section

variable {n count : Nat} {w : Setting} {c c' e : Cursor} {p q : Program Token}

theorem program_of_nil {sub : Sub} (hc : c.Fits fun _ => True) (hnil : c.rest = [])
    (h : Yields (program sub count) c p c') : p = [] ∧ c' = c := by
  cases count with
  | zero => cases h
  | succ count =>
      have heof : c.next.kind = .eof := by
        rw [Cursor.next, hnil]
        exact hc.finish
      obtain ⟨t, c₁, hpeek, h⟩ := exists_of_bind h
      cases hpeek
      rw [show c.rest.headD c.finish = c.next from rfl, if_pos heof] at h
      cases h
      exact ⟨rfl, rfl⟩

/-- **The statements of a text that reads without a fault and ends with a semicolon are read in the
longer one too**, and then those of the sequel. -/
theorem yields_program_append {sub' : Sub} (hecho : Sub.Echoes w (expression (n + 1)) sub')
    {m : Nat} (hsequel : ∀ l, m ≤ l → Yields (program sub' l) ⟨w.sequel, w.finish, []⟩ q e)
    (hc : c.Fits fun _ => True) (hn : c.rest.length ≤ n) (hcount : c.rest.length < count)
    (hlast : c.rest ≠ [] → BeforeSemicolon n c)
    (hrun : Yields (program (expression (n + 1)) count) c p c') (hclean : c'.errors = [])
    {l : Nat} (hl : c.rest.length + m ≤ l) :
    Yields (program sub' l) (w.place c) (p.map (Token.shift w.offset) ++ q) e := by
  induction count generalizing c p l with
  | zero => cases hrun
  | succ count ih =>
      by_cases hnil : c.rest = []
      · obtain ⟨rfl, rfl⟩ := program_of_nil hc hnil hrun
        rw [Setting.place, hnil, hclean]
        exact hsequel l (by omega)
      have hbefore := hlast hnil
      have heof : c.next.kind ≠ .eof := fun heof => hnil (hc.rest_eq_nil_of_eof heof)
      have hfaults : c'.faults = 0 := by
        rw [faults, hclean]
        rfl
      obtain ⟨s, rest, c₁, rfl, hstmt, hrest⟩ :=
        exists_cons_of_program hc hn hcount heof hrun (by omega)
      obtain ⟨used, htook, hlen, -⟩ := took_of_statement hc hn hstmt
      have hc₁ := htook.fits hc
      have hpos : 0 < c.rest.length := List.length_pos_iff.2 hnil
      have hclean₁ : c₁.errors = [] := by
        have hle := faults_le_of_program hc₁ (by omega) (by omega) hrest
        rw [hfaults, Nat.le_zero] at hle
        exact List.length_eq_zero_iff.1 hle
      have hstmt' : Yields (statement sub') (w.place c) (some (s.map (Token.shift w.offset)))
          (w.place c₁) := by
        by_cases hnil₁ : c₁.rest = []
        · exact repeats_statement (reads_expression (fun _ => True) n) hecho hbefore hclean₁ hstmt
        · exact (echoes_statement hecho).repeats hstmt (.inr hnil₁)
      obtain ⟨l, rfl⟩ := Nat.exists_eq_add_one.2 (show 0 < l by omega)
      have hrest' := ih hc₁ (by omega) (by omega) (hbefore.of_took htook) hrest
        (show c₁.rest.length + m ≤ l by omega)
      refine (yields_peek_place hbefore.unseen).bind ?_
      rw [Token.kind_shift, if_neg heof]
      exact hstmt'.bind (hrest'.bind rfl)

end

end Grammar

open Grammar Reading Cursor

theorem Token.shift_zero : Token.shift 0 = id := by
  funext t
  simp [Token.shift, Span.shift]

/-- A text is read behind another one as it is on its own. -/
theorem yields_sequel (s₁ s₂ : String) : ∃ e : Cursor,
    (parse s₂).errors.map (SyntaxError.shift s₁.utf8ByteSize) = e.errors.reverse ∧
      ∀ n l, (tokens s₂).length < n → (tokens s₂).length < l → Yields (program (expression n) l)
        ⟨(tokens s₂).map (Token.shift s₁.utf8ByteSize), endToken (s₁ ++ s₂), []⟩
        ((parse s₂).program.map (Token.shift s₁.utf8ByteSize)) e := by
  obtain ⟨q, c, hrun, htook, hparse⟩ := exists_run s₂
  let w : Setting := ⟨s₁.utf8ByteSize, [], endToken (s₁ ++ s₂)⟩
  have hunseen : c.Unseen w := by
    refine .inl ⟨rfl, ?_⟩
    rw [htook.finish]
    exact endToken_append s₁ s₂
  rw [hparse]
  refine ⟨w.place c, List.map_reverse, fun n l hn hl => ?_⟩
  have hrepeats := (echoes_program (echoes_expression hn) hl).repeats hrun hunseen
  rwa [Setting.place, List.append_nil] at hrepeats

/-- **Reading a text in two pieces.**  What follows a text that reads without a fault and ends with a
semicolon, if it has tokens at all, is read as it is on its own, and further on. -/
theorem parse_append {s₁ s₂ : String} (hclean : (parse s₁).errors = [])
    (hlast : ∀ t, (tokens s₁).getLast? = some t → t.kind = .semicolon) :
    parse (s₁ ++ s₂) =
      ⟨(parse s₁).program ++ (parse s₂).program.map (Token.shift s₁.utf8ByteSize),
        (parse s₂).errors.map (SyntaxError.shift s₁.utf8ByteSize)⟩ := by
  have hfits : (startCursor s₁).Fits fun _ => True := fits_startCursor fun _ _ _ _ => trivial
  have hcount : (tokens s₁).length < (tokens s₁).length + 1 := Nat.lt_succ_self _
  obtain ⟨p, c, hrun, -, hparse⟩ := exists_run s₁
  rw [hparse] at hclean ⊢
  rw [List.reverse_eq_nil_iff] at hclean
  obtain ⟨e, herrors, hsequel⟩ := yields_sequel s₁ s₂
  let w : Setting := ⟨0, (tokens s₂).map (Token.shift s₁.utf8ByteSize), endToken (s₁ ++ s₂)⟩
  have htokens : tokens (s₁ ++ s₂) = tokens s₁ ++ w.sequel := tokens_append hlast
  have hlength : (tokens (s₁ ++ s₂)).length = (tokens s₁).length + (tokens s₂).length := by
    rw [htokens, List.length_append]
    exact congrArg _ (List.length_map _)
  have hplace : w.place (startCursor s₁) = startCursor (s₁ ++ s₂) := by
    simp [Setting.place, startCursor, htokens, w, Token.shift_zero]
  have hbefore : tokens s₁ ≠ [] → BeforeSemicolon (tokens s₁).length (startCursor s₁) := by
    intro hne
    have hsplit := (List.dropLast_append_getLast hne).symm
    exact ⟨hfits, Nat.le_refl _, _, _, hsplit, hlast _ (List.getLast?_eq_some_getLast hne)⟩
  have hecho : Sub.Echoes w (expression ((tokens s₁).length + 1))
      (expression ((tokens (s₁ ++ s₂)).length + 1)) := echoes_expression (by omega)
  have happend := yields_program_append hecho (fun l hl => hsequel _ l (by omega) (by omega)) hfits
    (Nat.le_refl _) hcount hbefore hrun hclean
    (show (tokens s₁).length + ((tokens s₂).length + 1) ≤ (tokens (s₁ ++ s₂)).length + 1 by omega)
  have hp : p.map (Token.shift w.offset) = p := by
    rw [show w.offset = 0 from rfl, Token.shift_zero, Program.map_id]
  rw [hplace, hp] at happend
  rw [parse_of_program happend, herrors]

end Treewalk
