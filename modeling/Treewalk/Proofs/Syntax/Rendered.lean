import Treewalk.Proofs.Syntax.Written
import Treewalk.Syntax.Render

/-! # Reading the written form of a tree

The written form of a statement that was read reads as the statement again, as long as none of its
names is a keyword.

* `Expr.shown` and `Stmt.allShown` are the tokens of the written form.  They are a closed spelling
  of the tree (`Stmt.spelled_allShown`) when its leaves are plain.
* `Writes text ts` says that a text writes tokens, whatever delimiter follows.  Each written form
  writes its tokens, also where a name is a keyword (`Expr.writes_render`).
* A keyword before a character that begins like a letter is read as a name.  Written out it stands
  before another character and is read as the keyword.  So the exact condition is that no name is a
  keyword (`Stmt.NamesFree`).  It holds of all that is read without a fault (`namesFree_of_errors`). -/

namespace Treewalk

open Token

variable {α : Type}

/-! ### The tokens of a written form -/

/-- The token of a run of letters and underscores. -/
def Token.word (s : String) : Token :=
  .bare (Kind.ofWord s) s

/-- Names separated by commas. -/
def Ident.allShown : List (Ident α) → List Token
  | [] => []
  | [i] => [.word i.name]
  | i :: j :: is => .word i.name :: Kind.token .comma :: Ident.allShown (j :: is)

/-- The semicolon that follows a statement in a list. -/
def Stmt.closing (s : Stmt α) (last : Bool) : List Token :=
  if s.isExpr && last then [] else [Kind.token .semicolon]

mutual

/-- The tokens of the written form of an expression. -/
def Expr.shown : Expr α → List Token
  | .name i => [.word i.name]
  | .int _ v => [.bare .int (Integer.text v)]
  | .string _ v => [.bare .string v]
  | .bool _ v => [Kind.token (if v then .trueWord else .falseWord)]
  | .unary _ op e => Kind.token .lparen :: (op.kind.token :: e.shown ++ [Kind.token .rparen])
  | .binary _ l op r =>
    Kind.token .lparen :: (l.shown ++ op.kind.token :: r.shown ++ [Kind.token .rparen])
  | .cond _ t y none =>
    Kind.token .ifWord :: Kind.token .lparen :: (t.shown ++ Kind.token .rparen :: y.shown)
  | .cond _ t y (some n) =>
    Kind.token .ifWord :: Kind.token .lparen ::
      (t.shown ++ Kind.token .rparen :: (y.shown ++ Kind.token .elseWord :: n.shown))
  | .func _ ps b =>
    Kind.token .fnWord :: Kind.token .lparen ::
      (Ident.allShown ps ++ Kind.token .rparen :: b.shown)
  | .call _ c as =>
    c.shown ++ Kind.token .lparen :: (Expr.allShown as ++ [Kind.token .rparen])
  | .array _ es => Kind.token .lbracket :: (Expr.allShown es ++ [Kind.token .rbracket])
  | .index _ t k =>
    Kind.token .lparen ::
      (t.shown ++ Kind.token .lbracket :: (k.shown ++ [Kind.token .rbracket]) ++
        [Kind.token .rparen])
  | .table _ es => Kind.token .lbrace :: (Expr.entriesShown es ++ [Kind.token .rbrace])

def Expr.allShown : List (Expr α) → List Token
  | [] => []
  | [e] => e.shown
  | e :: e' :: es => e.shown ++ Kind.token .comma :: Expr.allShown (e' :: es)

def Expr.entriesShown : List (Expr α × Expr α) → List Token
  | [] => []
  | [(k, v)] => k.shown ++ Kind.token .colon :: v.shown
  | (k, v) :: e :: es =>
    k.shown ++ Kind.token .colon :: (v.shown ++ Kind.token .comma :: Expr.entriesShown (e :: es))

/-- The tokens of the written form of a block. -/
def Block.shown : Block α → List Token
  | .mk _ ss => Kind.token .lbrace :: (Stmt.allShown ss ++ [Kind.token .rbrace])

/-- The tokens of the written form of a statement, without a semicolon. -/
def Stmt.shown : Stmt α → List Token
  | .bind _ i e => Kind.token .letWord :: .word i.name :: Kind.token .assign :: e.shown
  | .ret _ none => [Kind.token .returnWord]
  | .ret _ (some e) => Kind.token .returnWord :: e.shown
  | .expr _ e => e.shown

/-- The tokens of the written form of a list of statements. -/
def Stmt.allShown : List (Stmt α) → List Token
  | [] => []
  | s :: ss => s.shown ++ (s.closing ss.isEmpty ++ Stmt.allShown ss)

end

theorem shows_text {v : Int64} (h : 0 ≤ v) : (Token.bare .int (Integer.text v)).Shows v := by
  have hv : 0 ≤ v.toInt := Int64.le_iff_toInt_le.1 h
  have htext : (Integer.text v).toList = Decimal.digits v.toInt.natAbs := by
    rw [Integer.text, if_neg (Int.not_lt.2 hv), String.toList_ofList]
  have hlit : (Token.bare .int (Integer.text v)).literal = Integer.text v := rfl
  refine ⟨rfl, ⟨?_, ?_⟩, ?_⟩ <;> rw [hlit]
  · intro hempty
    rw [hempty] at htext
    exact Decimal.digits_ne_nil _ htext.symm
  · rw [htext]
    exact fun c hc => Decimal.isDigit_of_mem_digits hc
  · rw [htext, ← Decimal.ofDigits_eq, Decimal.ofDigits_digits, Int.natAbs_of_nonneg hv]

theorem kind_word {s : String} (h : Kind.ofWord s = .ident) : (Token.word s).kind = .ident :=
  h

theorem Ident.spelled_allShown (is : List (Ident α))
    (hp : ∀ i ∈ is, (Leaf.name i.name : Leaf α).Plain) :
    Ident.ListSpelled unmark (is.map (Ident.map unmark)) (Ident.allShown is) := by
  induction is with
  | nil => exact .nil
  | cons i is ih =>
      rw [List.forall_mem_cons] at hp
      have hi := kind_word hp.1.2
      cases is with
      | nil => exact .one hi
      | cons j is => exact .cons hi (Kind.is_token .comma) (ih hp.2)

theorem Stmt.ending_closing (s : Stmt α) (last : Bool) : Ending (s.closing last) := by
  unfold Stmt.closing
  split
  · exact .none
  · exact .semicolon (Kind.is_token .semicolon)

mutual

theorem Expr.spelled_shown (e : Expr α) (hp : ∀ l ∈ e.leaves, l.Plain) (place : Place) :
    Expr.Spelled unmark true place (e.map unmark) e.shown :=
  match e with
  | .name i => by
      rw [Expr.leaves, List.forall_mem_singleton] at hp
      exact Expr.Bare.spelled (.name (t := .word i.name) (kind_word hp.2)) rfl place
  | .int _ v => by
      rw [Expr.leaves, List.forall_mem_singleton] at hp
      exact Expr.Bare.spelled (.int (shows_text hp)) rfl place
  | .string _ s => Expr.Bare.spelled (.string (t := .bare .string s) rfl) rfl place
  | .bool _ b => Expr.Bare.spelled (.bool (Kind.is_token _)) rfl place
  | .unary _ op e => by
      have he := e.spelled_shown hp .operand
      exact .pair (Kind.is_token .lparen) (.bare id (.unary (Kind.is_token op.kind) he))
        (Kind.is_token .rparen)
  | .binary _ l op r => by
      simp only [Expr.leaves, List.forall_mem_append] at hp
      have hl := l.spelled_shown hp.1 (.left op)
      have hr := r.spelled_shown hp.2 (.right op)
      exact .pair (Kind.is_token .lparen) (.bare id (.binary hl (Kind.is_token op.kind) hr))
        (Kind.is_token .rparen)
  | .cond _ t y none => by
      simp only [Expr.leaves, List.forall_mem_append] at hp
      have ht := t.spelled_shown hp.1 .free
      have hy := y.spelled_shown hp.2
      exact Expr.Bare.spelled (.cond (Kind.is_token .ifWord) (Kind.is_token .lparen) ht
        (Kind.is_token .rparen) hy) rfl place
  | .cond _ t y (some n) => by
      simp only [Expr.leaves, List.forall_mem_append] at hp
      have ht := t.spelled_shown hp.1 .free
      have hy := y.spelled_shown hp.2.1
      have hn := n.spelled_shown hp.2.2
      exact Expr.Bare.spelled (.condElse (Kind.is_token .ifWord) (Kind.is_token .lparen) ht
        (Kind.is_token .rparen) hy (Kind.is_token .elseWord) hn) rfl place
  | .func _ ps b => by
      simp only [Expr.leaves, List.forall_mem_cons, List.forall_mem_append,
        List.forall_mem_map] at hp
      have hps := Ident.spelled_allShown ps hp.2.1
      have hb := b.spelled_shown hp.2.2
      exact Expr.Bare.spelled (.func (Kind.is_token .fnWord) (Kind.is_token .lparen) hps
        (Kind.is_token .rparen) hb) rfl place
  | .call _ c as => by
      simp only [Expr.leaves, List.forall_mem_append] at hp
      have hc := c.spelled_shown hp.1 .head
      have has := Expr.spelled_allShown as hp.2
      exact Expr.Bare.spelled (.call hc (Kind.is_token .lparen) has (Kind.is_token .rparen)) rfl
        place
  | .array _ es => by
      have hes := Expr.spelled_allShown es hp
      exact Expr.Bare.spelled (.array (Kind.is_token .lbracket) hes (Kind.is_token .rbracket)) rfl
        place
  | .index _ t k => by
      simp only [Expr.leaves, List.forall_mem_append] at hp
      have ht := t.spelled_shown hp.1 .head
      have hk := k.spelled_shown hp.2 .free
      exact .pair (Kind.is_token .lparen) (.bare id (.index ht (Kind.is_token .lbracket) hk
        (Kind.is_token .rbracket))) (Kind.is_token .rparen)
  | .table _ es => by
      have hes := Expr.spelled_entriesShown es hp
      exact Expr.Bare.spelled (.table (Kind.is_token .lbrace) hes (Kind.is_token .rbrace)) rfl
        place

theorem Expr.spelled_allShown (es : List (Expr α)) (hp : ∀ l ∈ Expr.allLeaves es, l.Plain) :
    Expr.ListSpelled unmark true (Expr.mapAll unmark es) (Expr.allShown es) :=
  match es with
  | [] => .nil
  | [e] => by
      simp only [Expr.allLeaves, List.append_nil] at hp
      exact .one (e.spelled_shown hp .free)
  | e :: e' :: es => by
      rw [Expr.allLeaves, List.forall_mem_append] at hp
      have he := e.spelled_shown hp.1 .free
      have hes := Expr.spelled_allShown (e' :: es) hp.2
      exact .cons he (Kind.is_token .comma) hes

theorem Expr.spelled_entriesShown (es : List (Expr α × Expr α))
    (hp : ∀ l ∈ Expr.entryLeaves es, l.Plain) :
    Expr.EntriesSpelled unmark true (Expr.mapEntries unmark es) (Expr.entriesShown es) :=
  match es with
  | [] => .nil
  | [(k, v)] => by
      simp only [Expr.entryLeaves, List.append_nil, List.forall_mem_append] at hp
      have hk := k.spelled_shown hp.1 .free
      have hv := v.spelled_shown hp.2 .free
      exact .one hk (Kind.is_token .colon) hv
  | (k, v) :: e :: es => by
      rw [Expr.entryLeaves, List.forall_mem_append, List.forall_mem_append] at hp
      have hk := k.spelled_shown hp.1 .free
      have hv := v.spelled_shown hp.2.1 .free
      have hes := Expr.spelled_entriesShown (e :: es) hp.2.2
      exact .cons hk (Kind.is_token .colon) hv (Kind.is_token .comma) hes

theorem Block.spelled_shown (b : Block α) (hp : ∀ l ∈ b.leaves, l.Plain) :
    Block.Spelled unmark true (b.map unmark) b.shown :=
  match b with
  | .mk _ ss =>
      .braces (Kind.is_token .lbrace) (Stmt.spelled_allShown ss hp) (Kind.is_token .rbrace)

theorem Stmt.spelled_shown (s : Stmt α) (hp : ∀ l ∈ s.leaves, l.Plain) :
    Stmt.Spelled unmark true (s.map unmark) s.shown :=
  match s with
  | .bind _ i e => by
      simp only [Stmt.leaves, List.forall_mem_cons] at hp
      have hi := kind_word hp.2.1.2
      have he := e.spelled_shown hp.2.2 .free
      exact .bind (n := .word i.name) (Kind.is_token .letWord) hi (Kind.is_token .assign) he
  | .ret _ none => .ret (Kind.is_token .returnWord)
  | .ret _ (some e) => by
      rw [Stmt.leaves, List.forall_mem_cons] at hp
      have he := e.spelled_shown hp.2 .free
      exact .retValue (Kind.is_token .returnWord) he
  | .expr _ e => by
      have he := e.spelled_shown hp .free
      obtain ⟨t, ts, heq, -⟩ := he.exists_head
      rw [Stmt.shown, Stmt.map, heq]
      rw [heq] at he
      exact .expr he

/-- **The tokens of a written form are a spelling.** -/
theorem Stmt.spelled_allShown (ss : List (Stmt α)) (hp : ∀ l ∈ Stmt.allLeaves ss, l.Plain) :
    Stmt.ListSpelled unmark true (Stmt.mapAll unmark ss) (Stmt.allShown ss) :=
  match ss with
  | [] => .nil
  | s :: ss => by
      rw [Stmt.allLeaves, List.forall_mem_append] at hp
      have hs := s.spelled_shown hp.1
      have hss := Stmt.spelled_allShown ss hp.2
      refine .cons hs (s.ending_closing _) ?_ hss
      intro _ hne
      cases ss with
      | nil => exact absurd rfl hne
      | cons => simp [Stmt.closing]

end

/-! ### What a written form writes -/

/-- A leaf as reading makes it: names may be keywords, and the words of the marks are their own. -/
def Leaf.Readable : Leaf String → Prop
  | name s => IsWord s
  | int v => 0 ≤ v
  | string s => '"' ∉ s.toList
  | word k m => k.isFixed = true → m = k.text

/-- The characters start with one that ends every word and every number. -/
def Delimits (cs : List Char) : Prop :=
  ∀ c, cs.head? = some c → isDelimiter c = true

theorem delimits_cons {c : Char} (hc : isDelimiter c = true) (cs : List Char) :
    Delimits (c :: cs) := by
  intro d hd
  obtain rfl := Option.some.inj hd
  exact hc

theorem Delimits.parts {cs : List Char} (h : Delimits cs) {t : Token}
    (ht : t.kind.isRun = true) : t.EndsBefore cs := by
  intro c hc
  refine parts_of_isDelimiter (h c hc) ?_
  rintro (hk | hk) <;> rw [hk] at ht <;> cases ht

namespace Written

variable {k : Kind} {ts : List Token} {cs : List Char}

theorem symbol {c : Char} (hk : (k.isFixed && k.standsAlone) = true) (hc : k.text.toList = [c])
    (h : Written ts cs) : Written (k.token :: ts) (c :: cs) := by
  rw [Bool.and_eq_true] at hk
  have hw := Written.token ((Kind.is_token k).writable hk.1)
    (fun d _ => parts_of_standsAlone (t := k.token) hk.2 d) h
  rwa [written_token hk.1, hc] at hw

/-- A word or a sign before a space. -/
theorem spaced (hk : k.isFixed = true) (h : Written ts cs) :
    Written (k.token :: ts) (k.text.toList ++ ' ' :: cs) := by
  rw [← written_token hk]
  refine .token ((Kind.is_token k).writable hk) ?_ (.layout rfl h)
  intro d hd
  obtain rfl := Option.some.inj hd
  exact parts_of_isLayout rfl _

/-- A keyword before a delimiter. -/
theorem keyword (hk : (k.isFixed && k.isRun) = true) (hcs : Delimits cs) (h : Written ts cs) :
    Written (k.token :: ts) (k.text.toList ++ cs) := by
  rw [Bool.and_eq_true] at hk
  rw [← written_token hk.1]
  exact .token ((Kind.is_token k).writable hk.1) (hcs.parts hk.2) h

/-- A name before a delimiter. -/
theorem word {s : String} (hs : IsWord s) (hcs : Delimits cs) (h : Written ts cs) :
    Written (Token.word s :: ts) (s.toList ++ cs) := by
  have hrun : (Token.word s).kind.isRun = true := isRun_of_ofWord
  have hw : (Token.word s).written = s.toList := by
    rw [Token.written, if_neg (by intro hk; rw [hk] at hrun; cases hrun)]
    rfl
  rw [← hw]
  exact .token (.word hs rfl) (hcs.parts hrun) h

end Written

/-- A text writes tokens before any delimiter. -/
def Writes (text : String) (ts : List Token) : Prop :=
  ∀ ⦃us : List Token⦄ ⦃cs : List Char⦄, Delimits cs → Written us cs →
    Written (ts ++ us) (text.toList ++ cs)

theorem writes_name {s : String} (hs : IsWord s) : Writes s [.word s] :=
  fun _ _ hcs h => .word hs hcs h

theorem writes_int {v : Int64} (h : 0 ≤ v) : Writes (Integer.text v) [.bare .int (Integer.text v)] :=
  fun _ _ hcs hus => .token (shows_text h).writable (hcs.parts rfl) hus

theorem writes_quoted {s : String} (hs : '"' ∉ s.toList) : Writes (quoted s) [.bare .string s] := by
  intro us cs _ h
  have hw : (quoted s).toList = (Token.bare .string s).written := by
    simp only [quoted, String.toList_append]
    rfl
  rw [hw]
  exact .token (.string rfl hs) (fun c _ => parts_of_standsAlone rfl c) h

theorem writes_keyword {k : Kind} (hk : (k.isFixed && k.isRun) = true) : Writes k.text [k.token] :=
  fun _ _ hcs h => .keyword hk hcs h

theorem UnaryOp.symbol_eq (op : UnaryOp) : op.symbol = op.kind.text := by
  cases op <;> rfl

theorem BinaryOp.symbol_eq (op : BinaryOp) : op.symbol = op.kind.text := by
  cases op <;> rfl

/-- An operator with one operand, which does not start with `=`. -/
theorem Written.operator {op : UnaryOp} {ts : List Token} {cs : List Char}
    (hcs : cs.head? ≠ some '=') (h : Written ts cs) :
    Written (op.kind.token :: ts) (op.symbol.toList ++ cs) := by
  have hw := written_token op.isFixed_kind
  rw [op.symbol_eq, ← hw]
  refine .token ((Kind.is_token _).writable op.isFixed_kind) (fun c hc => ⟨?_, ?_, ?_⟩) h
  · intro hword
    cases op <;> cases hword
  · intro hint
    cases op <;> cases hint
  · rintro - rfl
    exact hcs hc

theorem head?_append_ne {cs ds : List Char} {c : Char} (hcs : cs.head? ≠ some c)
    (hds : ds.head? ≠ some c) : (cs ++ ds).head? ≠ some c := by
  cases cs with
  | nil => exact hds
  | cons d cs => exact hcs

theorem writes_unary {op : UnaryOp} {s : String} {ts : List Token} (h : Writes s ts)
    (hs : s.toList.head? ≠ some '=') :
    Writes ("(" ++ op.symbol ++ s ++ ")")
      (Kind.token .lparen :: (op.kind.token :: ts ++ [Kind.token .rparen])) := by
  intro us cs hcs hus
  simp only [String.toList_append, List.append_assoc, List.cons_append]
  have hparen : Written (Kind.token .rparen :: us) (')' :: cs) := .symbol rfl rfl hus
  have hend : Delimits (')' :: cs) := delimits_cons (by decide) cs
  exact .symbol rfl rfl (.operator (head?_append_ne hs (by simp)) (h hend hparen))

theorem writes_binary {op : BinaryOp} {l r : String} {ts us : List Token} (hl : Writes l ts)
    (hr : Writes r us) :
    Writes ("(" ++ l ++ " " ++ op.symbol ++ " " ++ r ++ ")")
      (Kind.token .lparen :: (ts ++ op.kind.token :: us ++ [Kind.token .rparen])) := by
  intro vs cs hcs h
  simp only [String.toList_append, List.append_assoc, List.cons_append, op.symbol_eq]
  refine .symbol rfl rfl (hl (delimits_cons (by decide) _) ?_)
  refine .layout rfl (.spaced op.isFixed_kind ?_)
  exact hr (delimits_cons (by decide) _) (.symbol rfl rfl h)

theorem writes_cond {t y : String} {ts ys : List Token} (ht : Writes t ts) (hy : Writes y ys) :
    Writes ("if (" ++ t ++ ") " ++ y)
      (Kind.token .ifWord :: Kind.token .lparen :: (ts ++ Kind.token .rparen :: ys)) := by
  intro us cs hcs h
  simp only [String.toList_append, List.append_assoc, List.cons_append]
  refine .spaced rfl (.symbol rfl rfl (ht (delimits_cons (by decide) _) ?_))
  exact .symbol rfl rfl (.layout rfl (hy hcs h))

theorem writes_else {s n : String} {ts ns : List Token} (hs : Writes s ts) (hn : Writes n ns) :
    Writes (s ++ " else " ++ n) (ts ++ Kind.token .elseWord :: ns) := by
  intro us cs hcs h
  simp only [String.toList_append, List.append_assoc, List.cons_append]
  refine hs (delimits_cons (by decide) _) (.layout rfl ?_)
  exact .spaced rfl (hn hcs h)

/-- Texts that write the tokens of a list separately write it with commas between them. -/
theorem writes_commaSeparated_cons {s : String} {ss : List String} {ts us : List Token}
    (hs : Writes s ts) (hss : Writes (commaSeparated ss) us) (hne : ss ≠ []) :
    Writes (commaSeparated (s :: ss)) (ts ++ Kind.token .comma :: us) := by
  intro vs cs hcs h
  obtain ⟨s', ss, rfl⟩ := List.exists_cons_of_ne_nil hne
  rw [commaSeparated, String.intercalate_cons_cons]
  simp only [String.toList_append, List.append_assoc, List.cons_append]
  refine hs (delimits_cons (by decide) _) (.symbol rfl rfl ?_)
  exact .layout rfl (hss hcs h)

theorem writes_nil : Writes "" [] :=
  fun _ _ _ h => h

/-- A text between two signs. -/
theorem writes_between {l r : Kind} {a b : Char} (hl : (l.isFixed && l.standsAlone) = true)
    (ha : l.text.toList = [a]) (hr : (r.isFixed && r.standsAlone) = true)
    (hb : r.text.toList = [b]) (hend : isDelimiter b = true)
    {s : String} {ts : List Token} (h : Writes s ts) :
    Writes (String.ofList [a] ++ s ++ String.ofList [b]) (l.token :: (ts ++ [r.token])) := by
  intro us cs _ hus
  simp only [String.toList_append, String.toList_ofList, List.append_assoc, List.cons_append]
  have hclose : Written (r.token :: us) (b :: cs) := .symbol hr hb hus
  exact .symbol hl ha (h (delimits_cons hend cs) hclose)

theorem writes_call {c s : String} {cs ts : List Token} (hc : Writes c cs) (h : Writes s ts) :
    Writes (c ++ "(" ++ s ++ ")")
      (cs ++ Kind.token .lparen :: (ts ++ [Kind.token .rparen])) := by
  intro us ds _ hus
  simp only [String.toList_append, List.append_assoc, List.cons_append]
  refine hc (delimits_cons (by decide) _) (.symbol rfl rfl ?_)
  refine h (delimits_cons (by decide) _) ?_
  exact .symbol rfl rfl hus

theorem writes_index {t k : String} {ts ks : List Token} (ht : Writes t ts) (hk : Writes k ks) :
    Writes ("(" ++ t ++ "[" ++ k ++ "])")
      (Kind.token .lparen :: (ts ++ Kind.token .lbracket :: (ks ++ [Kind.token .rbracket]) ++
        [Kind.token .rparen])) := by
  intro us cs _ hus
  simp only [String.toList_append, List.append_assoc, List.cons_append]
  refine .symbol rfl rfl (ht (delimits_cons (by decide) _) ?_)
  refine .symbol rfl rfl (hk (delimits_cons (by decide) _) ?_)
  exact .symbol rfl rfl (.symbol rfl rfl hus)

theorem writes_func {m s b : String} {ts bs : List Token} (hm : m = Kind.text .fnWord)
    (hs : Writes s ts) (hb : Writes b bs) :
    Writes (m ++ "(" ++ s ++ ") " ++ b)
      (Kind.token .fnWord :: Kind.token .lparen :: (ts ++ Kind.token .rparen :: bs)) := by
  intro us cs hcs hus
  simp only [String.toList_append, List.append_assoc, List.cons_append, hm]
  refine .keyword rfl (delimits_cons (by decide) _) (.symbol rfl rfl ?_)
  refine hs (delimits_cons (by decide) _) (.symbol rfl rfl ?_)
  exact .layout rfl (hb hcs hus)

theorem writes_entry {k v : String} {ks vs : List Token} (hk : Writes k ks) (hv : Writes v vs) :
    Writes (k ++ ":" ++ v) (ks ++ Kind.token .colon :: vs) := by
  intro us cs hcs hus
  simp only [String.toList_append, List.append_assoc, List.cons_append]
  refine hk (delimits_cons (by decide) _) (.symbol rfl rfl ?_)
  exact hv hcs hus

theorem writes_params {is : List (Ident α)} (h : ∀ i ∈ is, IsWord i.name) :
    Writes (commaSeparated (is.map Ident.name)) (Ident.allShown is) := by
  induction is with
  | nil => exact writes_nil
  | cons i is ih =>
      rw [List.forall_mem_cons] at h
      cases is with
      | nil => exact writes_name h.1
      | cons j is => exact writes_commaSeparated_cons (writes_name h.1) (ih h.2) (by simp)

theorem delimits_renderBody (ss : List (Stmt String)) {cs : List Char} (hcs : Delimits cs) :
    Delimits ((Stmt.renderBody ss).toList ++ cs) := by
  cases ss with
  | nil => exact hcs
  | cons s ss =>
      simp only [Stmt.renderBody, String.toList_append, List.append_assoc]
      exact delimits_cons (by decide) _

theorem writes_renderBody_cons {s : Stmt String} {ss : List (Stmt String)}
    (hs : ∀ us cs, (s.isExpr = true → Delimits cs) → Written us cs →
      Written (s.shown ++ (s.closing true ++ us)) (s.render.toList ++ cs))
    (hss : Writes (Stmt.renderBody ss) (Stmt.allShown ss)) :
    Writes (Stmt.renderBody (s :: ss)) (Stmt.allShown (s :: ss)) := by
  intro us cs hcs h
  have hrest := hss hcs h
  have hdelim := delimits_renderBody ss hcs
  simp only [Stmt.renderBody, Stmt.allShown, String.toList_append, List.append_assoc]
  refine .layout rfl ?_
  cases hlast : s.isExpr && !ss.isEmpty with
  | true =>
      rw [Bool.and_eq_true, Bool.not_eq_true'] at hlast
      have hsemi : Written (Kind.token .semicolon :: (Stmt.allShown ss ++ us))
          (';' :: ((Stmt.renderBody ss).toList ++ cs)) := .symbol rfl rfl hrest
      have h := hs _ _ (fun _ => delimits_cons (by decide) _) hsemi
      simpa [Stmt.closing, hlast.1, hlast.2] using h
  | false =>
      have hclosing : s.closing ss.isEmpty = s.closing true := by
        rw [Stmt.closing, Stmt.closing]
        cases hexpr : s.isExpr <;> cases hempty : ss.isEmpty <;> simp_all
      rw [hclosing]
      exact hs _ _ (fun _ => hdelim) hrest

theorem not_isWordChar_eq : isWordChar '=' = false := by
  decide

theorem head?_word_ne {s : String} (h : IsWord s) : s.toList.head? ≠ some '=' := by
  intro heq
  have hmem := h.2 _ (List.mem_of_mem_head? heq)
  rw [not_isWordChar_eq] at hmem
  cases hmem

/-- No written form starts with the sign that could join an operator before it. -/
theorem Expr.head?_render_ne (e : Expr String) (hp : ∀ l ∈ e.leaves, l.Readable) :
    e.render.toList.head? ≠ some '=' :=
  match e with
  | .name i => by
      rw [Expr.leaves, List.forall_mem_singleton] at hp
      exact head?_word_ne hp
  | .int _ v => by
      rw [Expr.leaves, List.forall_mem_singleton] at hp
      intro heq
      have hdigit := (shows_text hp).2.1.2 _ (List.mem_of_mem_head? heq)
      cases hdigit
  | .string _ s => by simp [Expr.render, quoted]
  | .bool _ b => by cases b <;> simp [Expr.render]
  | .unary _ _ _ => by simp [Expr.render]
  | .binary _ _ _ _ => by simp [Expr.render]
  | .cond _ _ _ none => by simp [Expr.render]
  | .cond _ _ _ (some _) => by simp [Expr.render]
  | .func m ps b => by
      rw [Expr.leaves, List.forall_mem_cons] at hp
      have hm : m = Kind.text .fnWord := hp.1 rfl
      rw [Expr.render, hm]
      simp only [String.toList_append, List.append_assoc]
      exact head?_append_ne (by decide) (by simp)
  | .call _ c as => by
      rw [Expr.leaves, List.forall_mem_append] at hp
      have hc := c.head?_render_ne hp.1
      rw [Expr.render]
      simp only [String.toList_append, List.append_assoc]
      exact head?_append_ne hc (by simp)
  | .array _ _ => by simp [Expr.render]
  | .index _ _ _ => by simp [Expr.render]
  | .table _ _ => by simp [Expr.render]

mutual

/-- The written form of an expression writes its tokens. -/
theorem Expr.writes_render (e : Expr String) (hp : ∀ l ∈ e.leaves, l.Readable) :
    Writes e.render e.shown :=
  match e with
  | .name i => by
      rw [Expr.leaves, List.forall_mem_singleton] at hp
      exact writes_name hp
  | .int _ v => by
      rw [Expr.leaves, List.forall_mem_singleton] at hp
      exact writes_int hp
  | .string _ s => by
      rw [Expr.leaves, List.forall_mem_singleton] at hp
      exact writes_quoted hp
  | .bool _ b => by cases b <;> exact writes_keyword rfl
  | .unary _ op e => by
      rw [Expr.leaves] at hp
      exact writes_unary (e.writes_render hp) (e.head?_render_ne hp)
  | .binary _ l op r => by
      simp only [Expr.leaves, List.forall_mem_append] at hp
      exact writes_binary (l.writes_render hp.1) (r.writes_render hp.2)
  | .cond _ t y none => by
      simp only [Expr.leaves, List.forall_mem_append] at hp
      exact writes_cond (t.writes_render hp.1) (y.writes_render hp.2)
  | .cond _ t y (some n) => by
      simp only [Expr.leaves, List.forall_mem_append] at hp
      have hy := writes_else (y.writes_render hp.2.1) (n.writes_render hp.2.2)
      have h := writes_cond (t.writes_render hp.1) hy
      simpa only [Expr.render, Expr.shown, String.append_assoc] using h
  | .func m ps b => by
      simp only [Expr.leaves, List.forall_mem_cons, List.forall_mem_append,
        List.forall_mem_map] at hp
      exact writes_func (hp.1 rfl) (writes_params hp.2.1) (b.writes_render hp.2.2)
  | .call _ c as => by
      simp only [Expr.leaves, List.forall_mem_append] at hp
      exact writes_call (c.writes_render hp.1) (Expr.writes_renderAll as hp.2)
  | .array _ es =>
      writes_between (l := .lbracket) (r := .rbracket) rfl rfl rfl rfl (by decide)
        (Expr.writes_renderAll es hp)
  | .index _ t k => by
      simp only [Expr.leaves, List.forall_mem_append] at hp
      exact writes_index (t.writes_render hp.1) (k.writes_render hp.2)
  | .table _ es =>
      writes_between (l := .lbrace) (r := .rbrace) rfl rfl rfl rfl (by decide)
        (Expr.writes_renderEntries es hp)

theorem Expr.writes_renderAll (es : List (Expr String))
    (hp : ∀ l ∈ Expr.allLeaves es, l.Readable) :
    Writes (commaSeparated (Expr.renderAll es)) (Expr.allShown es) :=
  match es with
  | [] => writes_nil
  | [e] => by
      simp only [Expr.allLeaves, List.append_nil] at hp
      exact e.writes_render hp
  | e :: e' :: es => by
      rw [Expr.allLeaves, List.forall_mem_append] at hp
      have hes := Expr.writes_renderAll (e' :: es) hp.2
      exact writes_commaSeparated_cons (e.writes_render hp.1) hes (by simp)

theorem Expr.writes_renderEntries (es : List (Expr String × Expr String))
    (hp : ∀ l ∈ Expr.entryLeaves es, l.Readable) :
    Writes (commaSeparated (Expr.renderEntries es)) (Expr.entriesShown es) :=
  match es with
  | [] => writes_nil
  | [(k, v)] => by
      simp only [Expr.entryLeaves, List.append_nil, List.forall_mem_append] at hp
      exact writes_entry (k.writes_render hp.1) (v.writes_render hp.2)
  | (k, v) :: e :: es => by
      rw [Expr.entryLeaves, List.forall_mem_append, List.forall_mem_append] at hp
      have hkv := writes_entry (k.writes_render hp.1) (v.writes_render hp.2.1)
      have hes := Expr.writes_renderEntries (e :: es) hp.2.2
      have h := writes_commaSeparated_cons hkv hes (by simp [Expr.renderEntries])
      rw [Expr.renderEntries]
      simpa only [Expr.entriesShown, List.append_assoc, List.cons_append] using h

theorem Block.writes_render (b : Block String) (hp : ∀ l ∈ b.leaves, l.Readable) :
    Writes b.render b.shown :=
  match b with
  | .mk _ [] => by
      intro us cs _ h
      have hclose : Written (Kind.token .rbrace :: us) ('\x7d' :: cs) := .symbol rfl rfl h
      rw [Block.render, Block.shown, Stmt.allShown]
      exact Written.symbol (k := .lbrace) (c := '\x7b') rfl rfl hclose
  | .mk _ (s :: ss) => by
      have hbody := Stmt.writes_renderBody (s :: ss) hp
      intro us cs hcs h
      simp only [Block.render, Block.shown, String.toList_append, List.append_assoc,
        List.cons_append]
      refine .symbol rfl rfl (hbody (delimits_cons (by decide) _) ?_)
      exact .layout rfl (.symbol rfl rfl h)

/-- The written form of a statement writes its tokens.  Only after an expression there has to be a
delimiter. -/
theorem Stmt.written_render (s : Stmt String) (hp : ∀ l ∈ s.leaves, l.Readable)
    {us : List Token} {cs : List Char} (hcs : s.isExpr = true → Delimits cs)
    (h : Written us cs) :
    Written (s.shown ++ (s.closing true ++ us)) (s.render.toList ++ cs) :=
  match s with
  | .bind m i e => by
      simp only [Stmt.leaves, List.forall_mem_cons] at hp
      have he := e.writes_render hp.2.2
      have hm : m = Kind.text .letWord := hp.1 rfl
      simp only [Stmt.render, Stmt.shown, hm, String.toList_append, List.append_assoc,
        List.cons_append]
      refine .spaced rfl (.word hp.2.1 (delimits_cons (by decide) _) ?_)
      refine .layout rfl (.spaced rfl ?_)
      exact he (delimits_cons (by decide) _) (.symbol rfl rfl h)
  | .ret m none => by
      rw [Stmt.leaves, List.forall_mem_singleton] at hp
      have hm : m = Kind.text .returnWord := hp rfl
      simp only [Stmt.render, hm, String.toList_append, List.append_assoc]
      exact .spaced rfl (.symbol rfl rfl h)
  | .ret m (some e) => by
      rw [Stmt.leaves, List.forall_mem_cons] at hp
      have he := e.writes_render hp.2
      have hm : m = Kind.text .returnWord := hp.1 rfl
      simp only [Stmt.render, Stmt.shown, hm, String.toList_append, List.append_assoc,
        List.cons_append]
      refine .spaced rfl ?_
      exact he (delimits_cons (by decide) _) (.symbol rfl rfl h)
  | .expr _ e => e.writes_render hp (hcs rfl) h

theorem Stmt.writes_renderBody (ss : List (Stmt String))
    (hp : ∀ l ∈ Stmt.allLeaves ss, l.Readable) :
    Writes (Stmt.renderBody ss) (Stmt.allShown ss) :=
  match ss with
  | [] => writes_nil
  | s :: ss => by
      rw [Stmt.allLeaves, List.forall_mem_append] at hp
      have hss := Stmt.writes_renderBody ss hp.2
      exact writes_renderBody_cons (fun _ _ hcs h => s.written_render hp.1 hcs h) hss

end

/-! ### Reading the written form -/

theorem Program.toList_render_cons (s : Stmt String) (p : Program String) :
    (Program.render (s :: p)).toList = s.render.toList ++ (Program.render p).toList := by
  simp [Program.render, String.join_cons]

theorem written_program {p : Program String} (hp : ∀ s ∈ p, ∀ l ∈ s.leaves, l.Readable)
    (hlast : ∀ s ∈ p.dropLast, s.isExpr = false) :
    Written (Stmt.allShown p) (Program.render p).toList := by
  induction p with
  | nil => exact .nil
  | cons s p ih =>
      rw [List.forall_mem_cons] at hp
      rw [Program.toList_render_cons, Stmt.allShown]
      cases p with
      | nil => exact s.written_render hp.1 (fun _ c hc => by cases hc) .nil
      | cons s' p =>
          rw [List.dropLast_cons_cons, List.forall_mem_cons] at hlast
          have hclosing : s.closing (List.isEmpty (s' :: p)) = s.closing true := by
            simp [Stmt.closing, hlast.1]
          rw [hclosing]
          refine s.written_render hp.1 (fun h => ?_) (ih hp.2 hlast.2)
          rw [hlast.1] at h
          cases h

theorem Leaf.readable_of_mem {t : Token} (ht : t.Legible) {l : Leaf Token} (hl : l ∈ t.leaves) :
    (l.map Token.literal).Readable := by
  unfold Token.leaves at hl
  rcases List.mem_cons.1 hl with rfl | hl
  · exact ht.fixed
  · split at hl
    · rename_i hk
      obtain rfl := List.mem_singleton.1 hl
      exact ht.ident hk
    · obtain ⟨v, hv, rfl⟩ := List.mem_map.1 hl
      rw [Option.mem_toList, Integer.ofDigits?] at hv
      have hvalue := Integer.toInt_of_ofInt? hv
      exact Int64.le_iff_toInt_le.2 (by rw [hvalue]; exact Int.natCast_nonneg _)
    · rename_i hk
      obtain rfl := List.mem_singleton.1 hl
      exact ht.string hk
    · cases hl

/-- The leaves of a statement that was read are readable. -/
theorem readable_of_mem_parse {source : String} {s : Stmt Token}
    (hs : s ∈ (parse source).program) : ∀ l ∈ (s.map Token.literal).leaves, l.Readable := by
  have h : ∀ l ∈ s.leaves, (l.map Token.literal).Readable :=
    leaves_parse (fun t ht l hl => Leaf.readable_of_mem (legible_of_mem_tokens ht) hl) hs
  rw [Stmt.leaves_map, List.forall_mem_map]
  exact h

theorem Leaf.plain_of_readable {l : Leaf String} (h : l.Readable)
    (hname : ∀ w, l = .name w → Kind.ofWord w = .ident) : l.Plain := by
  cases l with
  | name w => exact ⟨h, hname w rfl⟩
  | int v => exact h
  | string s => exact h
  | word k m => trivial

/-- No name of a statement is a keyword. -/
def Stmt.NamesFree (s : Stmt α) : Prop :=
  ∀ w, .name w ∈ s.leaves → Kind.ofWord w = .ident

theorem Stmt.isExpr_map {β : Type} (f : α → β) (s : Stmt α) : (s.map f).isExpr = s.isExpr := by
  cases s with
  | ret _ value => cases value <;> rfl
  | _ => rfl

theorem Stmt.namesFree_map {β : Type} (f : α → β) (s : Stmt α) :
    (s.map f).NamesFree ↔ s.NamesFree := by
  unfold Stmt.NamesFree
  simp only [Stmt.leaves_map, Leaf.name_mem_map]

/-- Where only words that are no keywords are cut off as names, all names are free. -/
theorem namesFree_of_mem_parse {source : String}
    (h : ∀ t ∈ tokens source, t.kind = .ident → Kind.ofWord t.literal = .ident) {s : Stmt Token}
    (hs : s ∈ (parse source).program) : s.NamesFree :=
  fun w hw => @names_parse source (fun w => Kind.ofWord w = .ident) h s hs w hw

/-- A text that reads without a fault has no keywords for names. -/
theorem namesFree_of_errors {source : String} (h : (parse source).errors = []) {s : Stmt Token}
    (hs : s ∈ (parse source).program) : s.NamesFree := by
  have hspelled : (parse source).program.Spelled id false (tokens source) :=
    (@parse_sound source (fun _ => True) fun _ _ _ _ => trivial).2 h
  exact namesFree_of_mem_parse (ofWord_of_scan (Stmt.ListSpelled.ne_illegal hspelled)) hs

/-- **Reading undoes writing, unless a name is a keyword.**  Statements that were read from any
texts, of which only the last may be an expression, are read again from their written form just
when no name among them is a keyword. -/
theorem parse_render_iff {p : Program Token} (hp : ∀ s ∈ p, ∃ source, s ∈ (parse source).program)
    (hlast : ∀ s ∈ p.dropLast, s.isExpr = false) :
    ((parse (p.map Token.literal).render).errors = [] ∧
      (parse (p.map Token.literal).render).program.map unmark = p.map unmark) ↔
        ∀ s ∈ p, s.NamesFree := by
  have hreadable : ∀ s ∈ p.map Token.literal, ∀ l ∈ s.leaves, l.Readable := by
    intro s' hs'
    obtain ⟨s, hs, rfl⟩ := List.mem_map.1 hs'
    obtain ⟨source, hsource⟩ := hp s hs
    exact readable_of_mem_parse hsource
  have hlast' : ∀ s ∈ (p.map Token.literal).dropLast, s.isExpr = false := by
    rw [Program.map, ← List.map_dropLast, List.forall_mem_map]
    exact fun s hs => (s.isExpr_map _).trans (hlast s hs)
  have hwritten := written_program hreadable hlast'
  constructor
  · rintro ⟨-, hsame⟩ s hs
    have hmem : s.map unmark ∈ (parse (p.map Token.literal).render).program.map unmark := by
      rw [hsame]
      exact List.mem_map_of_mem hs
    obtain ⟨s', hs', heq⟩ := List.mem_map.1 hmem
    have hfree := namesFree_of_mem_parse (fun t ht hk => ofWord_of_written hwritten ht hk) hs'
    rw [← Stmt.namesFree_map unmark, heq, Stmt.namesFree_map] at hfree
    exact hfree
  · intro hfree
    have hplain : ∀ l ∈ Stmt.allLeaves (p.map Token.literal), l.Plain := by
      intro l hl
      obtain ⟨s', hs', hl⟩ := Stmt.mem_allLeaves.1 hl
      refine Leaf.plain_of_readable (hreadable s' hs' l hl) ?_
      rintro w rfl
      obtain ⟨s, hs, rfl⟩ := List.mem_map.1 hs'
      exact (Stmt.namesFree_map _ s).2 (hfree s hs) w hl
    have hspelled := Stmt.spelled_allShown _ hplain
    rw [Stmt.mapAll_eq] at hspelled
    obtain ⟨herrors, hprogram⟩ := parse_of_written hspelled hwritten
    refine ⟨herrors, hprogram.trans ?_⟩
    rw [Program.map, List.map_map]
    exact List.map_congr_left fun s _ => s.map_map _ _

/-- A binding and a call, whose names are no keywords. -/
theorem parse_render_iff_call :
    ((parse ((parse "let f = fn(a) { a[0]; -a };f(1 + 2)").program.map Token.literal).render).errors
        = [] ∧
      (parse ((parse "let f = fn(a) { a[0]; -a };f(1 + 2)").program.map
          Token.literal).render).program.map unmark =
        (parse "let f = fn(a) { a[0]; -a };f(1 + 2)").program.map unmark) ↔
      ∀ s ∈ (parse "let f = fn(a) { a[0]; -a };f(1 + 2)").program, s.NamesFree :=
  parse_render_iff (fun _ hs => ⟨_, hs⟩) (by decide +kernel)

/-- A keyword before a no-break space is read as a name, and its written form is not read at all. -/
theorem errors_parse_render_let :
    ∃ s ∈ (parse "let\u00a0").program, (parse (s.map Token.literal).render).errors ≠ [] := by
  decide +kernel

end Treewalk
