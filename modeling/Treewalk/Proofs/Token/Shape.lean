import Mathlib.Algebra.Ring.Nat
import Mathlib.Data.List.TakeWhile
import Treewalk.Proofs.Token.Pieces
import Treewalk.Proofs.Token.Written

/-! # Shapes of a lexeme

A lexeme is a run of letters and underscores that stops before another character, a run of digits
that does, a string up to its closing quote or to the end of the text, one of the two signs of two
characters, or a single character (`shape_lexeme`).  What holds of every lexeme is proved by cases
on its shape.

Every token of a text is that of the lexeme at the character where it starts
(`exists_lexeme_of_scan`).  A string without a closing quote is told by its span, which has room for
one quote only (`isUnclosed`). -/

namespace Treewalk.Token

/-- What a lexeme can look like. -/
inductive Lexeme.Shape : Lexeme → Prop
  | word {w rest : List Char} :
      w ≠ [] → (∀ c ∈ w, isWordChar c = true) → (∀ c ∈ rest.head?, isWordChar c = false) →
      Shape ⟨wordKind w rest, w, rest⟩
  | number {ds rest : List Char} :
      ds ≠ [] → (∀ c ∈ ds, c.isDigit = true) → (∀ c ∈ rest.head?, c.isDigit = false) →
      Shape ⟨.int, ds, rest⟩
  | quoted {body rest : List Char} :
      '"' ∉ body → Shape ⟨.string, '"' :: (body ++ ['"']), rest⟩
  /-- A string without a closing quote. -/
  | unclosed {body : List Char} : '"' ∉ body → Shape ⟨.string, '"' :: body, []⟩
  | eq {rest : List Char} : Shape ⟨.eq, ['=', '='], rest⟩
  | notEq {rest : List Char} : Shape ⟨.notEq, ['!', '='], rest⟩
  | single {c : Char} {rest : List Char} :
      isWordChar c = false → c.isDigit = false → c ≠ '"' →
      (c = '=' ∨ c = '!' → rest.head? ≠ some '=') → Shape ⟨symbolKind c, [c], rest⟩

theorem head?_dropWhile_eq_false (p : Char → Bool) (cs : List Char) :
    ∀ c ∈ (cs.dropWhile p).head?, p c = false := by
  intro c hc
  have hnot := List.head?_dropWhile_not p cs
  rwa [hc] at hnot

theorem forall_mem_cons_takeWhile {p : Char → Bool} {c : Char} (hc : p c = true)
    (cs : List Char) : ∀ d ∈ c :: cs.takeWhile p, p d = true :=
  List.forall_mem_cons.2 ⟨hc, fun _ hd => List.mem_takeWhile_imp hd⟩

theorem shape_stringLexeme (cs : List Char) : (stringLexeme cs).Shape := by
  have hbody : '"' ∉ cs.takeWhile (· ≠ '"') := by
    intro hmem
    have hne := List.mem_takeWhile_imp hmem
    rw [decide_eq_true_eq] at hne
    exact hne rfl
  unfold stringLexeme
  split
  · exact .unclosed hbody
  · rename_i quote rest hdrop
    have hquote : quote = '"' := by
      have hhead := head?_dropWhile_eq_false (· ≠ '"') cs quote (by rw [hdrop]; rfl)
      rwa [decide_eq_false_iff_not, not_not] at hhead
    rw [hquote]
    exact .quoted hbody

theorem shape_symbolLexeme {c : Char} (hword : isWordChar c = false) (hdigit : c.isDigit = false)
    (hquote : c ≠ '"') (cs : List Char) : (symbolLexeme c cs).Shape := by
  unfold symbolLexeme
  split
  · split
    · rename_i hc
      rw [hc]
      exact .eq
    · rename_i heq
      split
      · rename_i hc
        rw [hc]
        exact .notEq
      · rename_i hbang
        exact .single hword hdigit hquote fun hc => absurd hc (not_or.2 ⟨heq, hbang⟩)
  · rename_i hne
    refine .single hword hdigit hquote fun _ hhead => ?_
    obtain ⟨rest, hrest⟩ := List.head?_eq_some_iff.1 hhead
    exact hne rest hrest

/-- Every lexeme has one of the shapes. -/
theorem shape_lexeme (c : Char) (cs : List Char) : (lexeme c cs).Shape := by
  unfold lexeme
  by_cases hword : isWordChar c = true
  · rw [if_pos hword]
    exact .word (List.cons_ne_nil _ _) (forall_mem_cons_takeWhile hword cs)
      (head?_dropWhile_eq_false _ cs)
  rw [if_neg hword]
  by_cases hdigit : c.isDigit = true
  · rw [if_pos hdigit]
    exact .number (List.cons_ne_nil _ _) (forall_mem_cons_takeWhile hdigit cs)
      (head?_dropWhile_eq_false _ cs)
  rw [if_neg hdigit]
  by_cases hquote : c = '"'
  · rw [if_pos hquote]
    exact shape_stringLexeme cs
  · rw [if_neg hquote]
    rw [Bool.not_eq_true] at hword hdigit
    exact shape_symbolLexeme hword hdigit hquote cs

/-! ### The text that is shown -/

theorem Lexeme.literal_of_ne {l : Lexeme} (h : l.kind ≠ .string) : l.literal = l.text :=
  if_neg h

theorem forall_ne_quote {body : List Char} (h : '"' ∉ body) :
    ∀ c ∈ body, decide (c ≠ '"') = true := by
  intro c hc
  rw [decide_eq_true_eq]
  rintro rfl
  exact h hc

theorem takeWhile_ne_quote {body : List Char} (h : '"' ∉ body) (rest : List Char) :
    (body ++ '"' :: rest).takeWhile (· ≠ '"') = body := by
  rw [List.takeWhile_append_of_pos (forall_ne_quote h)]
  simp

/-- A string shows the characters between its quotes. -/
theorem Lexeme.literal_quoted {body : List Char} (h : '"' ∉ body) (rest : List Char) :
    (⟨.string, '"' :: (body ++ ['"']), rest⟩ : Lexeme).literal = body :=
  takeWhile_ne_quote h []

theorem Lexeme.literal_unclosed {body : List Char} (h : '"' ∉ body) (rest : List Char) :
    (⟨.string, '"' :: body, rest⟩ : Lexeme).literal = body := by
  rw [literal, if_pos rfl, List.drop_one, List.tail_cons]
  exact List.takeWhile_eq_self_iff.2 (forall_ne_quote h)

theorem isWord_wordKind (word rest : List Char) : (wordKind word rest).isWord = true := by
  unfold wordKind
  split
  · rfl
  · exact isWord_of_ofWord

theorem ne_of_isWord {k k' : Kind} (h : k.isWord = true) (h' : k'.isWord = false) : k ≠ k' := by
  rintro rfl
  rw [h] at h'
  cases h'

theorem symbolKind_ne_string (c : Char) : symbolKind c ≠ .string := by
  intro h
  rcases symbolKind_eq_illegal_or c with hillegal | ⟨hfixed, -⟩
  · rw [hillegal] at h
    cases h
  · rw [h] at hfixed
    cases hfixed

/-! ### Where a token stands -/

/-- The token of a lexeme that starts at a byte. -/
def Lexeme.tokenAt (l : Lexeme) (o : Nat) : Token :=
  ofLexeme l ⟨o, o + Text.byteLength l.text⟩

/-- The bytes that a token takes beyond one for each of its characters. -/
def surplus (t : Token) : Nat :=
  t.literal.utf8ByteSize - t.literal.length

/-- A lexeme takes one byte for each character, and the surplus of its token. -/
theorem byteLength_text {l : Lexeme} (h : l.Shape) (o : Nat) :
    Text.byteLength l.text = l.text.length + (l.tokenAt o).surplus := by
  have hsurplus : (l.tokenAt o).surplus = Text.byteLength l.literal - l.literal.length := by
    rw [surplus, Lexeme.tokenAt, ofLexeme, utf8ByteSize_ofList, String.length_ofList]
  have hle := Text.length_le_byteLength l.literal
  have hshown : l.literal = l.text →
      Text.byteLength l.text = l.text.length + (l.tokenAt o).surplus := by
    intro heq
    rw [heq] at hsurplus hle
    omega
  have hquote : '"'.utf8Size = 1 := rfl
  cases h with
  | @word w rest _ _ _ =>
      exact hshown (Lexeme.literal_of_ne (ne_of_isWord (isWord_wordKind w rest) rfl))
  | number _ _ _ => exact hshown rfl
  | @quoted body rest hbody =>
      rw [Lexeme.literal_quoted hbody] at hsurplus hle
      simp only [Text.byteLength_cons, Text.byteLength_append, Text.byteLength_nil, hquote,
        List.length_cons, List.length_append, List.length_nil, hsurplus]
      omega
  | @unclosed body hbody =>
      rw [Lexeme.literal_unclosed hbody] at hsurplus hle
      simp only [Text.byteLength_cons, hquote, List.length_cons, hsurplus]
      omega
  | eq => exact hshown rfl
  | notEq => exact hshown rfl
  | @single c rest _ _ _ _ => exact hshown (Lexeme.literal_of_ne (symbolKind_ne_string c))

theorem utf8Size_of_isLayout {c : Char} (h : isLayout c = true) : c.utf8Size = 1 := by
  rcases isLayout_iff.1 h with rfl | rfl | rfl | rfl <;> rfl

/-- A token of a text is that of the lexeme at some character.  The characters before it take one
byte each, and the surplus of the tokens before it. -/
theorem exists_lexeme_of_scan {o : Nat} {cs : List Char} {ts us : List Token} {t : Token}
    (h : scan o cs = ts ++ t :: us) :
    ∃ before c ds, cs = before ++ c :: ds ∧
      t = (lexeme c ds).tokenAt (o + Text.byteLength before) ∧
      Text.byteLength before = before.length + (ts.map surplus).sum := by
  fun_induction scan o cs generalizing ts with
  | case1 o => simp at h
  | case2 o c cs hlayout ih =>
      obtain ⟨before, d, ds, rfl, ht, hlength⟩ := ih h
      have hsize := utf8Size_of_isLayout hlayout
      refine ⟨c :: before, d, ds, rfl, ?_, ?_⟩
      · rw [ht, Text.byteLength_cons, Nat.add_assoc]
      · rw [Text.byteLength_cons, List.length_cons]
        omega
  | case3 o c cs hlayout l stop =>
      rename_i ih
      cases ts with
      | nil =>
          obtain ⟨rfl, -⟩ := List.cons.inj h
          exact ⟨[], c, cs, rfl, rfl, rfl⟩
      | cons u ts =>
          obtain ⟨rfl, hrest⟩ := List.cons.inj h
          obtain ⟨before, d, ds, hcs, ht, hlength⟩ := ih hrest
          have happend : l.text ++ l.rest = c :: cs := lexeme_append c cs
          have hshape : l.Shape := shape_lexeme c cs
          have htext := byteLength_text hshape o
          refine ⟨l.text ++ before, d, ds, ?_, ?_, ?_⟩
          · rw [List.append_assoc, ← hcs, happend]
          · rw [ht, Text.byteLength_append, ← Nat.add_assoc]
          · rw [Text.byteLength_append, List.length_append, List.map_cons, List.sum_cons]
            change _ = _ + ((l.tokenAt o).surplus + _)
            omega

theorem exists_lexeme_of_mem_scan {o : Nat} {cs : List Char} {t : Token} (h : t ∈ scan o cs) :
    ∃ before c ds, cs = before ++ c :: ds ∧
      t = (lexeme c ds).tokenAt (o + Text.byteLength before) := by
  obtain ⟨ts, us, hsplit⟩ := List.append_of_mem h
  obtain ⟨before, c, ds, hcs, ht, -⟩ := exists_lexeme_of_scan hsplit
  exact ⟨before, c, ds, hcs, ht⟩

/-! ### Strings without a closing quote -/

/-- Whether a token is a string without a closing quote. -/
def isUnclosed (t : Token) : Bool :=
  t.kind == .string && t.span.stop == t.span.start + 1 + t.literal.utf8ByteSize

theorem isUnclosed_of_ne {t : Token} (h : t.kind ≠ .string) : t.isUnclosed = false := by
  rw [isUnclosed, beq_false_of_ne h, Bool.false_and]

theorem any_isUnclosed_cons {t : Token} (h : t.isUnclosed = false) (ts : List Token) :
    (t :: ts).getLast?.any isUnclosed = ts.getLast?.any isUnclosed := by
  cases ts with
  | nil => simp [h]
  | cons u ts => rw [List.getLast?_cons_cons]

theorem isUnclosed_quoted {body : List Char} (h : '"' ∉ body) (o : Nat) (rest : List Char) :
    (Lexeme.tokenAt ⟨.string, '"' :: (body ++ ['"']), rest⟩ o).isUnclosed = false := by
  have hquote : '"'.utf8Size = 1 := rfl
  rw [isUnclosed, Lexeme.tokenAt, ofLexeme, Lexeme.literal_quoted h, utf8ByteSize_ofList,
    Bool.and_eq_false_iff, beq_eq_false_iff_ne, beq_eq_false_iff_ne]
  simp only [Text.byteLength_cons, Text.byteLength_append, Text.byteLength_nil, hquote]
  omega

theorem isUnclosed_unclosed {body : List Char} (h : '"' ∉ body) (o : Nat) :
    (Lexeme.tokenAt ⟨.string, '"' :: body, []⟩ o).isUnclosed = true := by
  have hquote : '"'.utf8Size = 1 := rfl
  have hlength : o + Text.byteLength ('"' :: body) = o + 1 + Text.byteLength body := by
    rw [Text.byteLength_cons, hquote, Nat.add_assoc]
  rw [isUnclosed, Lexeme.tokenAt, ofLexeme, Lexeme.literal_unclosed h, utf8ByteSize_ofList, hlength]
  simp

end Treewalk.Token
