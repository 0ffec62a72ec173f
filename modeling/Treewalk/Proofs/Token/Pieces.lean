import Treewalk.Proofs.Token.Legible

/-! # Tokens of a text in two pieces

When the tokens of a text end with a semicolon, nothing that is put behind it changes them: no token
reaches over the seam.  Those of the second piece follow, further on by the length of the first
(`tokens_append`).

A lexeme that ends before the end of a text is not changed by what follows (`lexeme_append_right`).
One that ends with the text may be, but a semicolon never is. -/

namespace Treewalk.Token

open Text

/-! ### Lexemes -/

/-- A run that ends before the end of a list ends there whatever follows the list. -/
theorem takeWhile_append_of_dropWhile {α : Type} {p : α → Bool} {xs : List α}
    (h : xs.dropWhile p ≠ []) (ys : List α) : (xs ++ ys).takeWhile p = xs.takeWhile p := by
  rw [List.takeWhile_append, if_neg]
  intro hlength
  have hsum := congrArg List.length (List.takeWhile_append_dropWhile (p := p) (l := xs))
  rw [List.length_append] at hsum
  exact h (List.eq_nil_of_length_eq_zero (by omega))

theorem dropWhile_append_of_dropWhile {α : Type} {p : α → Bool} {xs : List α}
    (h : xs.dropWhile p ≠ []) (ys : List α) :
    (xs ++ ys).dropWhile p = xs.dropWhile p ++ ys := by
  rw [List.dropWhile_append, if_neg]
  rwa [List.isEmpty_iff]

theorem head?_append_of_ne_nil {α : Type} {xs : List α} (h : xs ≠ []) (ys : List α) :
    (xs ++ ys).head? = xs.head? := by
  cases xs with
  | nil => exact absurd rfl h
  | cons x xs => rfl

/-- A lexeme with more text after it. -/
def Lexeme.followedBy (l : Lexeme) (ds : List Char) : Lexeme :=
  { l with rest := l.rest ++ ds }

theorem stringLexeme_append_right {cs : List Char} (h : (stringLexeme cs).rest ≠ [])
    (ds : List Char) : stringLexeme (cs ++ ds) = (stringLexeme cs).followedBy ds := by
  have hdrop : cs.dropWhile (· ≠ '"') ≠ [] := by
    intro hnil
    rw [stringLexeme, hnil] at h
    exact h rfl
  rw [stringLexeme, stringLexeme, takeWhile_append_of_dropWhile hdrop,
    dropWhile_append_of_dropWhile hdrop]
  cases hcases : cs.dropWhile (· ≠ '"') with
  | nil => exact absurd hcases hdrop
  | cons quote rest => rfl

/-- Only an equals sign makes a lexeme of two characters. -/
theorem symbolLexeme_of_ne {c d : Char} (hd : d ≠ '=') (cs : List Char) :
    symbolLexeme c (d :: cs) = ⟨symbolKind c, [c], d :: cs⟩ := by
  unfold symbolLexeme
  split
  · rename_i heq
    exact absurd (List.cons.inj heq).1 hd
  · rfl

theorem symbolLexeme_append_right {c : Char} {cs : List Char} (h : cs ≠ []) (ds : List Char) :
    symbolLexeme c (cs ++ ds) = (symbolLexeme c cs).followedBy ds := by
  cases cs with
  | nil => exact absurd rfl h
  | cons d cs =>
      rw [List.cons_append]
      by_cases hd : d = '='
      · subst hd
        simp only [symbolLexeme]
        split
        · rfl
        · split <;> rfl
      · rw [symbolLexeme_of_ne hd, symbolLexeme_of_ne hd]
        rfl

/-- A lexeme that ends before the end of a text is not changed by what follows the text. -/
theorem lexeme_append_right {c : Char} {cs : List Char} (h : (lexeme c cs).rest ≠ [])
    (ds : List Char) : lexeme c (cs ++ ds) = (lexeme c cs).followedBy ds := by
  unfold lexeme at h ⊢
  by_cases hword : isWordChar c = true
  · simp only [if_pos hword] at h ⊢
    rw [takeWhile_append_of_dropWhile h, dropWhile_append_of_dropWhile h, wordKind, wordKind,
      head?_append_of_ne_nil h]
    rfl
  · simp only [if_neg hword] at h ⊢
    by_cases hdigit : c.isDigit = true
    · simp only [if_pos hdigit] at h ⊢
      rw [takeWhile_append_of_dropWhile h, dropWhile_append_of_dropWhile h]
      rfl
    · simp only [if_neg hdigit] at h ⊢
      by_cases hquote : c = '"'
      · simp only [if_pos hquote] at h ⊢
        exact stringLexeme_append_right h ds
      · simp only [if_neg hquote] at h ⊢
        refine symbolLexeme_append_right ?_ ds
        rintro rfl
        exact h rfl

theorem lexeme_semicolon (cs : List Char) : lexeme ';' cs = ⟨.semicolon, [';'], cs⟩ := by
  have hword : isWordChar ';' = false := by decide
  have hdigit : ';'.isDigit = false := by decide
  unfold lexeme
  rw [hword, hdigit, if_neg Bool.false_ne_true, if_neg Bool.false_ne_true, if_neg (by decide)]
  unfold symbolLexeme
  split
  · rw [if_neg (by decide), if_neg (by decide)]
    rfl
  · rfl

/-- Only a semicolon is read as one. -/
theorem eq_semicolon_of_kind {c : Char} {cs : List Char} (h : (lexeme c cs).kind = .semicolon) :
    c = ';' := by
  have hshown : String.ofList (lexeme c cs).literal = ";" :=
    ((legible_lexeme ⟨0, 0⟩ c cs).is h rfl).2
  have hliteral : (lexeme c cs).literal = [';'] := by
    have htoList := congrArg String.toList hshown
    rwa [String.toList_ofList] at htoList
  have hne : (lexeme c cs).kind ≠ .string := by
    rw [h]
    decide
  rw [Lexeme.literal, if_neg hne] at hliteral
  have happend := lexeme_append c cs
  rw [hliteral] at happend
  exact (List.cons.inj happend).1.symm

/-! ### Scanning -/

/-- Where a text starts moves its tokens and nothing else. -/
theorem scan_add (k o : Nat) (cs : List Char) :
    scan (k + o) cs = (scan o cs).map (Token.shift k) := by
  fun_induction scan o cs with
  | case1 o => rw [scan]; rfl
  | case2 o c cs hl ih => rw [scan, if_pos hl, Nat.add_assoc, ih]
  | case3 o c cs hl l stop ih =>
      rw [scan, if_neg hl, List.map_cons, ← ih]
      simp only [Nat.add_assoc]
      rfl

/-- The tokens of a text that ends with a semicolon stay as they are when the text goes on. -/
theorem scan_append {o : Nat} {cs : List Char}
    (h : ∀ t, (scan o cs).getLast? = some t → t.kind = .semicolon) (ds : List Char) :
    scan o (cs ++ ds) = scan o cs ++ scan (o + byteLength cs) ds := by
  fun_induction scan o cs with
  | case1 o => rfl
  | case2 o c cs hl ih =>
      rw [List.cons_append, scan, if_pos hl, ih h, byteLength_cons, Nat.add_assoc]
  | case3 o c cs hl l stop ih =>
      have hrest : ∀ t, (scan stop l.rest).getLast? = some t → t.kind = .semicolon := by
        intro t ht
        refine h t ?_
        rw [List.getLast?_cons, ht]
        rfl
      have hlexeme : lexeme c (cs ++ ds) = l.followedBy ds := by
        by_cases hnil : l.rest = []
        · -- the lexeme ends with the text, so it is the semicolon
          have hsemicolon : l.kind = .semicolon := by
            refine h ⟨l.kind, String.ofList l.literal, ⟨o, stop⟩⟩ ?_
            rw [hnil, scan]
            rfl
          obtain rfl := eq_semicolon_of_kind hsemicolon
          simp only [l, lexeme_semicolon]
          rfl
        · exact lexeme_append_right hnil ds
      have hlength : o + byteLength (c :: cs) = stop + byteLength l.rest := by
        rw [← lexeme_append c cs, byteLength_append, ← Nat.add_assoc]
      rw [List.cons_append, scan, if_neg hl, hlength, List.cons_append, ← ih hrest]
      simp only [hlexeme]
      rfl

end Treewalk.Token

namespace Treewalk

theorem utf8ByteSize_ofList (cs : List Char) :
    (String.ofList cs).utf8ByteSize = Text.byteLength cs := by
  induction cs with
  | nil => rfl
  | cons c cs ih =>
      rw [← List.singleton_append, String.ofList_append, String.utf8ByteSize_append, ih]
      simp

theorem byteLength_toList (s : String) : Text.byteLength s.toList = s.utf8ByteSize := by
  rw [← utf8ByteSize_ofList, String.ofList_toList]

/-- Nothing put behind a text whose last token is a semicolon changes its tokens, and the tokens put
behind it are further on by its length. -/
theorem tokens_append {s₁ s₂ : String}
    (h : ∀ t, (tokens s₁).getLast? = some t → t.kind = .semicolon) :
    tokens (s₁ ++ s₂) = tokens s₁ ++ (tokens s₂).map (Token.shift s₁.utf8ByteSize) := by
  rw [tokens, String.toList_append, Token.scan_append h, Nat.zero_add, byteLength_toList]
  congr 1
  exact Token.scan_add s₁.utf8ByteSize 0 s₂.toList

theorem endToken_append (s₁ s₂ : String) :
    endToken (s₁ ++ s₂) = (endToken s₂).shift s₁.utf8ByteSize := by
  rw [endToken, String.utf8ByteSize_append]
  rfl

end Treewalk
