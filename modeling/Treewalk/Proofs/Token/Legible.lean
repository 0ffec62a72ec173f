import Mathlib.Data.List.TakeWhile
import Treewalk.Proofs.Syntax.Spelling
import Treewalk.Token.Scan

/-! # What the tokens of a text look like

A token of a text has a literal that fits its kind: a name is a run of letters and underscores, an
integer a run of digits, a string has no quote, and all other words and signs have the one
spelling of their kind.  No token of a text has the kind that marks its end. -/

namespace Treewalk.Token

/-- Kinds whose tokens all have the same characters. -/
def Kind.isFixed : Kind → Bool
  | .illegal | .eof | .ident | .int | .string => false
  | _ => true

/-- A run of one or more letters and underscores. -/
def IsWord (s : String) : Prop :=
  s ≠ "" ∧ ∀ c ∈ s.toList, isWordChar c = true

-- The test runs over the characters of the word, and never over all characters.
instance (s : String) : Decidable (IsWord s) :=
  decidable_of_iff (s ≠ "" ∧ s.toList.all isWordChar = true) (by rw [IsWord, List.all_eq_true])

theorem isLayout_iff {c : Char} :
    isLayout c = true ↔ c = ' ' ∨ c = '\t' ∨ c = '\n' ∨ c = '\r' := by
  simp [isLayout, or_assoc]

/-- The literal of a token fits its kind. -/
structure Legible (t : Token) : Prop where
  ne_eof : t.kind ≠ .eof
  ident : t.kind = .ident → IsWord t.literal
  int : t.kind = .int → t.literal ≠ "" ∧ ∀ c ∈ t.literal.toList, c.isDigit = true
  string : t.kind = .string → '"' ∉ t.literal.toList
  fixed : t.kind.isFixed = true → t.literal = t.kind.text

theorem Legible.is {t : Token} (h : t.Legible) {k : Kind} (hk : t.kind = k)
    (hf : k.isFixed = true) : t.Is k := by
  subst hk
  exact ⟨rfl, h.fixed hf⟩

theorem Legible.shows {t : Token} (h : t.Legible) {v : Int64} (hk : t.kind = .int)
    (hv : Integer.ofDigits? t.literal.toList = some v) : t.Shows v :=
  ⟨hk, h.int hk, Integer.ofDigits?_eq_some_iff.1 hv⟩

/-- A token of a fixed kind is legible when it shows the characters of the kind. -/
theorem legible_of_fixed {t : Token} (hf : t.kind.isFixed = true) (h : t.literal = t.kind.text) :
    t.Legible where
  ne_eof := by intro e; rw [e] at hf; exact absurd hf (by decide)
  ident := by intro e; rw [e] at hf; exact absurd hf (by decide)
  int := by intro e; rw [e] at hf; exact absurd hf (by decide)
  string := by intro e; rw [e] at hf; exact absurd hf (by decide)
  fixed := fun _ => h

/-! ### Words and signs -/

theorem text_of_lookup_keywords {w : String} {k : Kind} (h : Kind.keywords.lookup w = some k) :
    w = k.text ∧ k.isFixed = true := by
  have all : ∀ e ∈ Kind.keywords, e.1 = e.2.text ∧ e.2.isFixed = true := by decide
  obtain ⟨l₁, l₂, heq, -⟩ := List.lookup_eq_some_iff.1 h
  exact all (w, k) (by rw [heq]; simp)

/-- A run of letters and underscores is a name, unless it spells a keyword. -/
theorem ofWord_eq_ident_or (w : String) :
    Kind.ofWord w = .ident ∨ ((Kind.ofWord w).isFixed = true ∧ w = (Kind.ofWord w).text) := by
  unfold Kind.ofWord
  cases h : Kind.keywords.lookup w with
  | none => exact .inl rfl
  | some k =>
      obtain ⟨hw, hk⟩ := text_of_lookup_keywords h
      exact .inr ⟨hk, hw⟩

theorem ofWord_eq_ident_iff {w : String} :
    Kind.ofWord w = .ident ↔ w ∉ Kind.keywords.map Prod.fst := by
  have hkeywords : ∀ w ∈ Kind.keywords.map Prod.fst, Kind.ofWord w ≠ .ident := by decide
  refine ⟨fun h hmem => hkeywords w hmem h, fun h => ?_⟩
  have hnone : Kind.keywords.lookup w = none := by
    rw [List.lookup_eq_none_iff]
    intro e he
    rw [bne_iff_ne]
    rintro rfl
    exact h (List.mem_map_of_mem he)
  rw [Kind.ofWord, hnone]
  rfl

theorem text_of_lookup_symbols {c : Char} {k : Kind} (h : symbols.lookup c = some k) :
    String.ofList [c] = k.text ∧ k.isFixed = true := by
  have all : ∀ e ∈ symbols, String.ofList [e.1] = e.2.text ∧ e.2.isFixed = true := by decide
  obtain ⟨l₁, l₂, heq, -⟩ := List.lookup_eq_some_iff.1 h
  exact all (c, k) (by rw [heq]; simp)

/-- A character stands for a sign, unless it starts no token. -/
theorem symbolKind_eq_illegal_or (c : Char) :
    symbolKind c = .illegal ∨
      ((symbolKind c).isFixed = true ∧ String.ofList [c] = (symbolKind c).text) := by
  unfold symbolKind
  cases h : symbols.lookup c with
  | none => exact .inl rfl
  | some k =>
      obtain ⟨hc, hk⟩ := text_of_lookup_symbols h
      exact .inr ⟨hk, hc⟩

/-! ### Lexemes -/

/-- The token of a lexeme. -/
def ofLexeme (l : Lexeme) (s : Span) : Token :=
  ⟨l.kind, String.ofList l.literal, s⟩

variable (s : Span)

theorem legible_word {word rest : List Char} (hne : word ≠ [])
    (hw : ∀ c ∈ word, isWordChar c = true) :
    (ofLexeme ⟨wordKind word rest, word, rest⟩ s).Legible := by
  have hident : (ofLexeme ⟨.ident, word, rest⟩ s).Legible :=
    { ne_eof := by simp [ofLexeme]
      ident := fun _ => by
        refine ⟨?_, by simpa [ofLexeme, Lexeme.literal] using hw⟩
        simpa [ofLexeme, Lexeme.literal] using hne
      int := by simp [ofLexeme]
      string := by simp [ofLexeme]
      fixed := by simp [ofLexeme, Kind.isFixed] }
  unfold wordKind
  split
  · exact hident
  · rcases ofWord_eq_ident_or (String.ofList word) with h | ⟨hf, ht⟩
    · rw [h]; exact hident
    · have hs : Kind.ofWord (String.ofList word) ≠ .string := by
        intro e; rw [e] at hf; exact absurd hf (by decide)
      refine legible_of_fixed hf ?_
      simpa [ofLexeme, Lexeme.literal, hs] using ht

theorem legible_number {c : Char} {ds rest : List Char} (hc : c.isDigit = true)
    (hd : ∀ d ∈ ds, d.isDigit = true) : (ofLexeme ⟨.int, c :: ds, rest⟩ s).Legible where
  ne_eof := by simp [ofLexeme]
  ident := by simp [ofLexeme]
  int := by
    intro _
    refine ⟨by simp [ofLexeme, Lexeme.literal], ?_⟩
    simpa [ofLexeme, Lexeme.literal] using ⟨hc, hd⟩
  string := by simp [ofLexeme]
  fixed := by simp [ofLexeme, Kind.isFixed]

theorem legible_stringLexeme (cs : List Char) : (ofLexeme (stringLexeme cs) s).Legible := by
  have hk : (stringLexeme cs).kind = .string := by unfold stringLexeme; split <;> rfl
  refine ⟨?_, ?_, ?_, ?_, ?_⟩ <;> simp only [ofLexeme, hk] <;> try simp [Kind.isFixed]
  intro hq
  unfold Lexeme.literal at hq
  rw [if_pos hk] at hq
  have := List.mem_takeWhile_imp hq
  simp at this

theorem legible_symbolLexeme (c : Char) (cs : List Char) :
    (ofLexeme (symbolLexeme c cs) s).Legible := by
  have hone : ∀ rest, (ofLexeme ⟨symbolKind c, [c], rest⟩ s).Legible := by
    intro rest
    rcases symbolKind_eq_illegal_or c with h | ⟨hf, ht⟩
    · rw [h]
      refine ⟨?_, ?_, ?_, ?_, ?_⟩ <;> simp [ofLexeme, Kind.isFixed]
    · have hs : symbolKind c ≠ .string := by
        intro e; rw [e] at hf; exact absurd hf (by decide)
      refine legible_of_fixed hf ?_
      simpa [ofLexeme, Lexeme.literal, hs] using ht
  unfold symbolLexeme
  split
  · split
    · rename_i hc
      subst hc
      exact legible_of_fixed rfl rfl
    · split
      · rename_i hc
        subst hc
        exact legible_of_fixed rfl rfl
      · exact hone _
  · exact hone _

theorem legible_lexeme (c : Char) (cs : List Char) : (ofLexeme (lexeme c cs) s).Legible := by
  unfold lexeme
  split
  · rename_i hc
    refine legible_word s (by simp) ?_
    intro d hd
    rcases List.mem_cons.1 hd with rfl | hd
    · exact hc
    · exact List.mem_takeWhile_imp hd
  · split
    · rename_i hc
      exact legible_number s hc fun d hd => List.mem_takeWhile_imp hd
    · split
      · exact legible_stringLexeme s cs
      · exact legible_symbolLexeme s c cs

/-- Every token of a text has a literal that fits its kind. -/
theorem legible_of_mem_scan {offset : Nat} {cs : List Char} {t : Token}
    (h : t ∈ scan offset cs) : t.Legible := by
  fun_induction scan offset cs with
  | case1 offset => simp at h
  | case2 offset c cs hl ih => exact ih h
  | case3 offset c cs hl l stop ih =>
      rcases List.mem_cons.1 h with rfl | h
      · exact legible_lexeme _ c cs
      · exact ih h

end Treewalk.Token

namespace Treewalk

theorem UnaryOp.isFixed_kind (op : UnaryOp) : op.kind.isFixed = true := by
  cases op <;> rfl

theorem BinaryOp.isFixed_kind (op : BinaryOp) : op.kind.isFixed = true := by
  cases op <;> rfl

theorem legible_of_mem_tokens {source : String} {t : Token} (h : t ∈ tokens source) : t.Legible :=
  Token.legible_of_mem_scan h

end Treewalk
