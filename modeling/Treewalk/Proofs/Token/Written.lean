import Treewalk.Proofs.Token.Legible

/-! # Writing tokens down

Tokens that are written one after the other are cut apart again where they were put together.

* `Token.Writable` are the tokens whose literal fits their kind and can be written out.
* `Token.Parts` says which characters may stand directly after a token: no letter after a word, no
  digit after a number, and no `=` after `=` and `!`.
* `Written ts cs` says that the characters `cs` write the tokens `ts`, with layout anywhere between
  two of them.  `faces_of_written`: scanning `cs` gives tokens with the same kinds and literals.
* `Spaced` is the special case in which layout stands between any two tokens.
* A name that spells a keyword is neither written by any tokens (`ofWord_of_written`) nor cut off
  where all characters start a token (`ofWord_of_scan`). -/

namespace Treewalk

namespace Token

/-- What a token is, wherever it stands. -/
def face (t : Token) : Kind × String :=
  (t.kind, t.literal)

/-- A token, wherever it stands. -/
def bare (k : Kind) (literal : String) : Token :=
  ⟨k, literal, ⟨0, 0⟩⟩

/-- The token of a kind that has one spelling only. -/
def Kind.token (k : Kind) : Token :=
  .bare k k.text

theorem Kind.is_token (k : Kind) : k.token.Is k :=
  ⟨rfl, rfl⟩

/-- The characters of a token, for a string with its quotes. -/
def written (t : Token) : List Char :=
  if t.kind = .string then '"' :: (t.literal.toList ++ ['"']) else t.literal.toList

theorem written_token {k : Kind} (h : k.isFixed = true) : k.token.written = k.text.toList := by
  have hne : k.token.kind ≠ .string := by
    intro hk
    rw [show k = .string from hk] at h
    cases h
  rw [written, if_neg hne]
  rfl

/-- Kinds of tokens that a letter or a digit could continue. -/
def Kind.isRun : Kind → Bool
  | .ident | .int | .fnWord | .letWord | .trueWord | .falseWord | .ifWord | .elseWord
  | .returnWord => true
  | _ => false

/-- Kinds of tokens that a letter could continue. -/
def Kind.isWord (k : Kind) : Bool :=
  k.isRun && k != .int

/-- Kinds of one or two characters. -/
def Kind.isSign (k : Kind) : Bool :=
  k.isFixed && !k.isRun

/-- A token that can be written out. -/
inductive Writable (t : Token) : Prop
  | word : IsWord t.literal → Kind.ofWord t.literal = t.kind → Writable t
  | int : t.kind = .int → t.literal ≠ "" → (∀ c ∈ t.literal.toList, c.isDigit = true) → Writable t
  | string : t.kind = .string → '"' ∉ t.literal.toList → Writable t
  | sign : t.kind.isSign = true → t.literal = t.kind.text → Writable t

theorem isWord_text {k : Kind} (hf : k.isFixed = true) (hr : k.isRun = true) :
    IsWord k.text ∧ Kind.ofWord k.text = k := by
  cases k <;> first | cases hf; done | cases hr; done | exact ⟨by decide, by decide⟩

theorem Is.writable {t : Token} {k : Kind} (h : t.Is k) (hf : k.isFixed = true) :
    t.Writable := by
  obtain ⟨rfl, htext⟩ := h
  cases hr : t.kind.isRun with
  | true =>
      obtain ⟨hword, hkind⟩ := isWord_text hf hr
      rw [← htext] at hword hkind
      exact .word hword hkind
  | false => exact .sign (by simp [Kind.isSign, hf, hr]) htext

/-- A character that can follow a token without changing it. -/
structure Parts (t : Token) (c : Char) : Prop where
  word : t.kind.isWord = true → isWordChar c = false ∧ Text.beginsLikeLetter c = false
  int : t.kind = .int → c.isDigit = false
  sign : t.kind = .assign ∨ t.kind = .bang → c ≠ '='

/-- The characters after a token do not change it. -/
def EndsBefore (t : Token) (cs : List Char) : Prop :=
  ∀ c, cs.head? = some c → t.Parts c

/-- Kinds that no character can continue. -/
def Kind.standsAlone (k : Kind) : Bool :=
  !k.isRun && k != .assign && k != .bang

theorem parts_of_standsAlone {t : Token} (h : t.kind.standsAlone = true) (c : Char) :
    t.Parts c := by
  simp only [Kind.standsAlone, Bool.and_eq_true, Bool.not_eq_true', bne_iff_ne] at h
  obtain ⟨⟨hrun, hassign⟩, hbang⟩ := h
  refine ⟨fun hword => ?_, fun hint => ?_, fun hk => absurd hk (by simp [hassign, hbang])⟩
  · rw [Kind.isWord, hrun] at hword
    cases hword
  · rw [hint] at hrun
    cases hrun

/-- Whether a character ends every word and every number. -/
def isDelimiter (c : Char) : Bool :=
  decide (c.toNat < 0x80) && !isWordChar c && !c.isDigit

theorem parts_of_isDelimiter {c : Char} (h : isDelimiter c = true) {t : Token}
    (hsign : t.kind = .assign ∨ t.kind = .bang → c ≠ '=') : t.Parts c := by
  simp only [isDelimiter, Bool.and_eq_true, decide_eq_true_eq, Bool.not_eq_true'] at h
  obtain ⟨⟨hlt, hword⟩, hdigit⟩ := h
  exact ⟨fun _ => ⟨hword, Text.beginsLikeLetter_of_lt hlt⟩, fun _ => hdigit, hsign⟩

theorem isDelimiter_of_isLayout {c : Char} (h : isLayout c = true) : isDelimiter c = true := by
  rcases isLayout_iff.1 h with rfl | rfl | rfl | rfl <;> decide

/-- Layout can follow every token. -/
theorem parts_of_isLayout {c : Char} (h : isLayout c = true) (t : Token) : t.Parts c := by
  refine parts_of_isDelimiter (isDelimiter_of_isLayout h) ?_
  rintro - rfl
  cases h

/-! ### One token -/

/-- The lexeme at the start of some characters is a token with the rest after it. -/
def Starts (t : Token) (cs rest : List Char) : Prop :=
  ∃ c ds, cs = c :: ds ∧ isLayout c = false ∧ (lexeme c ds).kind = t.kind ∧
    String.ofList (lexeme c ds).literal = t.literal ∧ (lexeme c ds).rest = rest

theorem not_isLayout_of_isWordChar {c : Char} (h : isWordChar c = true) : isLayout c = false := by
  cases hl : isLayout c with
  | false => rfl
  | true =>
      have hword := ((parts_of_isLayout hl (.bare .ident "")).word rfl).1
      rw [h] at hword
      cases hword

theorem not_isLayout_of_isDigit {c : Char} (h : c.isDigit = true) : isLayout c = false := by
  cases hl : isLayout c with
  | false => rfl
  | true =>
      have hdigit := (parts_of_isLayout hl (.bare .int "")).int rfl
      rw [h] at hdigit
      cases hdigit

theorem toNat_of_isDigit {c : Char} (h : c.isDigit = true) : 48 ≤ c.toNat ∧ c.toNat ≤ 57 := by
  simpa [Char.isDigit, UInt32.le_iff_toNat_le] using h

theorem not_isWordChar_of_isDigit {c : Char} (h : c.isDigit = true) : isWordChar c = false := by
  have hrange := toNat_of_isDigit h
  have hall : ∀ n < 58, 48 ≤ n → isWordChar (Char.ofNat n) = false := by decide
  rw [← Char.ofNat_toNat c]
  exact hall c.toNat (by omega) hrange.1

theorem takeWhile_append_of_head {p : Char → Bool} {cs rest : List Char}
    (hcs : ∀ c ∈ cs, p c = true) (hrest : ∀ c, rest.head? = some c → p c = false) :
    (cs ++ rest).takeWhile p = cs ∧ (cs ++ rest).dropWhile p = rest := by
  rw [List.takeWhile_append_of_pos hcs, List.dropWhile_append_of_pos hcs]
  cases rest with
  | nil => simp
  | cons c rest => simp [hrest c rfl]

theorem isWord_of_ofWord {w : String} : (Kind.ofWord w).isWord = true := by
  unfold Kind.ofWord
  have all : ∀ e ∈ Kind.keywords, e.2.isWord = true := by decide
  cases h : Kind.keywords.lookup w with
  | none => rfl
  | some k =>
      obtain ⟨l₁, l₂, heq, -⟩ := List.lookup_eq_some_iff.1 h
      exact all (w, k) (by rw [heq]; simp)

theorem isRun_of_ofWord {w : String} : (Kind.ofWord w).isRun = true :=
  (Bool.and_eq_true_iff.1 isWord_of_ofWord).1

theorem starts_word {t : Token} {rest : List Char} (hword : IsWord t.literal)
    (hkind : Kind.ofWord t.literal = t.kind) (hrest : t.EndsBefore rest) :
    t.Starts (t.literal.toList ++ rest) rest := by
  have hisWord : t.kind.isWord = true := by rw [← hkind]; exact isWord_of_ofWord
  obtain ⟨hne, hall⟩ := hword
  cases hcs : t.literal.toList with
  | nil => exact absurd (String.toList_eq_nil_iff.1 hcs) hne
  | cons c cs =>
      rw [hcs] at hall
      have hc := hall c List.mem_cons_self
      obtain ⟨htake, hdrop⟩ := takeWhile_append_of_head (p := isWordChar)
        (fun d hd => hall d (List.mem_cons_of_mem c hd)) fun d hd => ((hrest d hd).word hisWord).1
      have hlike : rest.head?.any Text.beginsLikeLetter = false := by
        cases hr : rest.head? with
        | none => rfl
        | some d => exact ((hrest d hr).word hisWord).2
      have hofList : String.ofList (c :: cs) = t.literal := by
        rw [← hcs, String.ofList_toList]
      have hlex : lexeme c (cs ++ rest) = ⟨t.kind, c :: cs, rest⟩ := by
        simp only [lexeme, if_pos hc, htake, hdrop, wordKind, hlike, hofList, hkind]
        rfl
      have hstring : t.kind ≠ .string := by
        intro h
        rw [h] at hisWord
        cases hisWord
      refine ⟨c, cs ++ rest, rfl, not_isLayout_of_isWordChar hc, ?_, ?_, ?_⟩
      · rw [hlex]
      · rw [hlex, Lexeme.literal, if_neg hstring, hofList]
      · rw [hlex]

theorem starts_int {t : Token} {rest : List Char} (hk : t.kind = .int) (hne : t.literal ≠ "")
    (hall : ∀ c ∈ t.literal.toList, c.isDigit = true) (hrest : t.EndsBefore rest) :
    t.Starts (t.literal.toList ++ rest) rest := by
  cases hcs : t.literal.toList with
  | nil => exact absurd (String.toList_eq_nil_iff.1 hcs) hne
  | cons c cs =>
      rw [hcs] at hall
      have hc := hall c List.mem_cons_self
      have hword := not_isWordChar_of_isDigit hc
      obtain ⟨htake, hdrop⟩ := takeWhile_append_of_head (p := Char.isDigit)
        (fun d hd => hall d (List.mem_cons_of_mem c hd))
        fun d hd => (hrest d hd).int hk
      have hofList : String.ofList (c :: cs) = t.literal := by
        rw [← hcs, String.ofList_toList]
      have hlex : lexeme c (cs ++ rest) = ⟨.int, c :: cs, rest⟩ := by
        simp only [lexeme, hword, if_pos hc, htake, hdrop]
        rfl
      refine ⟨c, cs ++ rest, rfl, not_isLayout_of_isDigit hc, ?_, ?_, ?_⟩
      · rw [hlex, hk]
      · rw [hlex, Lexeme.literal, if_neg (fun h => by cases h), hofList]
      · rw [hlex]

theorem starts_string {t : Token} {rest : List Char} (hk : t.kind = .string)
    (hquote : '"' ∉ t.literal.toList) :
    t.Starts ('"' :: (t.literal.toList ++ ['"']) ++ rest) rest := by
  have hinside : ∀ c ∈ t.literal.toList, decide (c ≠ '"') = true := by
    intro c hc
    rw [decide_eq_true_eq]
    rintro rfl
    exact hquote hc
  have hafter : ∀ (cs : List Char) c, ('"' :: cs).head? = some c → decide (c ≠ '"') = false := by
    intro cs c hc
    obtain rfl := Option.some.inj hc
    rfl
  obtain ⟨htake, hdrop⟩ := takeWhile_append_of_head hinside (hafter rest)
  have hlex : lexeme '"' (t.literal.toList ++ '"' :: rest) =
      ⟨.string, '"' :: (t.literal.toList ++ ['"']), rest⟩ := by
    have hword : isWordChar '"' = false := by decide
    have hdigit : '"'.isDigit = false := by decide
    simp only [lexeme, hword, hdigit, stringLexeme, htake, hdrop]
    rfl
  refine ⟨'"', t.literal.toList ++ '"' :: rest, by simp, by decide, ?_, ?_, ?_⟩
  · rw [hlex, hk]
  · rw [hlex, Lexeme.literal, if_pos rfl]
    obtain ⟨htake, -⟩ := takeWhile_append_of_head hinside (hafter [])
    rw [List.drop_one, List.tail_cons, htake, String.ofList_toList]
  · rw [hlex]

theorem symbolKind_of_text {k : Kind} {c : Char} (hs : k.isSign = true)
    (hk : k.text = String.ofList [c]) : symbolKind c = k ∧ isLayout c = false ∧
      isWordChar c = false ∧ c.isDigit = false ∧ c ≠ '"' := by
  have hc : c = k.text.toList.headD ' ' := by rw [hk, String.toList_ofList]; rfl
  rw [hc] at hk ⊢
  clear hc
  cases k <;> first | cases hs; done | exact absurd hk (by decide) | decide

/-- The signs of two characters. -/
theorem text_of_isSign {k : Kind} (hs : k.isSign = true) :
    (∃ c, k.text = String.ofList [c] ∧ (c = '=' → k = .assign) ∧ (c = '!' → k = .bang)) ∨
      k = .eq ∨ k = .notEq := by
  cases k <;> first
    | cases hs; done
    | exact .inr (.inl rfl)
    | exact .inr (.inr rfl)
    | exact .inl ⟨_, rfl, by decide, by decide⟩

theorem starts_sign {t : Token} {rest : List Char} (hs : t.kind.isSign = true)
    (htext : t.literal = t.kind.text) (hrest : t.EndsBefore rest) :
    t.Starts (t.literal.toList ++ rest) rest := by
  have hstring : t.kind ≠ .string := by
    intro h
    rw [h] at hs
    cases hs
  rcases text_of_isSign hs with ⟨c, hc, hassign, hbang⟩ | htwo | htwo
  · obtain ⟨hkind, hlayout, hword, hdigit, hquote⟩ := symbolKind_of_text hs hc
    have hlit : t.literal.toList = [c] := by rw [htext, hc, String.toList_ofList]
    have hlex : lexeme c rest = ⟨t.kind, [c], rest⟩ := by
      simp only [lexeme, hword, hdigit, if_neg hquote, symbolLexeme, hkind, Bool.false_eq_true,
        if_false]
      split
      · have heq := (hrest '=' rfl).sign
        rw [if_neg fun h => heq (.inl (hassign h)) rfl, if_neg fun h => heq (.inr (hbang h)) rfl]
      · rfl
    refine ⟨c, rest, by rw [hlit]; rfl, hlayout, ?_, ?_, ?_⟩
    · rw [hlex]
    · rw [hlex, Lexeme.literal, if_neg hstring, htext, hc]
    · rw [hlex]
  · refine ⟨'=', '=' :: rest, by rw [htext, htwo]; rfl, by decide, ?_, ?_, rfl⟩
    · rw [htwo]; rfl
    · rw [htext, htwo]; rfl
  · refine ⟨'!', '=' :: rest, by rw [htext, htwo]; rfl, by decide, ?_, ?_, rfl⟩
    · rw [htwo]; rfl
    · rw [htext, htwo]; rfl

/-- A token that is written out is the lexeme at its first character. -/
theorem Writable.starts {t : Token} {rest : List Char} (h : t.Writable)
    (hrest : t.EndsBefore rest) : t.Starts (t.written ++ rest) rest := by
  cases h with
  | word hword hkind =>
      have hstring : t.kind ≠ .string := by
        intro h
        have hrun := isRun_of_ofWord (w := t.literal)
        rw [hkind, h] at hrun
        cases hrun
      rw [written, if_neg hstring]
      exact starts_word hword hkind hrest
  | int hk hne hall =>
      rw [written, if_neg (by rw [hk]; decide)]
      exact starts_int hk hne hall hrest
  | string hk hquote =>
      rw [written, if_pos hk]
      exact starts_string hk hquote
  | sign hs htext =>
      rw [written, if_neg (by intro h; rw [h] at hs; cases hs)]
      exact starts_sign hs htext hrest

/-! ### Names that spell a keyword -/

/-- A character that begins like a letter, but is none, starts no token. -/
theorem kind_lexeme_of_beginsLikeLetter {c : Char} (h : Text.beginsLikeLetter c = true)
    (hw : isWordChar c = false) (cs : List Char) :
    isLayout c = false ∧ (lexeme c cs).kind = .illegal := by
  have hge : 0x80 ≤ c.toNat := by
    by_contra hlt
    rw [Text.beginsLikeLetter_of_lt (Nat.lt_of_not_le hlt)] at h
    cases h
  have hne : ∀ d : Char, d.toNat < 0x80 → c ≠ d := by
    rintro d hd rfl
    omega
  have hdigit : c.isDigit = false := by
    rw [Bool.eq_false_iff]
    intro hd
    have := (toNat_of_isDigit hd).2
    omega
  have hsymbol : symbolKind c = .illegal := by
    have hsmall : ∀ e ∈ symbols, e.1.toNat < 0x80 := by decide
    have hnone : symbols.lookup c = none :=
      List.lookup_eq_none_iff.2 fun e he => bne_iff_ne.2 (hne e.1 (hsmall e he))
    rw [symbolKind, hnone]
    rfl
  have heq : c ≠ '=' := hne '=' (by decide)
  have hbang : c ≠ '!' := hne '!' (by decide)
  constructor
  · simp [isLayout, hne ' ' (by decide), hne '\t' (by decide), hne '\n' (by decide),
      hne '\r' (by decide)]
  · rw [lexeme, hw, hdigit]
    simp only [Bool.false_eq_true, if_false, hne '"' (by decide), symbolLexeme]
    split <;> simp [heq, hbang, hsymbol]

theorem isWordChar_of_kind_lexeme {c : Char} {cs : List Char} (h : (lexeme c cs).kind = .ident) :
    isWordChar c = true := by
  have hword := (legible_lexeme ⟨0, 0⟩ c cs).ident h
  have happend := lexeme_append c cs
  cases htext : (lexeme c cs).text with
  | nil => exact absurd htext (lexeme_text_ne_nil c cs)
  | cons d ds =>
      rw [htext, List.cons_append, List.cons.injEq] at happend
      rw [← happend.1]
      refine hword.2 d ?_
      simp [ofLexeme, Lexeme.literal, h, htext]

/-- Before a character that starts a token, a run of letters and underscores is what it spells. -/
theorem wordKind_of_scan {offset : Nat} {word rest : List Char}
    (hrest : ∀ d ∈ rest.head?, isWordChar d = false)
    (h : ∀ t ∈ scan offset rest, t.kind ≠ .illegal) :
    wordKind word rest = Kind.ofWord (String.ofList word) := by
  refine if_neg ?_
  cases rest with
  | nil => simp
  | cons d ds =>
      rw [List.head?_cons, Option.any_some]
      intro hd
      obtain ⟨hlayout, hillegal⟩ := kind_lexeme_of_beginsLikeLetter hd (hrest d rfl) ds
      rw [scan, if_neg (by rw [hlayout]; decide), List.forall_mem_cons] at h
      exact h.1 hillegal

/-- Only before a character that starts no token is a keyword cut off as a name. -/
theorem ofWord_of_scan {offset : Nat} {cs : List Char}
    (h : ∀ t ∈ scan offset cs, t.kind ≠ .illegal) :
    ∀ t ∈ scan offset cs, t.kind = .ident → Kind.ofWord t.literal = .ident := by
  fun_induction scan offset cs with
  | case1 offset => simp
  | case2 offset c cs hl ih => exact ih h
  | case3 offset c cs hl l stop ih =>
      rw [List.forall_mem_cons] at h ⊢
      refine ⟨fun hk => ?_, ih h.2⟩
      change l.kind = .ident at hk
      have hlex : l = ⟨wordKind (c :: cs.takeWhile isWordChar) (cs.dropWhile isWordChar),
          c :: cs.takeWhile isWordChar, cs.dropWhile isWordChar⟩ := by
        simp only [l, lexeme, if_pos (isWordChar_of_kind_lexeme hk)]
      have hhead : ∀ d ∈ (cs.dropWhile isWordChar).head?, isWordChar d = false := by
        intro d hd
        have hnot := List.head?_dropWhile_not isWordChar cs
        rwa [hd] at hnot
      have hlit : l.literal = c :: cs.takeWhile isWordChar := by
        rw [Lexeme.literal, if_neg (by rw [hk]; decide), hlex]
      have hscan := h.2
      rw [hlex] at hscan
      rw [hlit, ← wordKind_of_scan hhead hscan, ← hk, hlex]

end Token

/-! ### Many tokens -/

open Token

/-- The characters write the tokens, with layout anywhere between two of them. -/
inductive Written : List Token → List Char → Prop
  | nil : Written [] []
  | layout {c : Char} {ts : List Token} {cs : List Char} :
      isLayout c = true → Written ts cs → Written ts (c :: cs)
  | token {t : Token} {ts : List Token} {cs : List Char} :
      t.Writable → t.EndsBefore cs → Written ts cs → Written (t :: ts) (t.written ++ cs)

/-- Layout stands between any two of the tokens, and may stand before and after them. -/
inductive Spaced : List Token → List Char → Prop
  | nil : Spaced [] []
  | last {t : Token} : Spaced [t] t.written
  | layout {c : Char} {ts : List Token} {cs : List Char} :
      c = ' ' ∨ c = '\t' ∨ c = '\n' ∨ c = '\r' → Spaced ts cs → Spaced ts (c :: cs)
  | token {c : Char} {t : Token} {ts : List Token} {cs : List Char} :
      c = ' ' ∨ c = '\t' ∨ c = '\n' ∨ c = '\r' → Spaced ts cs →
      Spaced (t :: ts) (t.written ++ c :: cs)

/-- Tokens with one space between any two. -/
theorem spaced_intercalate :
    ∀ ts : List Token, Spaced ts (List.intercalate [' '] (ts.map Token.written))
  | [] => .nil
  | [t] => by
      rw [List.map_singleton, List.intercalate_singleton]
      exact .last
  | t :: u :: ts => by
      rw [List.map_cons, List.map_cons, List.intercalate_cons_cons, List.append_assoc]
      exact .token (.inl rfl) (spaced_intercalate (u :: ts))

theorem faces_of_written {ts : List Token} {cs : List Char} (h : Written ts cs) (offset : Nat) :
    (scan offset cs).map face = ts.map face := by
  induction h generalizing offset with
  | nil => rw [scan]
  | layout hc _ ih => rw [scan, if_pos hc, ih]
  | @token t ts cs ht hends _ ih =>
      obtain ⟨c, ds, heq, hlayout, hkind, hlit, hrest⟩ := ht.starts hends
      rw [heq, scan, hlayout]
      simp only [Bool.false_eq_true, if_false, List.map_cons, face, hkind, hlit, hrest, ih]

theorem Written.writable {ts : List Token} {cs : List Char} (h : Written ts cs) :
    ∀ t ∈ ts, t.Writable := by
  induction h with
  | nil => simp
  | layout _ _ ih => exact ih
  | token ht _ _ ih => exact List.forall_mem_cons.2 ⟨ht, ih⟩

/-- No token that can be written out is a name that spells a keyword. -/
theorem Token.Writable.ofWord_eq {t : Token} (h : t.Writable) (hk : t.kind = .ident) :
    Kind.ofWord t.literal = .ident := by
  cases h with
  | word _ hkind => rw [hkind, hk]
  | int hint => rw [hk] at hint; cases hint
  | string hstring => rw [hk] at hstring; cases hstring
  | sign hsign => rw [hk] at hsign; cases hsign

/-- A text that is written by tokens has no names that spell a keyword. -/
theorem ofWord_of_written {ts : List Token} {source : String} (h : Written ts source.toList)
    {t : Token} (ht : t ∈ tokens source) (hk : t.kind = .ident) :
    Kind.ofWord t.literal = .ident := by
  have hmem : t.face ∈ (tokens source).map face := List.mem_map_of_mem ht
  rw [tokens, faces_of_written h 0] at hmem
  obtain ⟨u, hu, hface⟩ := List.mem_map.1 hmem
  obtain ⟨hkind, hlit⟩ := Prod.mk.inj hface
  rw [← hlit]
  exact (h.writable u hu).ofWord_eq (hkind.trans hk)

theorem written_of_spaced {ts : List Token} {cs : List Char} (h : Spaced ts cs)
    (hts : ∀ t ∈ ts, t.Writable) : Written ts cs := by
  induction h with
  | nil => exact .nil
  | @last t =>
      have hw : Written [t] (t.written ++ []) :=
        .token (hts t List.mem_cons_self) (fun _ h => by cases h) .nil
      rwa [List.append_nil] at hw
  | layout hc _ ih => exact .layout (isLayout_iff.2 hc) (ih hts)
  | @token c t ts cs hc _ ih =>
      refine .token (hts t List.mem_cons_self) ?_
        (.layout (isLayout_iff.2 hc) (ih fun u hu => hts u (List.mem_cons_of_mem t hu)))
      intro d hd
      obtain rfl := Option.some.inj hd
      exact parts_of_isLayout (isLayout_iff.2 hc) t

end Treewalk
