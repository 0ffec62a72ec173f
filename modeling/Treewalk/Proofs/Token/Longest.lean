import Treewalk.Proofs.Token.Joined
import Treewalk.Proofs.Token.Shape

/-! # The longest match

Tokens by their patterns, and cutting a text by the rule of the longest match.

* `Pattern k text` says that the pattern of a kind matches a text: a run of letters and
  underscores, a run of digits, a quote with what follows up to the next one or less, or the
  spelling of a word or a sign.
* `Cut o cs ts` says that the tokens `ts` are cut off the text `cs` one after the other, each the
  longest start that some pattern matches, and of the kind of a keyword where one matches.  Where no
  pattern matches, a single character is cut off.
* `cut_iff`: this is what scanning gives, when the names that spell a keyword are taken for the
  keyword (`Token.classified`).  `longest_match_iff` says of the tokens themselves where they
  differ. -/

namespace Treewalk

namespace Token

open Text

/-! ### Patterns -/

/-- The pattern of a kind matches a text. -/
inductive Pattern : Kind → List Char → Prop
  | name {w : List Char} : w ≠ [] → (∀ c ∈ w, isWordChar c = true) → Pattern .ident w
  | number {ds : List Char} : ds ≠ [] → (∀ c ∈ ds, c.isDigit = true) → Pattern .int ds
  | unclosed {body : List Char} : '"' ∉ body → Pattern .string ('"' :: body)
  | quoted {body : List Char} : '"' ∉ body → Pattern .string ('"' :: (body ++ ['"']))
  | spelled {k : Kind} : k.isFixed = true → Pattern k k.text.toList

/-- The longest start of a text that some pattern matches. -/
structure Longest (text cs : List Char) : Prop where
  starts : text <+: cs
  matched : ∃ k, Pattern k text
  length_le {k : Kind} {other : List Char} :
    Pattern k other → other <+: cs → other.length ≤ text.length

/-- The kind that a text has: where a keyword matches it, the keyword and not a name. -/
def HasKind (k : Kind) (text : List Char) : Prop :=
  Pattern k text ∧ ∀ k', Pattern k' text → k' = k ∨ k' = .ident

/-- The text that a token of a kind shows, for a string without its quotes. -/
def Kind.shown (k : Kind) (text : List Char) : List Char :=
  if k = .string then text.filter (· ≠ '"') else text

/-- Tokens cut off a text that starts at a byte, each by the longest match. -/
inductive Cut : Nat → List Char → List Token → Prop
  | nil {o : Nat} : Cut o [] []
  | layout {o : Nat} {c : Char} {cs : List Char} {ts : List Token} :
      isLayout c = true → Cut (o + c.utf8Size) cs ts → Cut o (c :: cs) ts
  | matched {o : Nat} {k : Kind} {text rest : List Char} {ts : List Token} :
      Longest text (text ++ rest) → HasKind k text → Cut (o + byteLength text) rest ts →
      Cut o (text ++ rest)
        (⟨k, String.ofList (k.shown text), ⟨o, o + byteLength text⟩⟩ :: ts)
  | illegal {o : Nat} {c : Char} {cs : List Char} {ts : List Token} :
      isLayout c = false → (∀ k text, Pattern k text → ¬ text <+: c :: cs) →
      Cut (o + c.utf8Size) cs ts →
      Cut o (c :: cs) (⟨.illegal, String.ofList [c], ⟨o, o + c.utf8Size⟩⟩ :: ts)

/-! ### What a pattern matches, by the first character -/

theorem isRun_or_isSign_of_isFixed {k : Kind} (h : k.isFixed = true) :
    k.isRun = true ∨ k.isSign = true := by
  cases hrun : k.isRun with
  | true => exact .inl rfl
  | false => exact .inr (by rw [Kind.isSign, h, hrun]; rfl)

theorem Pattern.ne_nil {k : Kind} {text : List Char} (h : Pattern k text) : text ≠ [] := by
  cases h with
  | name hne _ => exact hne
  | number hne _ => exact hne
  | unclosed _ => exact List.cons_ne_nil _ _
  | quoted _ => exact List.cons_ne_nil _ _
  | spelled hf => cases k <;> first | (cases hf; done) | decide

/-- The first character of a sign starts nothing else. -/
theorem head_of_isSign {k : Kind} {c : Char} {ds : List Char} (hs : k.isSign = true)
    (htext : k.text.toList = c :: ds) :
    isLayout c = false ∧ isWordChar c = false ∧ c.isDigit = false ∧ c ≠ '"' := by
  cases k <;> first | (cases hs; done) | (obtain ⟨rfl, -⟩ := List.cons.inj htext; decide)

/-- What a pattern matches is a run of letters and underscores, a run of digits, a string or a
sign. -/
theorem Pattern.cons_cases {k : Kind} {c : Char} {ds : List Char} (h : Pattern k (c :: ds)) :
    ((∀ d ∈ c :: ds, isWordChar d = true) ∧
      (k = .ident ∨ k = Kind.ofWord (String.ofList (c :: ds)))) ∨
    ((∀ d ∈ c :: ds, d.isDigit = true) ∧ k = .int) ∨
    (c = '"' ∧ k = .string ∧ ('"' ∉ ds ∨ ∃ body, '"' ∉ body ∧ ds = body ++ ['"'])) ∨
    (k.isSign = true ∧ k.text.toList = c :: ds) := by
  generalize htext : c :: ds = text at h
  cases h with
  | name _ hall => exact .inl ⟨hall, .inl rfl⟩
  | number _ hall => exact .inr (.inl ⟨hall, rfl⟩)
  | unclosed hbody =>
      obtain ⟨rfl, rfl⟩ := List.cons.inj htext
      exact .inr (.inr (.inl ⟨rfl, rfl, .inl hbody⟩))
  | quoted hbody =>
      obtain ⟨rfl, rfl⟩ := List.cons.inj htext
      exact .inr (.inr (.inl ⟨rfl, rfl, .inr ⟨_, hbody, rfl⟩⟩))
  | spelled hf =>
      rcases isRun_or_isSign_of_isFixed hf with hrun | hsign
      · obtain ⟨⟨-, hall⟩, hkind⟩ := isWord_text hf hrun
        rw [String.ofList_toList]
        exact .inl ⟨hall, .inr hkind.symm⟩
      · exact .inr (.inr (.inr ⟨hsign, rfl⟩))

theorem Pattern.not_isLayout {k : Kind} {c : Char} {ds : List Char} (h : Pattern k (c :: ds)) :
    isLayout c = false := by
  rcases h.cons_cases with ⟨hall, -⟩ | ⟨hall, -⟩ | ⟨rfl, -⟩ | ⟨hsign, htext⟩
  · exact not_isLayout_of_isWordChar (hall c List.mem_cons_self)
  · exact not_isLayout_of_isDigit (hall c List.mem_cons_self)
  · rfl
  · exact (head_of_isSign hsign htext).1

/-- A pattern that matches a text with a letter or an underscore at its start matches a run of
them. -/
theorem Pattern.of_isWordChar {k : Kind} {c : Char} {ds : List Char} (h : Pattern k (c :: ds))
    (hc : isWordChar c = true) :
    (∀ d ∈ c :: ds, isWordChar d = true) ∧
      (k = .ident ∨ k = Kind.ofWord (String.ofList (c :: ds))) := by
  rcases h.cons_cases with hrun | ⟨hall, -⟩ | ⟨rfl, -⟩ | ⟨hsign, htext⟩
  · exact hrun
  · rw [not_isWordChar_of_isDigit (hall c List.mem_cons_self)] at hc
    cases hc
  · exact absurd hc (by decide)
  · rw [(head_of_isSign hsign htext).2.1] at hc
    cases hc

theorem Pattern.of_isDigit {k : Kind} {c : Char} {ds : List Char} (h : Pattern k (c :: ds))
    (hc : c.isDigit = true) : (∀ d ∈ c :: ds, d.isDigit = true) ∧ k = .int := by
  rcases h.cons_cases with ⟨hall, -⟩ | hrun | ⟨rfl, -⟩ | ⟨hsign, htext⟩
  · rw [not_isDigit_of_isWordChar (hall c List.mem_cons_self)] at hc
    cases hc
  · exact hrun
  · exact absurd hc (by decide)
  · rw [(head_of_isSign hsign htext).2.2.1] at hc
    cases hc

theorem Pattern.of_quote {k : Kind} {ds : List Char} (h : Pattern k ('"' :: ds)) :
    k = .string ∧ ('"' ∉ ds ∨ ∃ body, '"' ∉ body ∧ ds = body ++ ['"']) := by
  rcases h.cons_cases with ⟨hall, -⟩ | ⟨hall, -⟩ | ⟨-, hstring⟩ | ⟨hsign, htext⟩
  · exact absurd (hall '"' List.mem_cons_self) (by decide)
  · exact absurd (hall '"' List.mem_cons_self) (by decide)
  · exact hstring
  · exact absurd rfl (head_of_isSign hsign htext).2.2.2

theorem Pattern.of_sign {k : Kind} {c : Char} {ds : List Char} (h : Pattern k (c :: ds))
    (hword : isWordChar c = false) (hdigit : c.isDigit = false) (hquote : c ≠ '"') :
    k.isSign = true ∧ k.text.toList = c :: ds := by
  rcases h.cons_cases with ⟨hall, -⟩ | ⟨hall, -⟩ | ⟨rfl, -⟩ | hsign
  · rw [hall c List.mem_cons_self] at hword
    cases hword
  · rw [hall c List.mem_cons_self] at hdigit
    cases hdigit
  · exact absurd rfl hquote
  · exact hsign

/-! ### A lexeme is the longest match -/

/-- A run goes on to the end of the run that it starts. -/
theorem length_le_of_run {p : Char → Bool} {w rest other : List Char}
    (hrest : ∀ c ∈ rest.head?, p c = false) (hother : ∀ c ∈ other, p c = true)
    (h : other <+: w ++ rest) : other.length ≤ w.length := by
  obtain ⟨tail, htail⟩ := h
  rcases List.append_eq_append_iff.1 htail with ⟨more, rfl, -⟩ | ⟨more, rfl, rfl⟩
  · rw [List.length_append]
    exact Nat.le_add_right _ _
  · cases more with
    | nil => simp
    | cons d more =>
        have hd : p d = true := hother d (by simp)
        rw [hrest d rfl] at hd
        cases hd

theorem length_le_of_ne_quote {body rest ds : List Char} (hds : '"' ∉ ds)
    (h : ds <+: body ++ '"' :: rest) : ds.length ≤ body.length := by
  have hstop : ∀ c ∈ ('"' :: rest).head?, decide (c ≠ '"') = false := by
    intro c hc
    obtain rfl := Option.some.inj hc
    rfl
  exact length_le_of_run hstop (forall_ne_quote hds) h

theorem length_text_le {k : Kind} (h : k.isSign = true) : k.text.toList.length ≤ 2 := by
  cases k <;> first | (cases h; done) | decide

/-- A sign that is written at a character is that character alone, unless it is one of the two of
two characters. -/
theorem symbolKind_of_isSign {k : Kind} {c : Char} {ds : List Char} (hs : k.isSign = true)
    (htext : k.text.toList = c :: ds) :
    (ds = [] ∧ symbolKind c = k) ∨ ((c = '=' ∨ c = '!') ∧ ds = ['=']) := by
  rcases text_of_isSign hs with ⟨d, hd, -, -⟩ | rfl | rfl
  · rw [hd, String.toList_ofList] at htext
    obtain ⟨rfl, hds⟩ := List.cons.inj htext
    exact .inl ⟨hds.symm, (symbolKind_of_text hs hd).1⟩
  · obtain ⟨rfl, hds⟩ := List.cons.inj htext
    exact .inr ⟨.inl rfl, hds.symm⟩
  · obtain ⟨rfl, hds⟩ := List.cons.inj htext
    exact .inr ⟨.inr rfl, hds.symm⟩

/-- No pattern matches more than the lexeme, and none matches where the lexeme is illegal. -/
theorem Lexeme.Shape.longest {l : Lexeme} (h : l.Shape) {k : Kind} {other : List Char}
    (hp : Pattern k other) (ho : other <+: l.text ++ l.rest) :
    other.length ≤ l.text.length ∧ l.kind ≠ .illegal := by
  obtain ⟨c, ds, rfl⟩ := List.exists_cons_of_ne_nil hp.ne_nil
  cases h with
  | @word w rest hne hall hrest =>
      refine ⟨?_, ne_of_isWord (isWord_wordKind w rest) rfl⟩
      obtain ⟨d, w, rfl⟩ := List.exists_cons_of_ne_nil hne
      obtain ⟨rfl, -⟩ := List.cons_prefix_cons.1 ho
      exact length_le_of_run hrest (hp.of_isWordChar (hall c List.mem_cons_self)).1 ho
  | @number w rest hne hall hrest =>
      refine ⟨?_, Kind.noConfusion⟩
      obtain ⟨d, w, rfl⟩ := List.exists_cons_of_ne_nil hne
      obtain ⟨rfl, -⟩ := List.cons_prefix_cons.1 ho
      exact length_le_of_run hrest (hp.of_isDigit (hall c List.mem_cons_self)).1 ho
  | @quoted body rest hbody =>
      refine ⟨?_, Kind.noConfusion⟩
      obtain ⟨rfl, hds⟩ := List.cons_prefix_cons.1 ho
      replace hds : ds <+: body ++ '"' :: rest := by simpa using hds
      rw [List.length_cons, List.length_cons, List.length_append, List.length_singleton]
      rcases hp.of_quote.2 with hnone | ⟨inner, hinner, rfl⟩
      · have hle := length_le_of_ne_quote hnone hds
        omega
      · have hle := length_le_of_ne_quote hinner ((List.prefix_append _ _).trans hds)
        rw [List.length_append, List.length_singleton]
        omega
  | @unclosed body hbody =>
      rw [List.append_nil] at ho
      exact ⟨ho.length_le, Kind.noConfusion⟩
  | @eq rest =>
      obtain ⟨rfl, -⟩ := List.cons_prefix_cons.1 ho
      obtain ⟨hsign, htext⟩ := hp.of_sign (by decide) (by decide) (by decide)
      rw [← htext]
      exact ⟨length_text_le hsign, Kind.noConfusion⟩
  | @notEq rest =>
      obtain ⟨rfl, -⟩ := List.cons_prefix_cons.1 ho
      obtain ⟨hsign, htext⟩ := hp.of_sign (by decide) (by decide) (by decide)
      rw [← htext]
      exact ⟨length_text_le hsign, Kind.noConfusion⟩
  | @single d rest hword hdigit hquote hrest =>
      obtain ⟨rfl, hds⟩ := List.cons_prefix_cons.1 ho
      obtain ⟨hsign, htext⟩ := hp.of_sign hword hdigit hquote
      rcases symbolKind_of_isSign hsign htext with ⟨rfl, rfl⟩ | ⟨hc, rfl⟩
      · refine ⟨Nat.le_refl _, fun hillegal => ?_⟩
        change symbolKind c = .illegal at hillegal
        rw [hillegal] at hsign
        cases hsign
      · obtain ⟨tail, htail⟩ : ['='] <+: rest := hds
        refine absurd ?_ (hrest hc)
        rw [← htail]
        rfl

/-! ### The kind of a lexeme -/

theorem HasKind.unique {k k' : Kind} {text : List Char} (h : HasKind k text)
    (h' : HasKind k' text) : k = k' := by
  rcases h.2 k' h'.1 with hk | hk
  · exact hk.symm
  · rcases h'.2 k h.1 with hk' | hk'
    · exact hk'
    · rw [hk, hk']

/-- The same token, a name that spells a keyword taken for the keyword. -/
def classified (t : Token) : Token :=
  if t.kind = .ident then { t with kind := .ofWord t.literal } else t

theorem classified_of_ne {t : Token} (h : t.kind ≠ .ident) : t.classified = t :=
  if_neg h

theorem classified_eq_self_iff {t : Token} :
    t.classified = t ↔ (t.kind = .ident → Kind.ofWord t.literal = .ident) := by
  obtain ⟨k, w, s⟩ := t
  unfold classified
  constructor
  · rintro h rfl
    rw [if_pos rfl, Token.mk.injEq] at h
    exact h.1
  · intro h
    split
    · rename_i hk
      obtain rfl : k = .ident := hk
      rw [h rfl]
    · rfl

theorem shown_of_ne {k : Kind} (h : k ≠ .string) (text : List Char) : k.shown text = text :=
  if_neg h

theorem filter_ne_quote {body : List Char} (h : '"' ∉ body) :
    body.filter (· ≠ '"') = body :=
  List.filter_eq_self.2 (forall_ne_quote h)

theorem shown_unclosed {body : List Char} (h : '"' ∉ body) :
    Kind.shown .string ('"' :: body) = body := by
  rw [Kind.shown, if_pos rfl, List.filter_cons_of_neg (by decide), filter_ne_quote h]

theorem shown_quoted {body : List Char} (h : '"' ∉ body) :
    Kind.shown .string ('"' :: (body ++ ['"'])) = body := by
  rw [Kind.shown, if_pos rfl, List.filter_cons_of_neg (by decide), List.filter_append,
    filter_ne_quote h, List.filter_cons_of_neg (by decide), List.filter_nil, List.append_nil]

theorem hasKind_ofWord {w : List Char} (hne : w ≠ []) (hall : ∀ c ∈ w, isWordChar c = true) :
    HasKind (Kind.ofWord (String.ofList w)) w := by
  constructor
  · rcases ofWord_eq_ident_or (String.ofList w) with hident | ⟨hfixed, htext⟩
    · rw [hident]
      exact .name hne hall
    · have hspelled := Pattern.spelled hfixed
      rwa [← htext, String.toList_ofList] at hspelled
  · intro k hk
    obtain ⟨c, w, rfl⟩ := List.exists_cons_of_ne_nil hne
    exact (hk.of_isWordChar (hall c List.mem_cons_self)).2.symm

theorem text_injective {k k' : Kind} (h : k.isSign = true) (h' : k'.isSign = true)
    (htext : k.text.toList = k'.text.toList) : k = k' := by
  have hall : ∀ k ∈ Kind.all, ∀ k' ∈ Kind.all, k.isSign = true → k'.isSign = true →
      k.text.toList = k'.text.toList → k = k' := by decide +kernel
  exact hall k k.mem_all k' k'.mem_all h h' htext

theorem hasKind_of_isSign {k : Kind} {c : Char} {ds : List Char} (hs : k.isSign = true)
    (htext : k.text.toList = c :: ds) : HasKind k (c :: ds) := by
  have hfixed : k.isFixed = true := (Bool.and_eq_true_iff.1 hs).1
  obtain ⟨-, hword, hdigit, hquote⟩ := head_of_isSign hs htext
  refine ⟨htext ▸ .spelled hfixed, fun k' hk' => .inl ?_⟩
  obtain ⟨hs', htext'⟩ := hk'.of_sign hword hdigit hquote
  exact text_injective hs' hs (htext'.trans htext.symm)

theorem isSign_symbolKind {c : Char} (hword : isWordChar c = false)
    (h : symbolKind c ≠ .illegal) :
    (symbolKind c).isSign = true ∧ (symbolKind c).text.toList = [c] := by
  obtain ⟨hfixed, htext⟩ := (symbolKind_eq_illegal_or c).resolve_left h
  rw [← htext, String.toList_ofList]
  rcases isRun_or_isSign_of_isFixed hfixed with hrun | hsign
  · have hletter := (isWord_text hfixed hrun).1.2 c (by rw [← htext]; simp)
    rw [hword] at hletter
    cases hletter
  · exact ⟨hsign, rfl⟩

theorem isWord_symbolKind {c : Char} (hword : isWordChar c = false) :
    (symbolKind c).isWord = false := by
  by_cases h : symbolKind c = .illegal
  · rw [h]
    rfl
  · have hsign := (isSign_symbolKind hword h).1
    rw [Kind.isSign, Bool.and_eq_true, Bool.not_eq_true'] at hsign
    rw [Kind.isWord, hsign.2, Bool.false_and]

/-- A lexeme that is not illegal is a match, with the kind of the pattern once its word is looked up
among the keywords. -/
theorem Lexeme.Shape.exists_hasKind {l : Lexeme} (h : l.Shape) (hl : l.kind ≠ .illegal)
    (s : Span) : ∃ k, HasKind k l.text ∧
      (ofLexeme l s).classified = ⟨k, String.ofList (k.shown l.text), s⟩ := by
  have hother : HasKind l.kind l.text → l.kind ≠ .ident → l.literal = l.kind.shown l.text →
      ∃ k, HasKind k l.text ∧
        (ofLexeme l s).classified = ⟨k, String.ofList (k.shown l.text), s⟩ := by
    intro hkind hne hshown
    exact ⟨l.kind, hkind, by rw [classified_of_ne hne, ofLexeme, hshown]⟩
  cases h with
  | @word w rest hne hall hrest =>
      have hword : (wordKind w rest).isWord = true := isWord_wordKind w rest
      refine ⟨_, hasKind_ofWord hne hall, ?_⟩
      rw [shown_of_ne (ne_of_isWord isWord_of_ofWord rfl), ofLexeme,
        Lexeme.literal_of_ne (ne_of_isWord hword rfl), classified]
      change (if wordKind w rest = .ident then _ else _) = _
      split
      · rfl
      · rename_i hident
        unfold wordKind at hident ⊢
        split
        · rename_i hlike
          rw [if_pos hlike] at hident
          exact absurd rfl hident
        · rfl
  | @number ds rest hne hall hrest =>
      refine hother ⟨.number hne hall, fun k hk => .inl ?_⟩ Kind.noConfusion rfl
      obtain ⟨d, ds, rfl⟩ := List.exists_cons_of_ne_nil hne
      exact (hk.of_isDigit (hall d List.mem_cons_self)).2
  | @quoted body rest hbody =>
      refine hother ⟨.quoted hbody, fun k hk => .inl hk.of_quote.1⟩ Kind.noConfusion ?_
      rw [Lexeme.literal_quoted hbody, shown_quoted hbody]
  | @unclosed body hbody =>
      refine hother ⟨.unclosed hbody, fun k hk => .inl hk.of_quote.1⟩ Kind.noConfusion ?_
      rw [Lexeme.literal_unclosed hbody, shown_unclosed hbody]
  | eq =>
      have htext : Kind.eq.text.toList = ['=', '='] := by decide
      exact hother (hasKind_of_isSign rfl htext) Kind.noConfusion rfl
  | notEq =>
      have htext : Kind.notEq.text.toList = ['!', '='] := by decide
      exact hother (hasKind_of_isSign rfl htext) Kind.noConfusion rfl
  | @single c rest hword hdigit hquote hrest =>
      obtain ⟨hsign, htext⟩ := isSign_symbolKind hword hl
      have hne : ∀ k : Kind, k.isSign = false → symbolKind c ≠ k := by
        rintro k hk rfl
        rw [hk] at hsign
        cases hsign
      refine hother (hasKind_of_isSign hsign htext) (hne .ident rfl) ?_
      rw [Lexeme.literal_of_ne (hne .string rfl), shown_of_ne (hne .string rfl)]

/-- An illegal lexeme is one character. -/
theorem lexeme_of_illegal {c : Char} {cs : List Char} (h : (lexeme c cs).kind = .illegal) :
    lexeme c cs = ⟨.illegal, [c], cs⟩ := by
  have happend := lexeme_append c cs
  have hshape := shape_lexeme c cs
  generalize lexeme c cs = l at h happend hshape
  cases hshape with
  | @word w rest _ _ _ => exact absurd h (ne_of_isWord (isWord_wordKind w rest) rfl)
  | @single d rest _ _ _ _ =>
      obtain ⟨rfl, rfl⟩ := List.cons.inj happend
      rw [show symbolKind d = .illegal from h]
      rfl
  | _ => cases h

/-! ### Cutting a text -/

/-- A start of a text that is the longest match is the lexeme. -/
theorem Longest.eq_lexeme {c : Char} {ds rest : List Char}
    (h : Longest (c :: ds) (c :: ds ++ rest)) :
    (lexeme c (ds ++ rest)).text = c :: ds ∧ (lexeme c (ds ++ rest)).rest = rest ∧
      (lexeme c (ds ++ rest)).kind ≠ .illegal := by
  have hshape := shape_lexeme c (ds ++ rest)
  have happend := lexeme_append c (ds ++ rest)
  obtain ⟨k, hk⟩ := h.matched
  obtain ⟨hle, hkind⟩ := hshape.longest hk (by rw [happend]; exact h.starts)
  obtain ⟨k', hk', -⟩ := hshape.exists_hasKind hkind ⟨0, 0⟩
  have hstarts : (lexeme c (ds ++ rest)).text <+: c :: ds ++ rest := by
    rw [List.cons_append, ← happend]
    exact List.prefix_append _ _
  have hge := h.length_le hk'.1 hstarts
  obtain ⟨htext, hrest⟩ := List.append_inj (happend.trans (List.cons_append).symm) (by omega)
  exact ⟨htext, hrest, hkind⟩

/-- Where some pattern matches, the lexeme is the longest match. -/
theorem longest_lexeme {c : Char} {cs : List Char} (h : (lexeme c cs).kind ≠ .illegal) :
    Longest (lexeme c cs).text ((lexeme c cs).text ++ (lexeme c cs).rest) where
  starts := List.prefix_append _ _
  matched :=
    let ⟨k, hk, _⟩ := (shape_lexeme c cs).exists_hasKind h ⟨0, 0⟩
    ⟨k, hk.1⟩
  length_le hp ho := ((shape_lexeme c cs).longest hp ho).1

/-- A character is illegal exactly where no pattern matches. -/
theorem kind_lexeme_eq_illegal_iff {c : Char} {cs : List Char} :
    (lexeme c cs).kind = .illegal ↔ ∀ k text, Pattern k text → ¬ text <+: c :: cs := by
  constructor
  · intro h k text hp ho
    rw [← lexeme_append c cs] at ho
    exact ((shape_lexeme c cs).longest hp ho).2 h
  · intro hnone
    by_contra h
    obtain ⟨k, hk, -⟩ := (shape_lexeme c cs).exists_hasKind h ⟨0, 0⟩
    refine hnone k _ hk.1 ?_
    rw [← lexeme_append c cs]
    exact List.prefix_append _ _

theorem Cut.eq_scan {o : Nat} {cs : List Char} {ts : List Token} (h : Cut o cs ts) :
    ts = (scan o cs).map classified := by
  induction h with
  | nil => rw [scan, List.map_nil]
  | layout hlayout _ ih => rw [scan, if_pos hlayout, ih]
  | @matched o k text rest ts hlongest hkind _ ih =>
      obtain ⟨c, ds, rfl⟩ := List.exists_cons_of_ne_nil hkind.1.ne_nil
      obtain ⟨htext, hrest, hillegal⟩ := hlongest.eq_lexeme
      obtain ⟨k', hk', hclassified⟩ :=
        (shape_lexeme c (ds ++ rest)).exists_hasKind hillegal ⟨o, o + byteLength (c :: ds)⟩
      rw [htext] at hk' hclassified
      obtain rfl := hkind.unique hk'
      rw [List.cons_append, scan, if_neg (by rw [hkind.1.not_isLayout]; decide), List.map_cons,
        htext, hrest, ← ih, ← hclassified]
      rfl
  | @illegal o c cs ts hlayout hnone _ ih =>
      have hlexeme := lexeme_of_illegal (kind_lexeme_eq_illegal_iff.2 hnone)
      rw [scan, if_neg (by rw [hlayout]; decide), List.map_cons, hlexeme, byteLength_cons,
        byteLength_nil, Nat.add_zero, ← ih]
      rfl

theorem cut_scan (o : Nat) (cs : List Char) : Cut o cs ((scan o cs).map classified) := by
  fun_induction scan o cs with
  | case1 o => exact .nil
  | case2 o c cs hlayout ih => exact .layout hlayout ih
  | case3 o c cs hlayout l stop ih =>
      rw [List.map_cons]
      by_cases hillegal : l.kind = .illegal
      · have hlexeme : l = ⟨.illegal, [c], cs⟩ := lexeme_of_illegal hillegal
        have hstop : stop = o + c.utf8Size := by simp [stop, hlexeme]
        rw [hstop] at ih ⊢
        rw [hlexeme] at ih ⊢
        exact .illegal (Bool.not_eq_true _ ▸ hlayout) (kind_lexeme_eq_illegal_iff.1 hillegal) ih
      · obtain ⟨k, hk, hclassified⟩ :=
          (shape_lexeme c cs).exists_hasKind hillegal ⟨o, stop⟩
        have hcut := Cut.matched (longest_lexeme hillegal) hk ih
        rw [lexeme_append] at hcut
        change Cut o (c :: cs) ((ofLexeme l ⟨o, stop⟩).classified :: _)
        rw [hclassified]
        exact hcut

/-- **Scanning cuts by the longest match**, once the names that spell a keyword are taken for the
keyword. -/
theorem cut_iff {o : Nat} {cs : List Char} {ts : List Token} :
    Cut o cs ts ↔ ts = (scan o cs).map classified :=
  ⟨Cut.eq_scan, fun h => h ▸ cut_scan o cs⟩

/-! ### Keywords that are read as names -/

/-- A run of letters and underscores is a name where what follows begins like a letter, and else
what it spells. -/
theorem wordKind_of_mem_scan {o : Nat} {cs : List Char} {t : Token} (h : t ∈ scan o cs)
    (hk : t.kind.isWord = true) :
    ∃ before after, cs = before ++ (t.literal.toList ++ after) ∧
      t.span.start = o + byteLength before ∧ t.kind = wordKind t.literal.toList after := by
  obtain ⟨before, c, ds, rfl, rfl⟩ := exists_lexeme_of_mem_scan h
  have happend := lexeme_append c ds
  have hshape := shape_lexeme c ds
  have hliteral : (lexeme c ds).literal = (lexeme c ds).text :=
    Lexeme.literal_of_ne (ne_of_isWord hk rfl)
  refine ⟨before, (lexeme c ds).rest, ?_, rfl, ?_⟩
  · rw [Lexeme.tokenAt, ofLexeme, String.toList_ofList, hliteral, happend]
  · rw [Lexeme.tokenAt, ofLexeme, String.toList_ofList, hliteral]
    change (lexeme c ds).kind.isWord = true at hk
    generalize lexeme c ds = l at hk hshape
    cases hshape with
    | word => rfl
    | @single d rest hword _ _ _ =>
        have hnot := isWord_symbolKind hword
        rw [show (symbolKind d).isWord = true from hk] at hnot
        cases hnot
    | _ => cases hk

end Token

open Token

/-- The tokens of a text by the rule of the longest match. -/
def LongestMatch (source : String) (ts : List Token) : Prop :=
  Cut 0 source.toList ts

/-- **The tokens of a text are its longest matches.**  Their kinds are those of the patterns, except
that a keyword is a name directly before a character that begins, in UTF-8, like a letter. -/
theorem longest_match_iff (source : String) :
    (∀ ts, LongestMatch source ts ↔ ts = (tokens source).map Token.classified) ∧
    (LongestMatch source (tokens source) ↔
      ∀ t ∈ tokens source, t.kind = .ident → Kind.ofWord t.literal = .ident) ∧
    ∀ t ∈ tokens source, t.kind.isWord = true →
      ∃ before after, source.toList = before ++ (t.literal.toList ++ after) ∧
        t.span.start = Text.byteLength before ∧
        t.kind = if after.head?.any Text.beginsLikeLetter then .ident else .ofWord t.literal := by
  have hcut : ∀ ts, LongestMatch source ts ↔ ts = (tokens source).map Token.classified :=
    fun ts => cut_iff
  refine ⟨hcut, ?_, fun t ht hk => ?_⟩
  · rw [hcut, eq_comm]
    nth_rewrite 2 [← List.map_id (tokens source)]
    rw [List.map_inj_left]
    simp only [id_eq, classified_eq_self_iff]
  · obtain ⟨before, after, hsource, hstart, hkind⟩ := wordKind_of_mem_scan ht hk
    rw [wordKind, String.ofList_toList] at hkind
    exact ⟨before, after, hsource, by rw [hstart, Nat.zero_add], hkind⟩

/-- Names, keywords and signs side by side, and a keyword before a no-break space. -/
theorem longest_match_iff_words :
    LongestMatch "lets==!let" (tokens "lets==!let") ∧
      ⟨.ident, "let", ⟨1, 4⟩⟩ ∈ tokens "!let\u00a0" ∧
      ∃ before after, "!let\u00a0".toList = before ++ ("let".toList ++ after) ∧
        1 = Text.byteLength before ∧
        Kind.ident = if after.head?.any Text.beginsLikeLetter then .ident else .ofWord "let" := by
  have hmem : ⟨.ident, "let", ⟨1, 4⟩⟩ ∈ tokens "!let\u00a0" := by decide +kernel
  exact ⟨(longest_match_iff "lets==!let").2.1.2 (by decide +kernel), hmem,
    (longest_match_iff "!let\u00a0").2.2 _ hmem rfl⟩

/-- The longest match before the no-break space is the keyword, but the token is a name. -/
theorem not_longest_match_let : ¬ LongestMatch "let\u00a0" (tokens "let\u00a0") := by
  rw [LongestMatch, cut_iff]
  decide +kernel

end Treewalk
