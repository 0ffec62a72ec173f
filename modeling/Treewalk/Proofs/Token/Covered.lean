import Treewalk.Proofs.Syntax.Completeness
import Treewalk.Proofs.Token.Shape
import Treewalk.Syntax.Render

/-! # What the tokens of a text cover

The tokens of a text stand one after the other, each where its span says, and only layout is left
between them (`tokens_cover`).

* `Span.Cuts` says that a span cuts a text between characters, and into what.
* `Token.Displays` says what a token shows of its stretch: all of it, but for the quotes of a string.
* `Reading.takeTokens` takes tokens one after the other.  Behind the last one it takes the token that
  marks the end, as often as it is asked to. -/

namespace Treewalk

/-- A span cuts a text into what stands before it, its stretch, and what stands after it. -/
structure Span.Cuts (s : Span) (source before text after : String) : Prop where
  joined : source = before ++ text ++ after
  start : before.utf8ByteSize = s.start
  stop : (before ++ text).utf8ByteSize = s.stop

/-- A token shows a stretch of a text.  A string shows what stands between its quotes, of which the
closing one is missing only where the text ends. -/
def Token.Displays (t : Token) (text after : String) : Prop :=
  if t.kind = .string then
    '"' ∉ t.literal.toList ∧
      (text = quoted t.literal ∨ text = "\"" ++ t.literal ∧ after = "")
  else t.literal = text

namespace Token

open Text

variable {o : Nat} {cs : List Char} {t : Token}

theorem displays_tokenAt {l : Lexeme} (h : l.Shape) (o : Nat) :
    (l.tokenAt o).Displays (String.ofList l.text) (String.ofList l.rest) := by
  unfold Displays
  by_cases hk : l.kind = .string
  · rw [if_pos (show (l.tokenAt o).kind = .string from hk)]
    have hliteral : (l.tokenAt o).literal = String.ofList l.literal := rfl
    rw [hliteral, String.toList_ofList]
    cases h with
    | @word w rest _ _ _ => exact absurd hk (ne_of_isWord (isWord_wordKind w rest) rfl)
    | @quoted body rest hbody =>
        rw [Lexeme.literal_quoted hbody]
        refine ⟨hbody, .inl ?_⟩
        rw [quoted, ← List.singleton_append, String.ofList_append, String.ofList_append,
          String.append_assoc]
    | @unclosed body hbody =>
        rw [Lexeme.literal_unclosed hbody]
        refine ⟨hbody, .inr ⟨?_, rfl⟩⟩
        rw [← List.singleton_append, String.ofList_append]
    | @single c rest _ _ _ _ => exact absurd hk (symbolKind_ne_string c)
    | _ => cases hk
  · rw [if_neg (show (l.tokenAt o).kind ≠ .string from hk)]
    exact congrArg String.ofList (Lexeme.literal_of_ne hk)

/-! ### Where the tokens stand -/

/-- A token of a text stands where its span says, and shows what stands there. -/
theorem exists_stretch_of_mem_scan (h : t ∈ scan o cs) :
    ∃ before text after, cs = before ++ text ++ after ∧ text ≠ [] ∧
      t.span = ⟨o + byteLength before, o + byteLength before + byteLength text⟩ ∧
      t.Displays (String.ofList text) (String.ofList after) := by
  obtain ⟨before, c, ds, rfl, rfl⟩ := exists_lexeme_of_mem_scan h
  refine ⟨before, (lexeme c ds).text, (lexeme c ds).rest, ?_, lexeme_text_ne_nil c ds, rfl,
    displays_tokenAt (shape_lexeme c ds) _⟩
  rw [List.append_assoc, lexeme_append]

theorem byteLength_pos {cs : List Char} (h : cs ≠ []) : 0 < byteLength cs := by
  have hlength := List.length_pos_iff.2 h
  have hle := length_le_byteLength cs
  omega

/-- A token takes at least one byte of the text. -/
theorem bounds_of_mem_scan (h : t ∈ scan o cs) :
    o ≤ t.span.start ∧ t.span.start < t.span.stop ∧ t.span.stop ≤ o + byteLength cs := by
  obtain ⟨before, text, after, rfl, hne, hspan, -⟩ := exists_stretch_of_mem_scan h
  have hpos := byteLength_pos hne
  rw [hspan]
  simp only [byteLength_append]
  omega

/-- The tokens of a text follow each other. -/
theorem pairwise_scan (o : Nat) (cs : List Char) :
    (scan o cs).Pairwise fun t u => t.span.stop ≤ u.span.start := by
  fun_induction scan o cs with
  | case1 o => exact .nil
  | case2 o c cs hlayout ih => exact ih
  | case3 o c cs hlayout l stop ih =>
      exact List.pairwise_cons.2 ⟨fun u hu => (bounds_of_mem_scan hu).1, ih⟩

/-- The byte at an offset belongs to a token. -/
def Covers (t : Token) (offset : Nat) : Prop :=
  t.span.start ≤ offset ∧ offset < t.span.stop

instance (t : Token) (offset : Nat) : Decidable (t.Covers offset) :=
  inferInstanceAs (Decidable (_ ∧ _))

/-- A character that belongs to no token is layout. -/
theorem isLayout_of_not_covers {before after : List Char} {c : Char}
    (hcs : cs = before ++ c :: after)
    (h : ∀ t ∈ scan o cs, ¬ t.Covers (o + byteLength before)) : isLayout c = true := by
  fun_induction scan o cs generalizing before with
  | case1 o => simp at hcs
  | case2 o d cs hlayout ih =>
      cases before with
      | nil =>
          obtain ⟨rfl, -⟩ := List.cons.inj hcs
          exact hlayout
      | cons b before =>
          obtain ⟨rfl, htail⟩ := List.cons.inj hcs
          refine ih htail fun t ht => ?_
          have hnot := h t ht
          rwa [byteLength_cons, ← Nat.add_assoc] at hnot
  | case3 o d cs hlayout l stop =>
      rename_i ih
      -- The character stands within the first lexeme, which covers it, or behind it.
      have hhead := h _ List.mem_cons_self
      have hsplit : l.text ++ l.rest = before ++ c :: after := (lexeme_append d cs).trans hcs
      rcases List.append_eq_append_iff.1 hsplit with ⟨more, hbefore, hrest⟩ | ⟨more, htext, hrest⟩
      · refine ih hrest fun t ht => ?_
        have hnot := h t (List.mem_cons_of_mem _ ht)
        rwa [hbefore, byteLength_append, ← Nat.add_assoc] at hnot
      · cases more with
        | nil =>
            refine ih (show l.rest = [] ++ c :: after from hrest.symm) fun t ht => ?_
            have hnot := h t (List.mem_cons_of_mem _ ht)
            rw [List.append_nil] at htext
            rwa [← htext] at hnot
        | cons e more =>
            refine absurd ⟨Nat.le_add_right o _, ?_⟩ hhead
            show o + byteLength before < o + byteLength l.text
            have hpos := Char.utf8Size_pos e
            rw [htext, byteLength_append, byteLength_cons]
            omega

end Token

namespace Reading

open Cursor

/-- Takes a number of tokens, one after the other. -/
def takeTokens : Nat → Reading (List Token)
  | 0 => return []
  | n + 1 => do
    let t ← advance
    let ts ← takeTokens n
    return t :: ts

theorem yields_takeTokens (ts : List Token) (finish : Token) (es : List SyntaxError) (k : Nat) :
    Yields (takeTokens (ts.length + k)) ⟨ts, finish, es⟩ (ts ++ List.replicate k finish)
      ⟨[], finish, es⟩ := by
  induction ts with
  | nil =>
      rw [List.length_nil, Nat.zero_add, List.nil_append]
      induction k with
      | zero => rfl
      | succ k ih =>
          have htake : Yields advance ⟨[], finish, es⟩ finish ⟨[], finish, es⟩ := rfl
          exact htake.bind (ih.bind rfl)
  | cons t ts ih =>
      have htake : Yields advance ⟨t :: ts, finish, es⟩ t ⟨ts, finish, es⟩ := rfl
      rw [List.length_cons, Nat.add_right_comm]
      exact htake.bind (ih.bind rfl)

end Reading

open Token Text Reading

/-- The span of a token cuts the text between characters. -/
theorem exists_cuts_of_mem_tokens {source : String} {t : Token} (h : t ∈ tokens source) :
    ∃ before text after, t.span.Cuts source before text after ∧ t.Displays text after := by
  obtain ⟨before, text, after, hsource, -, hspan, hshown⟩ := exists_stretch_of_mem_scan h
  refine ⟨.ofList before, .ofList text, .ofList after, ⟨?_, ?_, ?_⟩, hshown⟩
  · rw [← String.ofList_append, ← String.ofList_append, ← hsource, String.ofList_toList]
  · rw [utf8ByteSize_ofList, hspan, Nat.zero_add]
  · rw [String.utf8ByteSize_append, utf8ByteSize_ofList, utf8ByteSize_ofList, hspan, Nat.zero_add]

/-- **Nothing of a text is lost in its tokens.**  They stand one after the other, each on a stretch of
at least one byte that begins and ends between characters, and show it; what no token covers are
spaces, tabs, newlines and carriage returns; and behind them there is the end of the text, however
often one asks. -/
theorem tokens_cover (source : String) :
    (∀ t ∈ tokens source, t.span.start < t.span.stop ∧
      ∃ before text after, t.span.Cuts source before text after ∧ t.Displays text after) ∧
    ((tokens source).Pairwise fun t u => t.span.stop ≤ u.span.start) ∧
    (∀ before c after, source.toList = before ++ c :: after →
      (∀ t ∈ tokens source, ¬ t.Covers (byteLength before)) →
      c = ' ' ∨ c = '\t' ∨ c = '\n' ∨ c = '\r') ∧
    ∀ k, ∃ c, Yields (takeTokens ((tokens source).length + k)) (startCursor source)
      (tokens source ++
        List.replicate k ⟨.eof, "", ⟨source.utf8ByteSize, source.utf8ByteSize⟩⟩) c := by
  refine ⟨fun t ht => ⟨(bounds_of_mem_scan ht).2.1, exists_cuts_of_mem_tokens ht⟩,
    pairwise_scan 0 _, ?_, fun k => ?_⟩
  · intro before c after hsource hcovers
    refine isLayout_iff.1 (isLayout_of_not_covers (o := 0) hsource fun t ht => ?_)
    rw [Nat.zero_add]
    exact hcovers t ht
  · exact ⟨_, yields_takeTokens (tokens source) (endToken source) [] k⟩

/-- An illegal character of three bytes, layout, and a string without a closing quote. -/
theorem tokens_cover_unclosed :
    ⟨.string, "b ", ⟨4, 7⟩⟩ ∈ tokens "→ \"b " ∧
      (∃ before text after, (⟨4, 7⟩ : Span).Cuts "→ \"b " before text after ∧
        Displays ⟨.string, "b ", ⟨4, 7⟩⟩ text after) ∧
      "→ \"b ".toList = ['→'] ++ ' ' :: ['"', 'b', ' '] ∧
      (∀ t ∈ tokens "→ \"b ", ¬ t.Covers (byteLength ['→'])) ∧
      (' ' = ' ' ∨ ' ' = '\t' ∨ ' ' = '\n' ∨ ' ' = '\r') := by
  have htokens : tokens "→ \"b " = [⟨.illegal, "→", ⟨0, 3⟩⟩, ⟨.string, "b ", ⟨4, 7⟩⟩] := by
    decide +kernel
  have hmem : ⟨.string, "b ", ⟨4, 7⟩⟩ ∈ tokens "→ \"b " := by
    rw [htokens]
    exact List.mem_cons_of_mem _ List.mem_cons_self
  have hcovers : ∀ t ∈ tokens "→ \"b ", ¬ t.Covers (byteLength ['→']) := by
    rw [htokens]
    decide
  have hcover := tokens_cover "→ \"b "
  exact ⟨hmem, (hcover.1 _ hmem).2, rfl, hcovers, hcover.2.2.1 ['→'] ' ' ['"', 'b', ' '] rfl hcovers⟩

end Treewalk
