import Treewalk.Proofs.Token.Longest
import Treewalk.Text.Blank

/-! # The beginning of a text

A text that goes on has the tokens that its beginning has, up to the last one (`tokens_beginning`).

* Where the last token of the beginning starts, scanning the whole text can be resumed
  (`exists_resumed`): no token depends on what stands behind the character after it.
* The last token does not get shorter (`text_lexeme_le`).  It stays as it is if it is closed and
  what follows cannot go on with it (`scan_append_of_parts`), which nothing can behind white space.
* A word at the end goes on with the letters and underscores that follow (`scan_append_word`), and
  behind anything else they are a token of their own (`scan_append_run`).
* A text ends inside a string just when it has an odd number of quotes (`any_isUnclosed_iff`). -/

namespace Treewalk

namespace Token

open Text

variable {o : Nat} {c : Char} {cs ds : List Char} {ts : List Token} {t : Token}

/-! ### One lexeme -/

/-- A lexeme does not get shorter when the text goes on. -/
theorem text_lexeme_le (c : Char) (cs ds : List Char) :
    (lexeme c cs).text <+: (lexeme c (cs ++ ds)).text := by
  have hlong := lexeme_append c (cs ++ ds)
  have hstarts : (lexeme c cs).text <+: c :: (cs ++ ds) := by
    rw [← List.cons_append, ← lexeme_append c cs, List.append_assoc]
    exact List.prefix_append _ _
  have hstarts' : (lexeme c (cs ++ ds)).text <+: c :: (cs ++ ds) := by
    rw [← hlong]
    exact List.prefix_append _ _
  refine List.prefix_of_prefix_length_le hstarts hstarts' ?_
  by_cases hillegal : (lexeme c cs).kind = .illegal
  · rw [lexeme_of_illegal hillegal]
    exact List.length_pos_iff.2 (lexeme_text_ne_nil c (cs ++ ds))
  · obtain ⟨k, hk, -⟩ := (shape_lexeme c cs).exists_hasKind hillegal ⟨0, 0⟩
    rw [← hlong] at hstarts
    exact ((shape_lexeme c (cs ++ ds)).longest hk.1 hstarts).1

/-- At a character that starts neither a word nor a number nor a string there is a sign of one or two
characters, or an illegal character. -/
theorem lexeme_eq_symbolLexeme (hword : isWordChar c = false) (hdigit : c.isDigit = false)
    (hquote : c ≠ '"') (cs : List Char) : lexeme c cs = symbolLexeme c cs := by
  rw [lexeme, hword, hdigit, if_neg Bool.false_ne_true, if_neg Bool.false_ne_true, if_neg hquote]

/-- Before anything but an equals sign a character is a lexeme of its own, and so is one that starts
no sign of two characters. -/
theorem symbolLexeme_of_parts (h : c = '=' ∨ c = '!' → ds.head? ≠ some '=') :
    symbolLexeme c ds = ⟨symbolKind c, [c], ds⟩ := by
  unfold symbolLexeme
  split
  · have hne := not_or.1 fun hc => h hc rfl
    rw [if_neg hne.1, if_neg hne.2]
  · rfl

/-- A lexeme that ends with a text stays as it is when the text goes on, unless it is a string that
is left open or what follows goes on with it. -/
theorem lexeme_append_of_parts (hrest : (lexeme c cs).rest = [])
    (hclosed : ((lexeme c cs).tokenAt o).isUnclosed = false)
    (hparts : ((lexeme c cs).tokenAt o).EndsBefore ds) :
    lexeme c (cs ++ ds) = (lexeme c cs).followedBy ds := by
  have hshape := shape_lexeme c cs
  have happend := lexeme_append c cs
  generalize lexeme c cs = l at *
  obtain ⟨k, text, rest⟩ := l
  obtain rfl : rest = [] := hrest
  obtain rfl : text = c :: cs := by rwa [List.append_nil] at happend
  -- what can follow depends on the shape
  cases hshape with
  | word _ hall _ =>
      rw [List.forall_mem_cons] at hall
      have hafter : ∀ d, ds.head? = some d → isWordChar d = false ∧ beginsLikeLetter d = false :=
        fun d hd => (hparts d hd).word (isWord_wordKind (c :: cs) [])
      obtain ⟨htake, hdrop⟩ := takeWhile_append_of_head hall.2 fun d hd => (hafter d hd).1
      have hkind : wordKind (c :: cs) ds = wordKind (c :: cs) [] := by
        rw [wordKind, wordKind]
        cases hd : ds.head? with
        | none => rfl
        | some d => simp [(hafter d hd).2]
      rw [lexeme, if_pos hall.1, htake, hdrop]
      exact congrArg (Lexeme.mk · (c :: cs) ds) hkind
  | number _ hall _ =>
      rw [List.forall_mem_cons] at hall
      have hafter : ∀ d, ds.head? = some d → d.isDigit = false := fun d hd => (hparts d hd).int rfl
      obtain ⟨htake, hdrop⟩ := takeWhile_append_of_head hall.2 hafter
      rw [lexeme, not_isWordChar_of_isDigit hall.1, if_neg Bool.false_ne_true, if_pos hall.1, htake,
        hdrop]
      rfl
  | @quoted body _ hbody =>
      have hafter : ∀ d, ('"' :: ds).head? = some d → decide (d ≠ '"') = false := by
        rintro d hd
        obtain rfl := Option.some.inj hd
        rfl
      obtain ⟨htake, hdrop⟩ := takeWhile_append_of_head (forall_ne_quote hbody) hafter
      have hquote : lexeme '"' (body ++ '"' :: ds) = stringLexeme (body ++ '"' :: ds) := rfl
      rw [List.append_assoc, List.singleton_append, hquote, stringLexeme, htake, hdrop]
      rfl
  | unclosed hbody =>
      rw [isUnclosed_unclosed hbody] at hclosed
      cases hclosed
  | eq => rfl
  | notEq => rfl
  | single hword hdigit hquote _ =>
      rw [List.nil_append, lexeme_eq_symbolLexeme hword hdigit hquote]
      refine symbolLexeme_of_parts fun hc hd => (hparts '=' hd).sign ?_ rfl
      rcases hc with rfl | rfl
      · exact .inl rfl
      · exact .inr rfl

/-! ### Scanning -/

theorem isLayout_of_scan_eq_nil (h : scan o cs = []) : ∀ d ∈ cs, isLayout d = true := by
  fun_induction scan o cs with
  | case1 o => simp
  | case2 o c cs hlayout ih => exact List.forall_mem_cons.2 ⟨hlayout, ih h⟩
  | case3 o c cs hlayout l stop => cases h

/-- Layout is passed over. -/
theorem scan_append_layout (h : ∀ d ∈ cs, isLayout d = true) (o : Nat) (ds : List Char) :
    scan o (cs ++ ds) = scan (o + byteLength cs) ds := by
  induction cs generalizing o with
  | nil => rfl
  | cons c cs ih =>
      rw [List.forall_mem_cons] at h
      rw [List.cons_append, scan, if_pos h.1, ih h.2, byteLength_cons, Nat.add_assoc]

theorem scan_of_lexeme (hlayout : isLayout c = false) (o : Nat) (cs : List Char) :
    scan o (c :: cs) = (lexeme c cs).tokenAt o ::
      scan (o + byteLength (lexeme c cs).text) (lexeme c cs).rest := by
  rw [scan, hlayout, if_neg Bool.false_ne_true]
  rfl

/-- **Scanning can be resumed at the last token.**  Whatever follows a text, its tokens but for the
last one are as they were, and scanning comes to where the last one starts. -/
theorem exists_resumed (h : scan o cs = ts ++ [t]) :
    ∃ before c es, cs = before ++ c :: es ∧ isLayout c = false ∧
      t = (lexeme c es).tokenAt (o + byteLength before) ∧
      (∀ d ∈ (lexeme c es).rest, isLayout d = true) ∧
      ∀ ds, scan o (cs ++ ds) = ts ++ scan (o + byteLength before) (c :: (es ++ ds)) := by
  fun_induction scan o cs generalizing ts with
  | case1 o => simp at h
  | case2 o c cs hlayout ih =>
      obtain ⟨before, d, es, rfl, hd, ht, hrest, hscan⟩ := ih h
      refine ⟨c :: before, d, es, rfl, hd, ?_, hrest, fun ds => ?_⟩
      · rw [ht, byteLength_cons, Nat.add_assoc]
      · rw [List.cons_append, scan, if_pos hlayout, hscan, byteLength_cons, Nat.add_assoc]
  | case3 o c cs hlayout l stop =>
      rename_i ih
      rw [Bool.not_eq_true] at hlayout
      cases ts with
      | nil =>
          obtain ⟨rfl, hnil⟩ := List.cons.inj h
          exact ⟨[], c, cs, rfl, hlayout, rfl, isLayout_of_scan_eq_nil hnil, fun ds => rfl⟩
      | cons u ts =>
          obtain ⟨rfl, htail⟩ := List.cons.inj h
          obtain ⟨before, d, es, hcs, hd, ht, hrest, hscan⟩ := ih htail
          have happend : l.text ++ l.rest = c :: cs := lexeme_append c cs
          refine ⟨l.text ++ before, d, es, ?_, hd, ?_, hrest, fun ds => ?_⟩
          · rw [← happend, hcs, List.append_assoc]
          · rw [ht, byteLength_append, ← Nat.add_assoc]
          · -- there is a token behind this one, so this one does not end with the text
            have hne : l.rest ≠ [] := by rw [hcs]; simp
            have hlexeme : lexeme c (cs ++ ds) = l.followedBy ds := lexeme_append_right hne ds
            rw [List.cons_append, scan_of_lexeme hlayout, hlexeme]
            change l.tokenAt o :: scan stop (l.rest ++ ds) = _
            rw [hscan, byteLength_append, ← Nat.add_assoc]
            rfl

/-- A last token that ends with the text is all that is left of the text. -/
theorem exists_resumed_at_end (h : scan o cs = ts ++ [t]) (hstop : t.span.stop = o + byteLength cs) :
    ∃ before c es, cs = before ++ c :: es ∧ t = (lexeme c es).tokenAt (o + byteLength before) ∧
      (lexeme c es).text = c :: es ∧ (lexeme c es).rest = [] ∧
      ∀ ds, scan o (cs ++ ds) = ts ++ scan (o + byteLength before) (c :: (es ++ ds)) := by
  obtain ⟨before, c, es, rfl, -, rfl, -, hscan⟩ := exists_resumed h
  have happend := lexeme_append c es
  have hrest : (lexeme c es).rest = [] := by
    have hlength := congrArg byteLength happend
    rw [byteLength_append] at hlength
    change o + byteLength before + byteLength (lexeme c es).text = _ at hstop
    rw [byteLength_append, ← hlength] at hstop
    have hle := length_le_byteLength (lexeme c es).rest
    exact List.eq_nil_of_length_eq_zero (by omega)
  rw [hrest, List.append_nil] at happend
  exact ⟨before, c, es, rfl, rfl, happend, hrest, hscan⟩

/-- Tokens stay as they are when the text goes on, unless the last one ends with the text and is left
open or gone on with. -/
theorem scan_append_of_parts
    (h : ∀ t, (scan o cs).getLast? = some t → t.span.stop = o + byteLength cs →
      t.isUnclosed = false ∧ t.EndsBefore ds) :
    scan o (cs ++ ds) = scan o cs ++ scan (o + byteLength cs) ds := by
  rcases List.eq_nil_or_concat' (scan o cs) with hnil | ⟨ts, t, hconcat⟩
  · rw [hnil, List.nil_append, scan_append_layout (isLayout_of_scan_eq_nil hnil)]
  obtain ⟨before, c, es, rfl, hlayout, rfl, hrest, hscan⟩ := exists_resumed hconcat
  have happend := lexeme_append c es
  have hlength : byteLength (before ++ c :: es) = byteLength before +
      (byteLength (lexeme c es).text + byteLength (lexeme c es).rest) := by
    rw [← happend, byteLength_append, byteLength_append]
  have hlexeme : lexeme c (es ++ ds) = (lexeme c es).followedBy ds := by
    by_cases hnil : (lexeme c es).rest = []
    · have hend := h _ (by rw [hconcat, List.getLast?_concat]) (by
        rw [hlength, hnil, byteLength_nil, Nat.add_zero, ← Nat.add_assoc]
        rfl)
      exact lexeme_append_of_parts hnil hend.1 hend.2
    · exact lexeme_append_right hnil ds
  rw [hscan, hconcat, scan_of_lexeme hlayout, hlexeme, hlength, ← Nat.add_assoc, ← Nat.add_assoc,
    List.append_assoc]
  change ts ++ (lexeme c es).tokenAt _ :: scan _ ((lexeme c es).rest ++ ds) = _
  rw [scan_append_layout hrest]
  rfl

/-! ### Quotes -/

/-- A lexeme has one quote if it is a string that is left open, which ends with the text, and else
none or two. -/
theorem Lexeme.Shape.count_quote {l : Lexeme} (h : l.Shape) (o : Nat) :
    ((l.tokenAt o).isUnclosed = true ∧ l.rest = [] ∧ l.text.count '"' = 1) ∨
      ((l.tokenAt o).isUnclosed = false ∧ l.text.count '"' % 2 = 0) := by
  have hnone : ∀ {p : Char → Bool} {text : List Char}, p '"' = false →
      (∀ c ∈ text, p c = true) → text.count '"' % 2 = 0 := by
    intro p text hp hall
    rw [List.count_eq_zero.2]
    intro hmem
    rw [hall _ hmem] at hp
    cases hp
  cases h with
  | @word w rest _ hall _ =>
      refine .inr ⟨isUnclosed_of_ne ?_, hnone (by decide) hall⟩
      exact ne_of_isWord (isWord_wordKind w rest) rfl
  | number _ hall _ => exact .inr ⟨rfl, hnone (by decide) hall⟩
  | quoted hbody =>
      refine .inr ⟨isUnclosed_quoted hbody _ _, ?_⟩
      simp [List.count_append, List.count_eq_zero.2 hbody]
  | unclosed hbody =>
      exact .inl ⟨isUnclosed_unclosed hbody _, rfl, by simp [List.count_eq_zero.2 hbody]⟩
  | eq => exact .inr ⟨rfl, rfl⟩
  | notEq => exact .inr ⟨rfl, rfl⟩
  | @single c rest _ _ hquote _ =>
      refine .inr ⟨isUnclosed_of_ne (symbolKind_ne_string c), ?_⟩
      rw [List.count_singleton, if_neg (by simpa using hquote)]

/-- A text ends inside a string just when it has an odd number of quotes. -/
theorem any_isUnclosed_iff (o : Nat) (cs : List Char) :
    (scan o cs).getLast?.any isUnclosed = true ↔ cs.count '"' % 2 = 1 := by
  fun_induction scan o cs with
  | case1 o => simp
  | case2 o c cs hlayout ih =>
      have hne : c ≠ '"' := by
        rintro rfl
        cases hlayout
      rw [ih, List.count_cons_of_ne hne]
  | case3 o c cs hlayout l stop ih =>
      have hsplit : (c :: cs).count '"' = l.text.count '"' + l.rest.count '"' := by
        rw [← List.count_append, lexeme_append]
      change ((l.tokenAt o :: scan stop l.rest).getLast?.any isUnclosed) = true ↔ _
      rw [hsplit]
      rcases (shape_lexeme c cs).count_quote o with ⟨hopen, hrest, hcount⟩ | ⟨hclosed, hcount⟩
      · rw [show l.rest = [] from hrest, show l.text.count '"' = 1 from hcount, scan]
        simpa using hopen
      · rw [any_isUnclosed_cons hclosed, ih]
        have heven : l.text.count '"' % 2 = 0 := hcount
        omega

/-! ### Words at the end -/

theorem Lexeme.Shape.isWordChar_of_isWord {l : Lexeme} (h : l.Shape) (hk : l.kind.isWord = true) :
    ∀ c ∈ l.text, isWordChar c = true := by
  cases h with
  | word _ hall _ => exact hall
  | single hword _ _ _ =>
      have hnot := isWord_symbolKind hword
      rw [hnot] at hk
      cases hk
  | _ => cases hk

/-- A run of letters and underscores with nothing behind it is one token. -/
theorem scan_word {w : List Char} (hne : w ≠ []) (hall : ∀ c ∈ w, isWordChar c = true) (o : Nat) :
    scan o w = [⟨Kind.ofWord (String.ofList w), String.ofList w, ⟨o, o + byteLength w⟩⟩] := by
  obtain ⟨c, cs, rfl⟩ := List.exists_cons_of_ne_nil hne
  have hall' := List.forall_mem_cons.1 hall
  have htake : cs.takeWhile isWordChar = cs := List.takeWhile_eq_self_iff.2 hall'.2
  have hdrop : cs.dropWhile isWordChar = [] := List.dropWhile_eq_nil_iff.2 hall'.2
  have hlexeme : lexeme c cs = ⟨Kind.ofWord (String.ofList (c :: cs)), c :: cs, []⟩ := by
    rw [lexeme, if_pos hall'.1, htake, hdrop]
    rfl
  have hne : Kind.ofWord (String.ofList (c :: cs)) ≠ .string := ne_of_isWord isWord_of_ofWord rfl
  rw [scan_of_lexeme (not_isLayout_of_isWordChar hall'.1), hlexeme, scan, Lexeme.tokenAt, ofLexeme,
    Lexeme.literal_of_ne hne]

/-- A word that ends with a text is one token with the letters and underscores that are put behind
it. -/
theorem scan_append_word (h : scan o cs = ts ++ [t]) (hk : t.kind.isWord = true)
    (hstop : t.span.stop = o + byteLength cs) (hds : ∀ c ∈ ds, isWordChar c = true) :
    scan o (cs ++ ds) = ts ++
      [⟨Kind.ofWord (t.literal ++ String.ofList ds), t.literal ++ String.ofList ds,
        ⟨t.span.start, o + byteLength (cs ++ ds)⟩⟩] := by
  obtain ⟨before, c, es, rfl, rfl, htext, -, hscan⟩ := exists_resumed_at_end h hstop
  have hall := (shape_lexeme c es).isWordChar_of_isWord hk
  rw [htext] at hall
  have hliteral : ((lexeme c es).tokenAt (o + byteLength before)).literal ++ String.ofList ds =
      String.ofList (c :: (es ++ ds)) := by
    change String.ofList (lexeme c es).literal ++ _ = _
    rw [Lexeme.literal_of_ne (ne_of_isWord hk rfl), htext, ← String.ofList_append,
      List.cons_append]
  have hword : ∀ d ∈ c :: (es ++ ds), isWordChar d = true := by
    rw [← List.cons_append, List.forall_mem_append]
    exact ⟨hall, hds⟩
  rw [hscan, scan_word (List.cons_ne_nil _ _) hword, hliteral, List.append_assoc, List.cons_append,
    byteLength_append, ← Nat.add_assoc]
  rfl

/-- A run of letters and underscores that starts behind another character, and not within a string, is
a token of its own. -/
theorem scan_append_run {w : List Char} (hclosed : (scan o cs).getLast?.any isUnclosed = false)
    (hlast : ∀ c, cs.getLast? = some c → isWordChar c = false) (hne : w ≠ [])
    (hall : ∀ c ∈ w, isWordChar c = true) :
    scan o (cs ++ w) = scan o cs ++ [⟨Kind.ofWord (String.ofList w), String.ofList w,
      ⟨o + byteLength cs, o + byteLength cs + byteLength w⟩⟩] := by
  rw [scan_append_of_parts, scan_word hne hall]
  intro t ht hstop
  rw [ht] at hclosed
  refine ⟨hclosed, fun d hd => ?_⟩
  have hd' : isWordChar d = true := hall d (List.mem_of_mem_head? hd)
  refine ⟨fun hk => ?_, fun _ => not_isDigit_of_isWordChar hd', fun _ => ?_⟩
  · obtain ⟨ts, hconcat⟩ := List.getLast?_eq_some_iff.1 ht
    obtain ⟨before, c, es, rfl, rfl, htext, -, -⟩ := exists_resumed_at_end hconcat hstop
    have hword := (shape_lexeme c es).isWordChar_of_isWord hk
    rw [htext] at hword
    have hend := hlast _ (List.getLast?_append_of_ne_nil before (List.cons_ne_nil c es) ▸
      List.getLast?_eq_some_getLast (List.cons_ne_nil c es))
    rw [hword _ (List.getLast_mem _)] at hend
    cases hend
  · rintro rfl
    cases hd'

/-! ### White space -/

theorem toNat_of_isAlpha (h : c.isAlpha = true) : 65 ≤ c.toNat ∧ c.toNat ≤ 122 := by
  have hranges : (decide ('A'.val ≤ c.val ∧ c.val ≤ 'Z'.val) ||
      ('a'.val ≤ c.val && c.val ≤ 'z'.val)) = true := h
  simp only [Bool.or_eq_true, Bool.and_eq_true, decide_eq_true_eq, UInt32.le_iff_toNat_le] at hranges
  change (65 ≤ c.toNat ∧ c.toNat ≤ 90) ∨ (97 ≤ c.toNat ∧ c.toNat ≤ 122) at hranges
  omega

/-- The code points of white space lie between those of letters and digits. -/
theorem apart_of_mem_blankRanges {r : Nat × Nat} (h : r ∈ blankRanges) :
    (r.2 < 48 ∨ 122 < r.1) ∧ ∀ r' ∈ letterRanges, r.2 < r'.1 ∨ r'.2 < r.1 := by
  have hall : blankRanges.all fun r => (r.2 < 48 || 122 < r.1) &&
      letterRanges.all fun r' => r.2 < r'.1 || r'.2 < r.1 := by decide +kernel
  simpa only [Bool.and_eq_true, Bool.or_eq_true, List.all_eq_true, decide_eq_true_eq] using
    List.all_eq_true.1 hall r h

theorem not_isWordChar_of_isBlank (h : isBlank c = true) : isWordChar c = false := by
  obtain ⟨r, hr, hlow, hhigh⟩ := Ranges.contains_iff.1 h
  obtain ⟨hascii, hletters⟩ := apart_of_mem_blankRanges hr
  rw [Bool.eq_false_iff]
  intro hword
  rw [isWordChar, isLetter, Bool.or_eq_true, Bool.or_eq_true, Bool.and_eq_true,
    Ranges.contains_iff] at hword
  rcases hword with (halpha | ⟨-, r', hr', hlow', hhigh'⟩) | hscore
  · have hrange := toNat_of_isAlpha halpha
    omega
  · have hapart := hletters r' hr'
    omega
  · have htoNat : c.toNat = 95 := by rw [beq_iff_eq.1 hscore]; rfl
    omega

theorem not_isDigit_of_isBlank (h : isBlank c = true) : c.isDigit = false := by
  obtain ⟨r, hr, hlow, hhigh⟩ := Ranges.contains_iff.1 h
  have hascii := (apart_of_mem_blankRanges hr).1
  rw [Bool.eq_false_iff]
  intro hdigit
  have hrange := toNat_of_isDigit hdigit
  omega

theorem symbolKind_of_isBlank (h : isBlank c = true) : symbolKind c = .illegal := by
  have hsymbols : ∀ e ∈ symbols, isBlank e.1 = false := by decide
  rw [symbolKind]
  cases hlookup : symbols.lookup c with
  | none => rfl
  | some k =>
      obtain ⟨before, after, heq, -⟩ := List.lookup_eq_some_iff.1 hlookup
      have hnot := hsymbols (c, k) (by rw [heq]; simp)
      rw [h] at hnot
      cases hnot

/-- Nothing goes on with a lexeme that ends in white space. -/
theorem endsBefore_of_isBlank {l : Lexeme} (h : l.Shape) (hclosed : (l.tokenAt o).isUnclosed = false)
    (hlast : l.text.getLast? = some c) (hc : isBlank c = true) (ds : List Char) :
    (l.tokenAt o).EndsBefore ds := by
  intro d _
  have hmem : c ∈ l.text := List.mem_of_mem_getLast? hlast
  cases h with
  | word _ hall _ =>
      have hword := hall c hmem
      rw [not_isWordChar_of_isBlank hc] at hword
      cases hword
  | number _ hall _ =>
      have hdigit := hall c hmem
      rw [not_isDigit_of_isBlank hc] at hdigit
      cases hdigit
  | unclosed hbody =>
      rw [isUnclosed_unclosed hbody] at hclosed
      cases hclosed
  | quoted _ => exact parts_of_standsAlone rfl d
  | eq => exact parts_of_standsAlone rfl d
  | notEq => exact parts_of_standsAlone rfl d
  | single _ _ _ _ =>
      obtain rfl := List.mem_singleton.1 hmem
      refine parts_of_standsAlone ?_ d
      change (symbolKind c).standsAlone = true
      rw [symbolKind_of_isBlank hc]
      rfl

/-- The tokens of a text that ends in white space, and not within a string, stay as they are when the
text goes on. -/
theorem scan_append_of_isBlank (hlast : cs.getLast? = some c) (hc : isBlank c = true)
    (hclosed : ∀ t, (scan o cs).getLast? = some t → t.isUnclosed = false) (ds : List Char) :
    scan o (cs ++ ds) = scan o cs ++ scan (o + byteLength cs) ds := by
  refine scan_append_of_parts fun t ht hstop => ⟨hclosed t ht, ?_⟩
  have hnot := hclosed t ht
  obtain ⟨ts, hconcat⟩ := List.getLast?_eq_some_iff.1 ht
  obtain ⟨before, d, es, rfl, rfl, htext, -, -⟩ := exists_resumed_at_end hconcat hstop
  rw [List.getLast?_append_of_ne_nil before (List.cons_ne_nil d es), ← htext] at hlast
  exact endsBefore_of_isBlank (shape_lexeme d es) hnot hlast hc ds

/-- When a text goes on, its last token starts where it did and gets no shorter. -/
theorem scan_append_last (h : scan o cs = ts ++ [t]) (ds : List Char) :
    ∃ u us, scan o (cs ++ ds) = ts ++ u :: us ∧ u.span.start = t.span.start ∧
      t.span.stop ≤ u.span.stop := by
  obtain ⟨before, c, es, rfl, hlayout, rfl, -, hscan⟩ := exists_resumed h
  obtain ⟨more, hmore⟩ := text_lexeme_le c es ds
  have hlength := congrArg byteLength hmore
  rw [byteLength_append] at hlength
  rw [hscan, scan_of_lexeme hlayout]
  refine ⟨_, _, rfl, rfl, ?_⟩
  change _ + byteLength (lexeme c es).text ≤ _ + byteLength (lexeme c (es ++ ds)).text
  omega

end Token

open Token

/-- **A text has the tokens of its beginning.**  All but the last one are its first tokens; the last
one starts where it starts in the beginning and gets no shorter.  If the beginning ends in white
space, and not within a string, its last token is a token of the text too. -/
theorem tokens_beginning (start more : String) :
    (tokens start).dropLast <+: tokens (start ++ more) ∧
    (∀ ts t, tokens start = ts ++ [t] →
      ∃ u us, tokens (start ++ more) = ts ++ u :: us ∧ u.span.start = t.span.start ∧
        t.span.stop ≤ u.span.stop) ∧
    ∀ c, start.toList.getLast? = some c → Text.isBlank c = true →
      (∀ t, (tokens start).getLast? = some t → t.isUnclosed = false) →
      tokens start <+: tokens (start ++ more) := by
  have hlast : ∀ ts t, tokens start = ts ++ [t] →
      ∃ u us, tokens (start ++ more) = ts ++ u :: us ∧ u.span.start = t.span.start ∧
        t.span.stop ≤ u.span.stop := by
    intro ts t h
    rw [tokens, String.toList_append]
    exact scan_append_last h more.toList
  refine ⟨?_, hlast, fun c hc hblank hclosed => ?_⟩
  · rcases List.eq_nil_or_concat' (tokens start) with hnil | ⟨ts, t, hconcat⟩
    · rw [hnil]
      exact List.nil_prefix
    · obtain ⟨u, us, htokens, -⟩ := hlast ts t hconcat
      rw [hconcat, List.dropLast_concat, htokens]
      exact List.prefix_append ts (u :: us)
  · rw [tokens, tokens, String.toList_append, scan_append_of_isBlank hc hblank hclosed]
    exact List.prefix_append _ _

/-- A sign that becomes one of two characters, and a no-break space, which is white space but no
layout. -/
theorem tokens_beginning_sign :
    tokens "a !" = [⟨.ident, "a", ⟨0, 1⟩⟩] ++ [⟨.bang, "!", ⟨2, 3⟩⟩] ∧
      (∃ u us, tokens ("a !" ++ "= b") = [⟨.ident, "a", ⟨0, 1⟩⟩] ++ u :: us ∧ u.span.start = 2 ∧
        3 ≤ u.span.stop) ∧
      "let\u00a0".toList.getLast? = some '\u00a0' ∧ Text.isBlank '\u00a0' = true ∧
      (∀ t, (tokens "let\u00a0").getLast? = some t → t.isUnclosed = false) ∧
      tokens "let\u00a0" <+: tokens ("let\u00a0" ++ "= b") := by
  have htokens : tokens "a !" = [⟨.ident, "a", ⟨0, 1⟩⟩] ++ [⟨.bang, "!", ⟨2, 3⟩⟩] := by
    decide +kernel
  have hclosed : ∀ t, (tokens "let\u00a0").getLast? = some t → t.isUnclosed = false := by
    decide +kernel
  exact ⟨htokens, (tokens_beginning "a !" "= b").2.1 _ _ htokens, rfl, by decide, hclosed,
    (tokens_beginning "let\u00a0" "= b").2.2 _ rfl (by decide) hclosed⟩

end Treewalk
