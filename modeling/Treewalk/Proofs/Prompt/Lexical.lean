import Treewalk.Proofs.Prompt.Continuation
import Treewalk.Proofs.Token.Longest
import Treewalk.Proofs.Token.Pieces

/-! # The verdict of the tokens

The verdict on an input follows from its tokens alone.

* `Kind.settle` is what a token does to the brackets that are open, and `balance` runs through all
  tokens, up to the first closing one without match.
* An input whose last token is a string without a closing quote (`Token.isUnclosed`) goes on.
* Positions are counted in characters.  Layout and quotes take one byte each, so the position of a
  token is its byte less what the texts of the tokens before it take beyond one byte for each
  character (`Token.surplus`).
* `judge_eq_verdict`: character by character or token by token, the verdict is the same. -/

namespace Treewalk

namespace Token

namespace Kind

/-- The kind that closes what a kind opens. -/
def closer? : Kind → Option Kind
  | lparen => some rparen
  | lbracket => some rbracket
  | lbrace => some rbrace
  | _ => none

/-- Whether a kind closes a bracket. -/
def isCloser : Kind → Bool
  | rparen | rbracket | rbrace => true
  | _ => false

/-- The brackets that are open after one more token, the last one first.  There are none after a
closing token without match. -/
def settle (bs : List Kind) (k : Kind) : Option (List Kind) :=
  if k.closer?.isSome then some (k :: bs)
  else if k.isCloser then
    match bs with
    | b :: bs => if b.closer? = some k then some bs else none
    | [] => none
  else some bs

end Kind

end Token

open Token

namespace Prompt

/-- The brackets that tokens leave open, or the first closing token without match and its
position. -/
def balance (bs : List Kind) (surplus : Nat) : List Token → Except (Token × Nat) (List Kind)
  | [] => .ok bs
  | t :: ts =>
    match Kind.settle bs t.kind with
    | some bs => balance bs (surplus + t.surplus) ts
    | none => .error (t, t.span.start - surplus)

/-- The verdict on the rest of an input, given its tokens. -/
def verdictFrom (bs : List Kind) (surplus : Nat) (ts : List Token) : Verdict :=
  match balance bs surplus ts with
  | .error (t, i) => .invalid (t.literal.toList.headD ' ') i
  | .ok bs => if !bs.isEmpty || ts.getLast?.any isUnclosed then .incomplete else .valid

/-- The verdict on an input, given its tokens. -/
def verdict (ts : List Token) : Verdict :=
  verdictFrom [] 0 ts

/-! ### One token -/

theorem balance_cons {bs bs' : List Kind} {t : Token} (hs : Kind.settle bs t.kind = some bs')
    (surplus : Nat) (ts : List Token) :
    balance bs surplus (t :: ts) = balance bs' (surplus + t.surplus) ts := by
  rw [balance, hs]

theorem verdictFrom_cons {bs bs' : List Kind} {t : Token} (hs : Kind.settle bs t.kind = some bs')
    (hclosed : t.isUnclosed = false) (surplus : Nat) (ts : List Token) :
    verdictFrom bs surplus (t :: ts) = verdictFrom bs' (surplus + t.surplus) ts := by
  rw [verdictFrom, balance_cons hs, any_isUnclosed_cons hclosed]
  rfl

theorem verdictFrom_of_settle_eq_none {bs : List Kind} {t : Token}
    (hs : Kind.settle bs t.kind = none) (surplus : Nat) (ts : List Token) :
    verdictFrom bs surplus (t :: ts) =
      .invalid (t.literal.toList.headD ' ') (t.span.start - surplus) := by
  rw [verdictFrom, balance, hs]

theorem verdictFrom_of_isUnclosed (bs : List Kind) {t : Token} (h : t.isUnclosed = true)
    (surplus : Nat) : verdictFrom bs surplus [t] = .incomplete := by
  have hkind : t.kind = .string := by
    rw [isUnclosed, Bool.and_eq_true, beq_iff_eq] at h
    exact h.1
  have hs : Kind.settle bs t.kind = some bs := by
    rw [hkind]
    rfl
  rw [verdictFrom, balance_cons hs]
  simp [balance, h]

/-! ### One character -/

theorem isOpening_iff {c : Char} : isOpening c = true ↔ c = '(' ∨ c = '[' ∨ c = '{' := by
  simp [isOpening, or_assoc]

theorem isClosing_iff {c : Char} : isClosing c = true ↔ c = ')' ∨ c = ']' ∨ c = '}' := by
  simp [isClosing, or_assoc]

/-- A sign is a bracket where its kind is. -/
theorem brackets_symbolKind (c : Char) :
    (symbolKind c).closer?.isSome = isOpening c ∧ (symbolKind c).isCloser = isClosing c := by
  have hall : ∀ e ∈ symbols, e.2.closer?.isSome = isOpening e.1 ∧ e.2.isCloser = isClosing e.1 := by
    decide
  have hnone : ∀ d : Char, (symbols.lookup d).isSome → symbols.lookup c = none → c ≠ d := by
    rintro d hd hc rfl
    rw [hc] at hd
    cases hd
  unfold symbolKind
  cases h : symbols.lookup c with
  | none =>
      have hne := fun d hd => hnone d hd h
      simp [isOpening, isClosing, hne '(' (by decide), hne '[' (by decide), hne '{' (by decide),
        hne ')' (by decide), hne ']' (by decide), hne '}' (by decide), Kind.closer?, Kind.isCloser]
  | some k =>
      obtain ⟨l₁, l₂, heq, -⟩ := List.lookup_eq_some_iff.1 h
      exact hall (c, k) (by rw [heq]; simp)

theorem closes_iff {b c : Char} (hb : isOpening b = true) (hc : isClosing c = true) :
    closes b c = true ↔ (symbolKind b).closer? = some (symbolKind c) := by
  rcases isOpening_iff.1 hb with rfl | rfl | rfl <;>
    rcases isClosing_iff.1 hc with rfl | rfl | rfl <;> decide

/-- A character that is no quote does to the open brackets what its sign does to their kinds. -/
theorem settle_symbolKind {bs : List Char} (hbs : ∀ b ∈ bs, isOpening b = true) {c : Char}
    (hquote : c ≠ '"') :
    (∃ bs', Open.next? ⟨bs, false⟩ c = some ⟨bs', false⟩ ∧
      Kind.settle (bs.map symbolKind) (symbolKind c) = some (bs'.map symbolKind)) ∨
    (Open.next? ⟨bs, false⟩ c = none ∧
      Kind.settle (bs.map symbolKind) (symbolKind c) = none) := by
  obtain ⟨hopener, hcloser⟩ := brackets_symbolKind c
  simp only [Open.next?, Kind.settle, hopener, hcloser, if_neg hquote, Bool.false_eq_true, if_false]
  by_cases hopening : isOpening c = true
  · simp only [if_pos hopening]
    exact .inl ⟨_, rfl, rfl⟩
  simp only [if_neg hopening]
  by_cases hclosing : isClosing c = true
  · simp only [if_pos hclosing]
    cases bs with
    | nil => simp
    | cons b bs =>
        have hiff := closes_iff (hbs b List.mem_cons_self) hclosing
        by_cases hcloses : closes b c = true
        · simp only [if_pos hcloses, List.map_cons, if_pos (hiff.1 hcloses)]
          exact .inl ⟨bs, rfl, rfl⟩
        · have hkinds := mt hiff.2 hcloses
          simp [hcloses, hkinds]
  · simp only [if_neg hclosing]
    exact .inl ⟨bs, rfl, rfl⟩

/-! ### One lexeme -/

/-- Neither a quote nor a bracket. -/
def isPlain (c : Char) : Bool :=
  c != '"' && !isOpening c && !isClosing c

theorem next?_of_isPlain {c : Char} (h : isPlain c = true) (bs : List Char) :
    Open.next? ⟨bs, false⟩ c = some ⟨bs, false⟩ := by
  simp only [isPlain, Bool.and_eq_true, bne_iff_ne, Bool.not_eq_true'] at h
  simp [Open.next?, h]

/-- The characters of a class without quotes and brackets are plain. -/
theorem isPlain_of {p : Char → Bool}
    (hp : ['"', '(', '[', '{', ')', ']', '}'].any p = false) {c : Char} (h : p c = true) :
    isPlain c = true := by
  have hne : ∀ d ∈ ['"', '(', '[', '{', ')', ']', '}'], c ≠ d := by
    rintro d hd rfl
    exact List.any_eq_false.1 hp c hd h
  simp only [List.forall_mem_cons] at hne
  simp [isPlain, isOpening, isClosing, hne]

/-- Characters that change nothing of what is open only move the position on. -/
theorem judge_unchanged {o : Open} {cs : List Char} (h : ∀ c ∈ cs, o.next? c = some o) (i : Nat)
    (rest : List Char) : o.judge i (cs ++ rest) = o.judge (i + cs.length) rest := by
  induction cs generalizing i with
  | nil => rfl
  | cons c cs ih =>
      rw [List.forall_mem_cons] at h
      rw [List.cons_append, Open.judge_cons, h.1, List.length_cons, Nat.add_comm cs.length,
        ← Nat.add_assoc]
      exact ih h.2 (i + 1)

theorem judge_plain {cs : List Char} (h : ∀ c ∈ cs, isPlain c = true) (bs : List Char) (i : Nat)
    (rest : List Char) :
    Open.judge ⟨bs, false⟩ i (cs ++ rest) = Open.judge ⟨bs, false⟩ (i + cs.length) rest :=
  judge_unchanged (fun c hc => next?_of_isPlain (h c hc) bs) i rest

/-- Nothing but a quote counts in a string. -/
theorem judge_inside {cs : List Char} (h : '"' ∉ cs) (bs : List Char) (i : Nat)
    (rest : List Char) :
    Open.judge ⟨bs, true⟩ i (cs ++ rest) = Open.judge ⟨bs, true⟩ (i + cs.length) rest := by
  refine judge_unchanged (fun c hc => ?_) i rest
  have hne := of_decide_eq_true (forall_ne_quote h c hc)
  simp [Open.next?, hne]

theorem judge_quoted {body : List Char} (h : '"' ∉ body) (bs : List Char) (i : Nat)
    (rest : List Char) :
    Open.judge ⟨bs, false⟩ i ('"' :: (body ++ ['"']) ++ rest) =
      Open.judge ⟨bs, false⟩ (i + (body.length + 2)) rest := by
  have hopen : Open.next? ⟨bs, false⟩ '"' = some ⟨bs, true⟩ := rfl
  have hclose : Open.next? ⟨bs, true⟩ '"' = some ⟨bs, false⟩ := rfl
  have hlength : i + (body.length + 2) = i + 1 + body.length + 1 := by omega
  rw [List.cons_append, Open.judge_cons, hopen, List.append_assoc, List.singleton_append, hlength]
  change Open.judge ⟨bs, true⟩ (i + 1) (body ++ '"' :: rest) = _
  rw [judge_inside h, Open.judge_cons, hclose]

theorem judge_unclosed {body : List Char} (h : '"' ∉ body) (bs : List Char) (i : Nat) :
    Open.judge ⟨bs, false⟩ i ('"' :: body) = .incomplete := by
  have hopen : Open.next? ⟨bs, false⟩ '"' = some ⟨bs, true⟩ := rfl
  have hinside := judge_inside h bs (i + 1) []
  rw [List.append_nil] at hinside
  rw [Open.judge_cons, hopen]
  change Open.judge ⟨bs, true⟩ (i + 1) body = _
  rw [hinside]
  rfl

theorem settle_of_isWord {k : Kind} (h : k.isWord = true) (bs : List Kind) :
    Kind.settle bs k = some bs := by
  cases k <;> first | (cases h; done) | rfl

/-- A lexeme leads from the verdict on the characters to that on the tokens if the rest does. -/
theorem judge_lexeme {l : Lexeme} (h : l.Shape) {bs : List Char}
    (hbs : ∀ b ∈ bs, isOpening b = true) (i surplus : Nat) {ts : List Token}
    (hts : l.rest = [] → ts = [])
    (ih : ∀ bs' : List Char, (∀ b ∈ bs', isOpening b = true) →
      Open.judge ⟨bs', false⟩ (i + l.text.length) l.rest =
        verdictFrom (bs'.map symbolKind)
          (surplus + (l.tokenAt (i + surplus)).surplus) ts) :
    Open.judge ⟨bs, false⟩ i (l.text ++ l.rest) =
      verdictFrom (bs.map symbolKind) surplus (l.tokenAt (i + surplus) :: ts) := by
  have hplain : (∀ c ∈ l.text, isPlain c = true) → l.kind ≠ .string →
      Kind.settle (bs.map symbolKind) l.kind = some (bs.map symbolKind) →
      Open.judge ⟨bs, false⟩ i (l.text ++ l.rest) =
        verdictFrom (bs.map symbolKind) surplus (l.tokenAt (i + surplus) :: ts) := by
    intro htext hne hsettle
    rw [judge_plain htext, ih bs hbs, verdictFrom_cons hsettle (isUnclosed_of_ne hne)]
  cases h with
  | @word w rest _ hall _ =>
      have hword := isWord_wordKind w rest
      exact hplain (fun c hc => isPlain_of (by decide) (hall c hc)) (ne_of_isWord hword rfl)
        (settle_of_isWord hword _)
  | number _ hall _ =>
      exact hplain (fun c hc => isPlain_of (by decide) (hall c hc)) Kind.noConfusion rfl
  | @quoted body rest hbody =>
      rw [judge_quoted hbody, verdictFrom_cons rfl (isUnclosed_quoted hbody _ rest), ← ih bs hbs]
      simp
  | @unclosed body hbody =>
      rw [hts rfl, verdictFrom_of_isUnclosed _ (isUnclosed_unclosed hbody _), List.append_nil,
        judge_unclosed hbody]
  | eq =>
      have hsigns : ∀ c ∈ ['=', '='], isPlain c = true := List.all_eq_true.1 (by decide)
      exact hplain hsigns Kind.noConfusion rfl
  | notEq =>
      have hsigns : ∀ c ∈ ['!', '='], isPlain c = true := List.all_eq_true.1 (by decide)
      exact hplain hsigns Kind.noConfusion rfl
  | @single c rest _ _ hquote _ =>
      have hstring := symbolKind_ne_string c
      rw [List.singleton_append, Open.judge_cons]
      rcases settle_symbolKind hbs hquote with ⟨bs', hnext, hsettle⟩ | ⟨hnext, hsettle⟩
      · rw [verdictFrom_cons hsettle (isUnclosed_of_ne hstring), hnext]
        have hsound : Open.Sound ⟨bs, false⟩ := hbs
        exact ih bs' (hsound.next hnext)
      · rw [verdictFrom_of_settle_eq_none hsettle, hnext, Lexeme.tokenAt, ofLexeme,
          Lexeme.literal_of_ne hstring, String.toList_ofList]
        simp

/-! ### All lexemes -/

/-- From any brackets on, the verdict on the characters is that on the tokens. -/
theorem judge_scan {bs : List Char} (hbs : ∀ b ∈ bs, isOpening b = true) (i surplus : Nat)
    (cs : List Char) :
    Open.judge ⟨bs, false⟩ i cs =
      verdictFrom (bs.map symbolKind) surplus (scan (i + surplus) cs) := by
  generalize ho : i + surplus = o
  fun_induction scan o cs generalizing bs i surplus with
  | case1 o =>
      simp [Open.judge, verdictFrom, balance]
  | case2 o c cs hlayout ih =>
      have hsize := utf8Size_of_isLayout hlayout
      rw [Open.judge_cons, next?_of_isPlain (isPlain_of (by decide) hlayout)]
      exact ih hbs (i + 1) surplus (by omega)
  | case3 o c cs hlayout l stop =>
      rename_i ih
      have hshape : l.Shape := shape_lexeme c cs
      have happend : l.text ++ l.rest = c :: cs := lexeme_append c cs
      have hlength := byteLength_text hshape (i + surplus)
      subst ho
      rw [← happend]
      refine judge_lexeme hshape hbs i surplus (fun hnil => ?_) fun bs' hbs' => ?_
      · rw [hnil, scan]
      · exact ih hbs' _ _ (by omega)

theorem judge_eq_verdict_tokens (w : String) : judge w = verdict (tokens w) :=
  judge_scan (by simp) 0 0 w.toList

/-! ### Positions -/

/-- A token without match is one of the tokens, and its position leaves out the surplus of those
before it. -/
theorem split_of_balance {bs : List Kind} {e i : Nat} {ts : List Token} {t : Token}
    (h : balance bs e ts = .error (t, i)) :
    ∃ before after, ts = before ++ t :: after ∧
      i = t.span.start - (e + (before.map surplus).sum) := by
  induction ts generalizing bs e with
  | nil => cases h
  | cons u ts ih =>
      rw [balance] at h
      split at h
      · obtain ⟨before, after, rfl, hi⟩ := ih h
        refine ⟨u :: before, after, rfl, ?_⟩
        rw [hi, List.map_cons, List.sum_cons, Nat.add_assoc]
      · obtain ⟨rfl, rfl⟩ := Prod.mk.inj (Except.error.inj h)
        exact ⟨[], ts, rfl, by simp⟩

/-- A string without a closing quote is one behind whose opening quote no other follows. -/
theorem isUnclosed_tokenAt_iff {c : Char} {cs : List Char} (hk : (lexeme c cs).kind = .string)
    (o : Nat) : c = '"' ∧ (((lexeme c cs).tokenAt o).isUnclosed = true ↔ '"' ∉ cs) := by
  have happend := lexeme_append c cs
  have hshape := shape_lexeme c cs
  generalize lexeme c cs = l at hk happend hshape
  cases hshape with
  | @word w rest _ _ _ => exact absurd hk (ne_of_isWord (isWord_wordKind w rest) rfl)
  | @quoted body rest hbody =>
      obtain ⟨rfl, rfl⟩ := List.cons.inj happend
      rw [isUnclosed_quoted hbody o rest]
      simp
  | @unclosed body hbody =>
      rw [List.append_nil] at happend
      obtain ⟨rfl, rfl⟩ := List.cons.inj happend
      rw [isUnclosed_unclosed hbody o]
      exact ⟨rfl, fun _ => hbody, fun _ => rfl⟩
  | @single d rest _ _ _ _ => exact absurd hk (symbolKind_ne_string d)
  | _ => cases hk

/-- **The verdict on an input is the one on its tokens.**  The position that goes with a token
without match is the number of the characters before it, and the strings without a closing quote are
those behind whose opening quote no other follows. -/
theorem judge_eq_verdict (w : String) :
    judge w = verdict (tokens w) ∧
      (∀ t i, balance [] 0 (tokens w) = .error (t, i) →
        i = (Text.takeBytes t.span.start w.toList).length) ∧
      ∀ t ∈ tokens w, t.kind = .string →
        ∃ before after, w.toList = before ++ '"' :: after ∧
          t.span.start = Text.byteLength before ∧ (t.isUnclosed = true ↔ '"' ∉ after) := by
  refine ⟨judge_eq_verdict_tokens w, fun t i h => ?_, fun t ht hk => ?_⟩
  · obtain ⟨ts, us, htokens, rfl⟩ := split_of_balance h
    obtain ⟨before, c, cs, hw, rfl, hlength⟩ := exists_lexeme_of_scan htokens
    have hstart : ((lexeme c cs).tokenAt (0 + Text.byteLength before)).span.start =
        Text.byteLength before := Nat.zero_add _
    rw [hw, hstart, Text.takeBytes_append]
    omega
  · obtain ⟨before, c, cs, hw, rfl⟩ := exists_lexeme_of_mem_scan ht
    obtain ⟨rfl, hiff⟩ := isUnclosed_tokenAt_iff hk (0 + Text.byteLength before)
    exact ⟨before, cs, hw, Nat.zero_add _, hiff⟩

/-- A bracket that does not match, behind a letter of two bytes, and a string that is not closed. -/
theorem judge_eq_verdict_letter :
    (judge "é(]" = .invalid ']' 2 ∧
      balance [] 0 (tokens "é(]") = .error (⟨.rbracket, "]", ⟨3, 4⟩⟩, 2) ∧
      2 = (Text.takeBytes 3 "é(]".toList).length) ∧
    ⟨.string, "b", ⟨5, 7⟩⟩ ∈ tokens "\"é\" \"b" ∧
      ∃ before after, "\"é\" \"b".toList = before ++ '"' :: after ∧
        5 = Text.byteLength before ∧
        (Token.isUnclosed ⟨.string, "b", ⟨5, 7⟩⟩ = true ↔ '"' ∉ after) := by
  have hbalance : balance [] 0 (tokens "é(]") = .error (⟨.rbracket, "]", ⟨3, 4⟩⟩, 2) := by
    decide +kernel
  have hmem : ⟨.string, "b", ⟨5, 7⟩⟩ ∈ tokens "\"é\" \"b" := by decide +kernel
  refine ⟨⟨?_, hbalance, (judge_eq_verdict "é(]").2.1 _ _ hbalance⟩, hmem,
    (judge_eq_verdict "\"é\" \"b").2.2 _ hmem rfl⟩
  rw [(judge_eq_verdict "é(]").1, verdict, verdictFrom, hbalance]
  rfl

end Prompt

end Treewalk
