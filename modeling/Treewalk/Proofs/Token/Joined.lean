import Mathlib.Data.List.Basic
import Treewalk.Proofs.Token.Written

/-! # Texts side by side

What is written when a text stands directly after another one.

* Two characters merge if a token that ends in the first goes on with the second: two letters or two
  digits (`merges`).
* Where nothing merges, the tokens of both texts are written (`Written.append`).
* Where the last token of the first text merges with the first token of the second, the two become
  one.  So there is a word or a number less than before (`exists_written_append`). -/

namespace Treewalk

namespace Token

/-- Whether a token that ends in the first character goes on with the second. -/
def merges (c d : Char) : Bool :=
  (isWordChar c && isWordChar d) || (c.isDigit && d.isDigit)

/-- How many of the tokens are words or numbers. -/
def runs (ts : List Token) : Nat :=
  ts.countP fun t => t.kind.isRun

@[simp] theorem runs_nil : runs [] = 0 :=
  rfl

@[simp] theorem runs_cons (t : Token) (ts : List Token) :
    runs (t :: ts) = (if t.kind.isRun = true then 1 else 0) + runs ts := by
  rw [runs, List.countP_cons, Nat.add_comm]
  rfl

@[simp] theorem runs_append (ts us : List Token) : runs (ts ++ us) = runs ts + runs us :=
  List.countP_append

/-! ### The ends of a token -/

theorem written_of_isWord {t : Token} (h : t.kind.isWord = true) : t.written = t.literal.toList := by
  rw [written, if_neg]
  intro hk
  rw [hk] at h
  cases h

theorem written_of_int {t : Token} (h : t.kind = .int) : t.written = t.literal.toList := by
  rw [written, if_neg]
  rw [h]
  decide

theorem char_of_isSign {k : Kind} (h : k.isSign = true) :
    ∀ c ∈ k.text.toList, c.toNat < 0x80 ∧ isWordChar c = false ∧ c.isDigit = false := by
  have hall : k.text.toList.all
      (fun c => decide (c.toNat < 0x80 ∧ isWordChar c = false ∧ c.isDigit = false)) = true := by
    cases k <;> first | cases h; done | decide
  exact fun c hc => of_decide_eq_true (List.all_eq_true.1 hall c hc)

/-- What stands at an end of a token tells what kind of token it is. -/
structure Borders (t : Token) (c : Char) : Prop where
  isWord : isWordChar c = t.kind.isWord
  isInt : c.isDigit = (t.kind == .int)
  narrow : isWordChar c = true ∨ c.toNat < 0x80

theorem not_isDigit_of_isWordChar {c : Char} (h : isWordChar c = true) : c.isDigit = false := by
  cases hd : c.isDigit with
  | false => rfl
  | true =>
      rw [not_isWordChar_of_isDigit hd] at h
      cases h

theorem Writable.borders {t : Token} (h : t.Writable) {c : Char}
    (hc : t.written.head? = some c ∨ t.written.getLast? = some c) : t.Borders c := by
  have hmem : c ∈ t.written := hc.elim List.mem_of_mem_head? List.mem_of_mem_getLast?
  cases h with
  | word hword hkind =>
      have hisWord : t.kind.isWord = true := by rw [← hkind]; exact isWord_of_ofWord
      rw [written_of_isWord hisWord] at hmem
      have hchar := hword.2 c hmem
      refine ⟨hchar.trans hisWord.symm, ?_, .inl hchar⟩
      rw [not_isDigit_of_isWordChar hchar, eq_comm, beq_eq_false_iff_ne]
      intro hint
      rw [hint] at hisWord
      cases hisWord
  | int hk _ hall =>
      rw [written_of_int hk] at hmem
      have hdigit := hall c hmem
      have hrange := toNat_of_isDigit hdigit
      refine ⟨?_, by rw [hdigit, hk]; rfl, .inr (by omega)⟩
      rw [not_isWordChar_of_isDigit hdigit, hk]
      rfl
  | string hk _ =>
      have hquote : c = '"' := by
        rw [written, if_pos hk] at hc
        rcases hc with hc | hc
        · exact (Option.some.inj hc).symm
        · rw [← List.cons_append, List.getLast?_append] at hc
          exact (Option.some.inj hc).symm
      rw [hquote]
      refine ⟨?_, ?_, .inr (by decide)⟩ <;> rw [hk] <;> decide
  | sign hsign htext =>
      have hne : t.kind ≠ .string := by
        intro hk
        rw [hk] at hsign
        cases hsign
      rw [written, if_neg hne, htext] at hmem
      obtain ⟨hlt, hword, hdigit⟩ := char_of_isSign hsign c hmem
      have hrun : t.kind.isRun = false := by
        simp only [Kind.isSign, Bool.and_eq_true, Bool.not_eq_true'] at hsign
        exact hsign.2
      refine ⟨by rw [hword, Kind.isWord, hrun, Bool.false_and], ?_, .inr hlt⟩
      rw [hdigit, eq_comm, beq_eq_false_iff_ne]
      intro hint
      rw [hint] at hrun
      cases hrun

theorem Writable.written_ne_nil {t : Token} (h : t.Writable) : t.written ≠ [] := by
  have hstarts : t.Starts (t.written ++ []) [] := h.starts fun _ hc => by cases hc
  obtain ⟨c, ds, heq, -⟩ := hstarts
  rw [List.append_nil] at heq
  rw [heq]
  exact List.cons_ne_nil c ds

/-- A character that does not merge with the end of a token can follow it. -/
theorem Writable.parts {t : Token} (ht : t.Writable) {c d : Char}
    (hc : t.written.getLast? = some c) (hm : merges c d = false)
    (hd : isWordChar d = true ∨ d.toNat < 0x80) (hsign : d ≠ '=') : t.Parts d := by
  have hborders := ht.borders (.inr hc)
  simp only [merges, Bool.or_eq_false_iff, Bool.and_eq_false_iff] at hm
  refine ⟨fun hword => ?_, fun hint => ?_, fun _ => hsign⟩
  · have hletter := hm.1.resolve_left (by rw [hborders.isWord, hword]; decide)
    have hlt := hd.resolve_left (by rw [hletter]; decide)
    exact ⟨hletter, Text.beginsLikeLetter_of_lt hlt⟩
  · exact hm.2.resolve_left (by rw [hborders.isInt, hint]; decide)

theorem Writable.isWord_literal {t : Token} (h : t.Writable) (hk : t.kind.isWord = true) :
    IsWord t.literal := by
  cases h with
  | word hword _ => exact hword
  | int hint => rw [hint] at hk; cases hk
  | string hstring => rw [hstring] at hk; cases hk
  | sign hsign =>
      simp only [Kind.isSign, Kind.isWord, Bool.and_eq_true, Bool.not_eq_true'] at hsign hk
      rw [hsign.2] at hk
      cases hk.1

theorem Writable.digits_literal {t : Token} (h : t.Writable) (hk : t.kind = .int) :
    t.literal ≠ "" ∧ ∀ c ∈ t.literal.toList, c.isDigit = true := by
  cases h with
  | word _ hword =>
      have hisWord : t.kind.isWord = true := by rw [← hword]; exact isWord_of_ofWord
      rw [hk] at hisWord
      cases hisWord
  | int _ hne hall => exact ⟨hne, hall⟩
  | string hstring => rw [hk] at hstring; cases hstring
  | sign hsign => rw [hk] at hsign; cases hsign

/-- A token stands for two that are put side by side, and there is one word or number less. -/
def Fuses (t u v : Token) : Prop :=
  v.Writable ∧ v.written = t.written ++ u.written ∧ runs [v] < runs [t, u] ∧
    ∀ e, u.Parts e → v.Parts e

theorem isRun_of_isWord {k : Kind} (h : k.isWord = true) : k.isRun = true :=
  (Bool.and_eq_true_iff.1 h).1

theorem exists_fuses_of_isWord {t u : Token} (ht : t.Writable) (hu : u.Writable)
    (htk : t.kind.isWord = true) (huk : u.kind.isWord = true) : ∃ v, Fuses t u v := by
  obtain ⟨hne, hall⟩ := ht.isWord_literal htk
  have hword : IsWord (t.literal ++ u.literal) := by
    refine ⟨by simp [hne], ?_⟩
    rw [String.toList_append, List.forall_mem_append]
    exact ⟨hall, (hu.isWord_literal huk).2⟩
  have hkind : (Kind.ofWord (t.literal ++ u.literal)).isWord = true := isWord_of_ofWord
  refine ⟨.bare (Kind.ofWord (t.literal ++ u.literal)) (t.literal ++ u.literal), .word hword rfl,
    ?_, ?_, fun e he => ?_⟩
  · rw [written_of_isWord hkind, written_of_isWord htk, written_of_isWord huk]
    exact String.toList_append
  · simp [bare, isRun_of_ofWord, isRun_of_isWord htk, isRun_of_isWord huk]
  · refine ⟨fun _ => he.word huk, fun hint => ?_, fun hsign => ?_⟩
    · rw [show Kind.ofWord (t.literal ++ u.literal) = .int from hint] at hkind
      cases hkind
    · rcases hsign with h | h <;>
        · rw [show Kind.ofWord (t.literal ++ u.literal) = _ from h] at hkind
          cases hkind

theorem exists_fuses_of_int {t u : Token} (ht : t.Writable) (hu : u.Writable)
    (htk : t.kind = .int) (huk : u.kind = .int) : ∃ v, Fuses t u v := by
  obtain ⟨hne, hall⟩ := ht.digits_literal htk
  have hdigits : ∀ c ∈ (t.literal ++ u.literal).toList, c.isDigit = true := by
    rw [String.toList_append, List.forall_mem_append]
    exact ⟨hall, (hu.digits_literal huk).2⟩
  refine ⟨.bare .int (t.literal ++ u.literal), .int rfl (by simp [hne, bare]) hdigits, ?_, ?_,
    fun e he => ?_⟩
  · rw [written_of_int htk, written_of_int huk, written_of_int rfl]
    exact String.toList_append
  · simp [htk, huk, bare, Kind.isRun]
  · refine ⟨fun hword => (by cases hword), fun _ => he.int huk, fun hsign => ?_⟩
    rcases hsign with h | h <;> cases h

/-- Two words or two numbers side by side are one. -/
theorem exists_fuses {t u : Token} (ht : t.Writable) (hu : u.Writable) {c d : Char}
    (hc : t.written.getLast? = some c) (hd : u.written.head? = some d) (hm : merges c d = true) :
    ∃ v, Fuses t u v := by
  have hct := ht.borders (.inr hc)
  have hdu := hu.borders (.inl hd)
  rw [merges, hct.isWord, hct.isInt, hdu.isWord, hdu.isInt, Bool.or_eq_true, Bool.and_eq_true,
    Bool.and_eq_true, beq_iff_eq, beq_iff_eq] at hm
  rcases hm with ⟨htk, huk⟩ | ⟨htk, huk⟩
  · exact exists_fuses_of_isWord ht hu htk huk
  · exact exists_fuses_of_int ht hu htk huk

end Token

/-! ### Two texts -/

open Token

theorem Written.narrow {ts : List Token} {cs : List Char} (h : Written ts cs) {d : Char}
    (hd : cs.head? = some d) : isWordChar d = true ∨ d.toNat < 0x80 := by
  cases h with
  | nil => cases hd
  | layout hl _ =>
      obtain rfl := Option.some.inj hd
      have hdelimiter := isDelimiter_of_isLayout hl
      simp only [isDelimiter, Bool.and_eq_true, decide_eq_true_eq] at hdelimiter
      exact .inr hdelimiter.1.1
  | token ht _ _ =>
      obtain ⟨c, ds, hwritten⟩ := List.exists_cons_of_ne_nil ht.written_ne_nil
      rw [hwritten] at hd
      exact (ht.borders (.inl (by rw [hwritten]; exact hd))).narrow

theorem Written.eq_nil {ts : List Token} (h : Written ts []) : ts = [] := by
  generalize hcs : ([] : List Char) = cs at h
  cases h with
  | nil => rfl
  | layout => cases hcs
  | token ht => exact absurd (List.append_eq_nil_iff.1 hcs.symm).1 ht.written_ne_nil

/-- A token goes before a text when nothing merges. -/
theorem Written.cons {t : Token} {us : List Token} {cs : List Char} (ht : t.Writable)
    (h : Written us cs) (hsign : cs.head? ≠ some '=')
    (hm : ∀ c ∈ t.written.getLast?, ∀ d ∈ cs.head?, merges c d = false) :
    Written (t :: us) (t.written ++ cs) := by
  refine .token ht (fun d hd => ?_) h
  have hlast := List.getLast?_eq_some_getLast ht.written_ne_nil
  refine ht.parts hlast (hm _ hlast d hd) (h.narrow hd) ?_
  rintro rfl
  exact hsign hd

/-- Two texts of which nothing merges write the tokens of both. -/
theorem Written.append {ts us : List Token} {xs cs : List Char} (h : Written ts xs)
    (h' : Written us cs) (hsign : cs.head? ≠ some '=')
    (hm : ∀ c ∈ xs.getLast?, ∀ d ∈ cs.head?, merges c d = false) :
    Written (ts ++ us) (xs ++ cs) := by
  induction h with
  | nil => exact h'
  | @layout x ts xs hx _ ih =>
      refine .layout hx (ih fun c hc => hm c ?_)
      exact List.mem_getLast?_cons hc
  | @token t ts xs ht hends hts ih =>
      rw [List.cons_append, List.append_assoc]
      cases xs with
      | nil =>
          rw [hts.eq_nil]
          rw [List.append_nil] at hm
          exact .cons ht h' hsign hm
      | cons x xs =>
          rw [List.getLast?_append_cons] at hm
          exact .token ht hends (ih hm)

theorem not_isLayout_of_merges {c d : Char} (h : merges c d = true) :
    isLayout c = false ∧ isLayout d = false := by
  simp only [merges, Bool.or_eq_true, Bool.and_eq_true] at h
  rcases h with ⟨hc, hd⟩ | ⟨hc, hd⟩
  · exact ⟨not_isLayout_of_isWordChar hc, not_isLayout_of_isWordChar hd⟩
  · exact ⟨not_isLayout_of_isDigit hc, not_isLayout_of_isDigit hd⟩

/-- A token that merges with the first one of a text. -/
theorem Written.exists_fused {t : Token} {us : List Token} {cs : List Char} (ht : t.Writable)
    (h : Written us cs) {c d : Char} (hc : t.written.getLast? = some c) (hd : cs.head? = some d)
    (hm : merges c d = true) :
    ∃ vs, Written vs (t.written ++ cs) ∧ runs vs < runs (t :: us) := by
  cases h with
  | nil => cases hd
  | layout hl _ =>
      obtain rfl := Option.some.inj hd
      rw [(not_isLayout_of_merges hm).2] at hl
      cases hl
  | @token u us cs hu hends hus =>
      obtain ⟨e, es, hwritten⟩ := List.exists_cons_of_ne_nil hu.written_ne_nil
      have hd' : u.written.head? = some d := by
        rw [hwritten] at hd ⊢
        exact hd
      obtain ⟨v, hv, hvu, hruns, hparts⟩ := exists_fuses ht hu hc hd' hm
      refine ⟨v :: us, ?_, ?_⟩
      · rw [← List.append_assoc, ← hvu]
        exact .token hv (fun f hf => hparts f (hends f hf)) hus
      · simp only [runs_cons, runs_nil] at hruns ⊢
        omega

/-- Where two texts merge, a word or a number less is written than by the two. -/
theorem Written.exists_merged {ts us : List Token} {xs cs : List Char} (h : Written ts xs)
    (h' : Written us cs) {c d : Char} (hc : xs.getLast? = some c) (hd : cs.head? = some d)
    (hm : merges c d = true) :
    ∃ vs, Written vs (xs ++ cs) ∧ runs vs < runs ts + runs us := by
  induction h with
  | nil => cases hc
  | @layout x ts xs hx hts ih =>
      cases xs with
      | nil =>
          have hcx : x = c := Option.some.inj hc
          rw [hcx, (not_isLayout_of_merges hm).1] at hx
          cases hx
      | cons y xs =>
          rw [List.getLast?_cons_cons] at hc
          obtain ⟨vs, hvs, hruns⟩ := ih hc
          exact ⟨vs, .layout hx hvs, hruns⟩
  | @token t ts xs ht hends hts ih =>
      cases xs with
      | nil =>
          rw [List.append_nil] at hc
          obtain ⟨vs, hvs, hruns⟩ := h'.exists_fused ht hc hd hm
          refine ⟨vs, by rwa [List.append_nil], ?_⟩
          rw [hts.eq_nil]
          rwa [← runs_append]
      | cons y xs =>
          -- The token does not stand at the seam.
          rw [List.getLast?_append_cons] at hc
          obtain ⟨vs, hvs, hruns⟩ := ih hc
          refine ⟨t :: vs, ?_, ?_⟩
          · rw [List.append_assoc]
            exact .token ht hends hvs
          · simp only [runs_cons]
            omega

/-- Side by side two texts write the tokens of both if nothing merges, and else fewer words and
numbers. -/
theorem exists_written_append {ts us : List Token} {xs cs : List Char} (h : Written ts xs)
    (h' : Written us cs) (hsign : cs.head? ≠ some '=') :
    ((∀ c ∈ xs.getLast?, ∀ d ∈ cs.head?, merges c d = false) ∧ Written (ts ++ us) (xs ++ cs)) ∨
      (¬ (∀ c ∈ xs.getLast?, ∀ d ∈ cs.head?, merges c d = false) ∧
        ∃ vs, Written vs (xs ++ cs) ∧ runs vs < runs (ts ++ us)) := by
  by_cases hm : ∀ c ∈ xs.getLast?, ∀ d ∈ cs.head?, merges c d = false
  · exact .inl ⟨hm, h.append h' hsign hm⟩
  · refine .inr ⟨hm, ?_⟩
    simp only [not_forall, Bool.not_eq_false] at hm
    obtain ⟨c, hc, d, hd, hmerges⟩ := hm
    rw [runs_append]
    exact h.exists_merged h' hc hd hmerges

end Treewalk
