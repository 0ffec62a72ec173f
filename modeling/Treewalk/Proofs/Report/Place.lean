import Treewalk.Proofs.Syntax.Noted
import Treewalk.Proofs.Text.Place
import Treewalk.Report

/-! # The place that a report names

A report names a line and a column in its heading, those of the character at the offset where its
stretch starts (`names_text_iff`).  The report on a syntax error takes the offsets of the token, which
count bytes, for offsets of characters.  It names the place of the token just where all characters
before the token take one byte (`report_names_place_iff`).

* `Report.Names` says that a text begins like a report and names a line and a column.  It can name one
  place only.
* `Report.Shown` says that a stretch lies in the text, but for one character behind its end.  Otherwise
  the report is its first line. -/

namespace Treewalk

namespace Report

open Text

/-! ### Numbers in a text -/

theorem toList_toString (n : Nat) : (toString n).toList = Nat.toDigits 10 n := by
  rw [Nat.toString_eq_repr, Nat.toList_repr]

theorem eq_of_toList_toString {m n : Nat} (h : (toString m).toList = (toString n).toList) :
    m = n := by
  rw [toList_toString, toList_toString] at h
  have hread := congrArg (fun digits => Nat.ofDigitChars 10 digits 0) h
  simpa using hread

theorem notMem_toString {c : Char} (hc : c.isDigit = false) (n : Nat) :
    c ∉ (toString n).toList := by
  rw [toList_toString]
  intro hmem
  rw [Nat.isDigit_of_mem_toDigits (by decide) (by decide) hmem] at hc
  cases hc

/-- Two texts that are the same up to the first `c`. -/
theorem eq_of_append_cons {c : Char} {xs xs' ys ys' : List Char} (hxs : c ∉ xs) (hxs' : c ∉ xs')
    (h : xs ++ c :: ys = xs' ++ c :: ys') : xs = xs' ∧ ys = ys' := by
  induction xs generalizing xs' with
  | nil =>
      cases xs' with
      | nil => exact ⟨rfl, (List.cons.inj h).2⟩
      | cons x xs' => exact absurd ((List.cons.inj h).1 ▸ List.mem_cons_self) hxs'
  | cons x xs ih =>
      cases xs' with
      | nil => exact absurd ((List.cons.inj h).1 ▸ List.mem_cons_self) hxs
      | cons x' xs' =>
          obtain ⟨rfl, htail⟩ := List.cons.inj h
          obtain ⟨rfl, hys⟩ := ih (fun hc => hxs (List.mem_cons_of_mem _ hc))
            (fun hc => hxs' (List.mem_cons_of_mem _ hc)) htail
          exact ⟨rfl, hys⟩

/-- A number ends where a character stands that is no digit. -/
theorem eq_of_number {m n : Nat} {c : Char} {ys ys' : List Char} (hc : c.isDigit = false)
    (h : (toString m).toList ++ c :: ys = (toString n).toList ++ c :: ys') : m = n ∧ ys = ys' := by
  obtain ⟨hdigits, hys⟩ := eq_of_append_cons (notMem_toString hc m) (notMem_toString hc n) h
  exact ⟨eq_of_toList_toString hdigits, hys⟩

/-! ### The heading -/

/-- A text begins like a report with a message on the text of a name, and its heading names a line and
a column. -/
def Names (text message name : String) (line column : Nat) : Prop :=
  ∃ margin rest, text = "Error: " ++ message ++ "\n" ++ (row margin ' ' ++ "╭─[ " ++
    (name ++ ":" ++ toString line ++ ":" ++ toString column) ++ " ]" ++ "\n") ++ rest

variable {text message name source : String} {line column line' column' : Nat} {r : Report}

/-- A report names one place. -/
theorem Names.unique (h : Names text message name line column)
    (h' : Names text message name line' column') : line = line' ∧ column = column' := by
  obtain ⟨margin, rest, rfl⟩ := h
  obtain ⟨margin', rest', h'⟩ := h'
  have hchars := congrArg String.toList h'
  simp only [String.toList_append, List.append_assoc, row, String.toList_ofList] at hchars
  have hheading := List.append_cancel_left (List.append_cancel_left (List.append_cancel_left hchars))
  obtain ⟨-, hplace⟩ := eq_of_append_cons (c := '╭') (by simp) (by simp) hheading
  have hnamed := List.append_cancel_left
    (show ['─', '[', ' '] ++ _ = ['─', '[', ' '] ++ _ from hplace)
  have hnumbers := List.append_cancel_left hnamed
  obtain ⟨rfl, hcolumn⟩ := eq_of_number (c := ':') rfl (List.cons.inj hnumbers).2
  exact ⟨rfl, (eq_of_number (c := ' ') rfl hcolumn).1⟩

/-- A report that names a place goes on behind its first line. -/
theorem Names.ne_heading (h : Names text message name line column) :
    text ≠ "Error: " ++ message ++ "\n" := by
  obtain ⟨margin, rest, rfl⟩ := h
  intro hshort
  have hlength := congrArg String.length hshort
  have hcolon : ":".length = 1 := rfl
  simp only [String.length_append, hcolon] at hlength
  omega

/-- The stretch starts in the text or directly behind it, and ends at most one character behind it. -/
def Shown (r : Report) (source : String) : Prop :=
  r.start ≤ source.length ∧ r.stop ≤ source.length + 1

instance (r : Report) (source : String) : Decidable (r.Shown source) :=
  inferInstanceAs (Decidable (_ ∧ _))

theorem not_shown_iff : ¬ r.Shown source ↔ source.toList.length < r.start ∨
    source.toList.length < if r.start < r.stop then r.stop - 1 else r.start := by
  rw [Shown, String.length_toList]
  split <;> omega

theorem text_of_not_shown (h : ¬ r.Shown source) :
    r.text name source = "Error: " ++ r.message ++ "\n" := by
  rw [text, lines, if_pos (not_shown_iff.1 h)]
  simp

theorem names_of_shown (h : r.Shown source) :
    Names (r.text name source) r.message name ((lineAt source.toList r.start).number + 1)
      (r.start - (lineAt source.toList r.start).offset + 1) := by
  have hlines : ∃ margin rest, r.lines name source.toList = ("Error: " ++ r.message) ::
      (row margin ' ' ++ "╭─[ " ++ (name ++ ":" ++
        toString ((lineAt source.toList r.start).number + 1) ++ ":" ++
        toString (r.start - (lineAt source.toList r.start).offset + 1)) ++ " ]") :: rest := by
    rw [lines, if_neg fun hbehind => not_shown_iff.2 hbehind h]
    exact ⟨_, _, rfl⟩
  obtain ⟨margin, rest, hlines⟩ := hlines
  refine ⟨margin, String.join (rest.map (· ++ "\n")), ?_⟩
  rw [text, hlines, List.map_cons, List.map_cons, String.join_cons, String.join_cons,
    ← String.append_assoc]

/-- A report is its first line only just if its stretch is not shown. -/
theorem text_eq_heading_iff :
    r.text name source = "Error: " ++ r.message ++ "\n" ↔ ¬ r.Shown source :=
  ⟨fun htext hshown => (names_of_shown hshown).ne_heading htext, text_of_not_shown⟩

/-- A report names the place of a character just if its stretch is shown and starts there. -/
theorem names_text_iff {k : Nat} :
    (∃ line column, StandsAt source.toList k line column ∧
      Names (r.text name source) r.message name line column) ↔ r.Shown source ∧ r.start = k := by
  constructor
  · rintro ⟨line, column, hstands, hnames⟩
    have hshown : r.Shown source :=
      Decidable.not_not.1 fun hnot => hnames.ne_heading (text_of_not_shown hnot)
    obtain ⟨rfl, rfl⟩ := hnames.unique (names_of_shown hshown)
    exact ⟨hshown, (standsAt_lineAt _ _).unique hstands⟩
  · rintro ⟨hshown, rfl⟩
    exact ⟨_, _, standsAt_lineAt _ _, names_of_shown hshown⟩

end Report

open Text

/-- The token at which a fault shows stands between characters of the text. -/
theorem exists_cuts_of_mem_errors {source : String} {e : SyntaxError}
    (he : e ∈ (parse source).errors) :
    ∃ before text after, e.token.span.Cuts source before text after := by
  rcases List.mem_append.1 (token_mem_of_mem_errors he) with hmem | hmem
  · obtain ⟨before, text, after, hcuts, -⟩ := exists_cuts_of_mem_tokens hmem
    exact ⟨before, text, after, hcuts⟩
  · rw [List.mem_singleton.1 hmem]
    exact ⟨source, "", "", by simp, rfl, by simp [endToken]⟩

/-- **Where the report on a fault points.**  The span of the token at which it shows cuts the text into
what stands before the token, the token (nothing, at the end of the text), and what stands after it.

* The report is its first line only just if there are more bytes before the token than characters in
  the text, or more than one more up to its end.
* It names the place at which the token begins just if all characters before the token take one byte,
  and the token does not end too far behind. -/
theorem report_names_place_iff {source : String} {e : SyntaxError}
    (he : e ∈ (parse source).errors) (name : String) :
    (∃ before text after, e.token.span.Cuts source before text after) ∧
    ∀ before text after, e.token.span.Cuts source before text after →
      (e.report name source = "Error: " ++ e.message ++ "\n" ↔
        source.length < before.utf8ByteSize ∨ source.length + 1 < (before ++ text).utf8ByteSize) ∧
      ((∃ line column, StandsAt source.toList before.length line column ∧
          Report.Names (e.report name source) e.message name line column) ↔
        (before ++ text).utf8ByteSize ≤ source.length + 1 ∧
          before.utf8ByteSize = before.length) := by
  refine ⟨exists_cuts_of_mem_errors he, fun before text after hcuts => ⟨?_, ?_⟩⟩
  · refine Report.text_eq_heading_iff.trans ?_
    show ¬ (e.token.span.start ≤ source.length ∧ e.token.span.stop ≤ source.length + 1) ↔ _
    rw [hcuts.start, hcuts.stop]
    omega
  · refine Report.names_text_iff.trans ?_
    show (e.token.span.start ≤ source.length ∧ e.token.span.stop ≤ source.length + 1) ∧
      e.token.span.start = before.length ↔ _
    have hlength : before.length ≤ source.length := by
      rw [hcuts.joined, String.length_append, String.length_append]
      omega
    rw [hcuts.start, hcuts.stop]
    omega

/-- A closing bracket that nothing opened, in the second line of a text. -/
theorem report_names_place_iff_second_line :
    ∃ e ∈ (parse "1;\n )").errors, e.token.span.Cuts "1;\n )" "1;\n " ")" "" ∧
      ∃ line column, StandsAt "1;\n )".toList 4 line column ∧
        Report.Names (e.report "t" "1;\n )") e.message "t" line column := by
  have hmem : .noExpression ⟨.rparen, ")", ⟨4, 5⟩⟩ ∈ (parse "1;\n )").errors := by decide +kernel
  have hcuts : (⟨4, 5⟩ : Span).Cuts "1;\n )" "1;\n " ")" "" := by
    constructor <;> decide +kernel
  refine ⟨_, hmem, hcuts, ?_⟩
  exact (((report_names_place_iff hmem "t").2 _ _ _ hcuts).2).2 (by decide +kernel)

/-- After a character of two bytes the report names the next place. -/
theorem not_report_names_place :
    ∃ e ∈ (parse "é )").errors, e.token.span.Cuts "é )" "é " ")" "" ∧
      StandsAt "é )".toList 2 1 3 ∧ Report.Names (e.report "t" "é )") e.message "t" 1 4 ∧
      ¬ ∃ line column, StandsAt "é )".toList 2 line column ∧
        Report.Names (e.report "t" "é )") e.message "t" line column := by
  refine ⟨.noExpression ⟨.rparen, ")", ⟨3, 4⟩⟩, by decide +kernel,
    by constructor <;> decide +kernel, standsAt_lineAt _ 2, ?_, fun hnames => ?_⟩
  · exact Report.names_of_shown (r := ⟨_, _, 3, 4⟩) (by decide +kernel)
  · exact absurd (Report.names_text_iff.1 hnames).2 (by decide)

end Treewalk
