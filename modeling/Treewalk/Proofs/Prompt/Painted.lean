import Mathlib.Data.List.Nodup
import Treewalk.Proofs.Prompt.Continuation
import Treewalk.Prompt.Highlight

/-! # Colours in two passes

The colours of a line can also be found in two passes, without writing over anything.

* The first pass takes a `Survey` of the line: the characters of its strings, the closing brackets
  before which no bracket is open, and the pairs of an opening bracket and the closing one that
  takes it off the stack.
* The second pass gives each character its colour (`Survey.paint`).
* Each character is then printed plain or between the sequence of its colour and the one that turns
  colours off (`Cell.shown`).

The text that is written in one pass is the same (`highlight_two_pass`).  Its brackets, its cursor
and its sequences are those of the two passes (`isOpening_iff_mem`, `isClosing_iff_mem`,
`closes_iff_lookup`, `atCursor_iff`, `Cell.text_eq`).  The sequences can be taken out of it again
(`withoutSequences_written`).

* `Points s cursor ms stack opened` says that the offsets of the stack are those at which the open
  brackets stand in what has been written.  Each bracket stands before the one above it, so writing
  over the last one leaves the offsets of the others as they are.
* `Shows cursor ms s v` says that what has been written shows the colours of the survey.  It is
  kept by each character (`Shows.step`). -/

namespace Treewalk.Prompt

open Text

/-! ### The first pass -/

/-- A character and the byte at which it stands. -/
structure Mark where
  char : Char
  byte : Nat
deriving DecidableEq, Repr

/-- The characters of a text that begins at a byte. -/
def marks (byte : Nat) : List Char → List Mark
  | [] => []
  | c :: cs => ⟨c, byte⟩ :: marks (byte + c.utf8Size) cs

/-- The opening brackets, each with the one that closes it. -/
def bracketPairs : List (Char × Char) :=
  [('(', ')'), ('[', ']'), ('{', '}')]

/-- What has been found out about a line: the brackets that are open, the last one first, whether a
string is open, the characters of the strings, the closing brackets before which no bracket was
open, and the other closing brackets, each with the opening one that it took off the stack. -/
structure Survey where
  opened : List Mark
  quoted : Bool
  strings : List Mark
  lone : List Mark
  pairs : List (Mark × Mark)

namespace Survey

def start : Survey :=
  ⟨[], false, [], [], []⟩

/-- Takes in a character. -/
def step (s : Survey) (m : Mark) : Survey :=
  if s.quoted then { s with quoted := m.char != '"', strings := m :: s.strings }
  else if m.char = '"' then { s with quoted := true, strings := m :: s.strings }
  else if m.char ∈ bracketPairs.map Prod.fst then { s with opened := m :: s.opened }
  else if m.char ∈ bracketPairs.map Prod.snd then
    match s.opened with
    | [] => { s with lone := m :: s.lone }
    | b :: bs => { s with opened := bs, pairs := (b, m) :: s.pairs }
  else s

/-- Takes in some characters. -/
def run (s : Survey) (ms : List Mark) : Survey :=
  ms.foldl step s

/-! ### The second pass -/

/-- The colours of an opening bracket and of the one that takes it off the stack. -/
def pairPaint (cursor : Nat) (b m : Mark) : Paint × Paint :=
  if bracketPairs.lookup b.char = some m.char then
    if (m.byte = cursor ∨ m.byte + 1 = cursor) ∨ b.byte = cursor ∨ b.byte + 1 = cursor then
      (.paired, .paired)
    else (.plain, .plain)
  else (.mismatched, .unmatched)

/-- The colour of a character. -/
def paint (s : Survey) (cursor : Nat) (m : Mark) : Paint :=
  if m ∈ s.strings then .string
  else if m ∈ s.lone then .unmatched
  else
    match s.pairs.find? fun p => p.1 = m ∨ p.2 = m with
    | some p => if p.1 = m then (pairPaint cursor p.1 p.2).1 else (pairPaint cursor p.1 p.2).2
    | none => .plain

/-- Some characters with their colours. -/
def cells (s : Survey) (cursor : Nat) (ms : List Mark) : List Cell :=
  ms.map fun m => ⟨m.char, s.paint cursor m⟩

end Survey

/-- A text with its colours. -/
def painted (cs : List Char) (cursor : Nat) : List Cell :=
  (Survey.start.run (marks 0 cs)).cells cursor (marks 0 cs)

/-! ### What is printed -/

/-- A character as it is printed: plain, or in green, bold blue, red or bold red, with the colour
turned off behind it. -/
def Cell.shown : Cell → List Char
  | ⟨c, .plain⟩ => [c]
  | ⟨c, .string⟩ => "\x1b[32m".toList ++ c :: "\x1b[0m".toList
  | ⟨c, .paired⟩ => "\x1b[1;34m".toList ++ c :: "\x1b[0m".toList
  | ⟨c, .unmatched⟩ => "\x1b[31m".toList ++ c :: "\x1b[0m".toList
  | ⟨c, .mismatched⟩ => "\x1b[1;31m".toList ++ c :: "\x1b[0m".toList

/-- Cells as they are printed. -/
def written (cells : List Cell) : List Char :=
  cells.flatMap Cell.shown

/-- The sequences that turn a colour on, and the one that turns it off. -/
def sequences : List String :=
  ["\x1b[32m", "\x1b[1;34m", "\x1b[31m", "\x1b[1;31m", "\x1b[0m"]

/-- Characters without the sequences among them, and without the first `n`. -/
def withoutSequences : Nat → List Char → List Char
  | _, [] => []
  | n + 1, _ :: cs => withoutSequences n cs
  | 0, c :: cs =>
    match sequences.find? fun s => s.toList.isPrefixOf (c :: cs) with
    | some s => withoutSequences (s.length - 1) cs
    | none => c :: withoutSequences 0 cs

/-- A text without the sequences in it. -/
def removeSequences (text : String) : String :=
  String.ofList (withoutSequences 0 text.toList)

/-! ### The same brackets, the same cursor and the same sequences -/

theorem isOpening_iff_mem {c : Char} : isOpening c = true ↔ c ∈ bracketPairs.map Prod.fst := by
  simp [isOpening, bracketPairs, or_assoc]

theorem isClosing_iff_mem {c : Char} : isClosing c = true ↔ c ∈ bracketPairs.map Prod.snd := by
  simp [isClosing, bracketPairs, or_assoc]

theorem closes_iff_lookup {b c : Char} :
    closes b c = true ↔ bracketPairs.lookup b = some c := by
  simp only [closes, bracketPairs, List.lookup_cons, List.lookup_nil, decide_eq_true_eq]
  grind

theorem atCursor_iff {cursor byte : Nat} :
    atCursor cursor byte = true ↔ byte = cursor ∨ byte + 1 = cursor := by
  simp [atCursor]

theorem Cell.text_eq (c : Cell) : c.text = c.shown := by
  obtain ⟨c, p⟩ := c
  cases p <;> rfl

theorem Draft.text_put (v : Draft) (c : Char) (p : Paint) :
    (v.put c p).text = v.text ++ Cell.shown ⟨c, p⟩ := by
  rw [put, Cell.text_eq]

/-! ### Without the sequences -/

theorem withoutSequences_append {s : String} (hs : s ∈ sequences) (cs : List Char) :
    withoutSequences 0 (s.toList ++ cs) = withoutSequences 0 cs := by
  simp only [sequences, List.mem_cons, List.not_mem_nil, or_false] at hs
  rcases hs with rfl | rfl | rfl | rfl | rfl <;> rfl

theorem withoutSequences_cons {c : Char} {cs : List Char}
    (h : ∀ s ∈ sequences, ¬ s.toList <+: c :: cs) :
    withoutSequences 0 (c :: cs) = c :: withoutSequences 0 cs := by
  have hnone : (sequences.find? fun s => s.toList.isPrefixOf (c :: cs)) = none := by
    rw [List.find?_eq_none]
    intro s hs
    rw [List.isPrefixOf_iff_prefix]
    exact h s hs
  rw [withoutSequences, hnone]

/-- Each sequence begins with an escape and has no other one. -/
theorem exists_of_mem_sequences {s : String} (hs : s ∈ sequences) :
    ∃ cs, s.toList = '\x1b' :: cs ∧ '\x1b' ∉ cs ∧ cs ≠ [] := by
  simp only [sequences, List.mem_cons, List.not_mem_nil, or_false] at hs
  rcases hs with rfl | rfl | rfl | rfl | rfl <;> exact ⟨_, rfl, by decide, by decide⟩

/-- A cell that is not plain is printed between two sequences. -/
theorem Cell.shown_eq_or (c : Cell) : c.shown = [c.char] ∨
    ∃ s ∈ sequences, ∃ t ∈ sequences, c.shown = s.toList ++ c.char :: t.toList := by
  obtain ⟨c, p⟩ := c
  cases p with
  | plain => exact .inl rfl
  | string => exact .inr ⟨"\x1b[32m", by decide, "\x1b[0m", by decide, rfl⟩
  | paired => exact .inr ⟨"\x1b[1;34m", by decide, "\x1b[0m", by decide, rfl⟩
  | unmatched => exact .inr ⟨"\x1b[31m", by decide, "\x1b[0m", by decide, rfl⟩
  | mismatched => exact .inr ⟨"\x1b[1;31m", by decide, "\x1b[0m", by decide, rfl⟩

theorem written_cons (c : Cell) (cells : List Cell) :
    written (c :: cells) = c.shown ++ written cells :=
  List.flatMap_cons

/-- Characters without an escape that the printed text begins with stand in the line. -/
theorem prefix_of_prefix_written {cs : List Char} {cells : List Cell} (hcs : '\x1b' ∉ cs)
    (h : cs <+: written cells) : cs <+: cells.map Cell.char := by
  induction cells generalizing cs with
  | nil => exact h
  | cons c cells ih =>
      cases cs with
      | nil => exact List.nil_prefix
      | cons d cs =>
          rw [List.mem_cons, not_or] at hcs
          rw [written_cons] at h
          rcases c.shown_eq_or with hshown | ⟨s, hs, t, -, hshown⟩
          · rw [hshown, List.singleton_append, List.cons_prefix_cons] at h
            rw [List.map_cons, List.cons_prefix_cons]
            exact ⟨h.1, ih hcs.2 h.2⟩
          · obtain ⟨es, hes, -, -⟩ := exists_of_mem_sequences hs
            rw [hshown, hes, List.cons_append, List.cons_append, List.cons_prefix_cons] at h
            exact absurd h.1.symm hcs.1

/-- **The sequences come out again**: what is left of the printed text without them is the line,
if the line has none of its own. -/
theorem withoutSequences_written {cells : List Cell}
    (h : ∀ s ∈ sequences, ¬ s.toList <:+: cells.map Cell.char) :
    withoutSequences 0 (written cells) = cells.map Cell.char := by
  induction cells with
  | nil => rfl
  | cons c cells ih =>
      have hrest : withoutSequences 0 (written cells) = cells.map Cell.char :=
        ih fun s hs hwithin => h s hs (hwithin.trans (List.suffix_cons _ _).isInfix)
      rw [written_cons, List.map_cons]
      rcases c.shown_eq_or with hshown | ⟨s, hs, t, ht, hshown⟩
      · rw [hshown, List.singleton_append, withoutSequences_cons, hrest]
        intro s hs hstart
        -- Behind its escape the sequence would stand in the line as it is.
        obtain ⟨es, hes, hescape, -⟩ := exists_of_mem_sequences hs
        rw [hes, List.cons_prefix_cons] at hstart
        refine h s hs (List.IsPrefix.isInfix ?_)
        rw [hes, List.map_cons, List.cons_prefix_cons]
        exact ⟨hstart.1, prefix_of_prefix_written hescape hstart.2⟩
      · rw [hshown, List.append_assoc, withoutSequences_append hs, List.cons_append,
          withoutSequences_cons, withoutSequences_append ht, hrest]
        intro s' hs' hstart
        obtain ⟨es, hes, hescape, hne⟩ := exists_of_mem_sequences hs'
        obtain ⟨fs, hfs, -, -⟩ := exists_of_mem_sequences ht
        rw [hes, hfs, List.cons_prefix_cons] at hstart
        cases es with
        | nil => exact hne rfl
        | cons e es =>
            obtain rfl : e = '\x1b' := (List.cons_prefix_cons.1 hstart.2).1
            exact hescape List.mem_cons_self

/-! ### Marks -/

theorem map_char_marks (n : Nat) (cs : List Char) : (marks n cs).map Mark.char = cs := by
  induction cs generalizing n with
  | nil => rfl
  | cons c cs ih => rw [marks, List.map_cons, ih]

theorem le_byte_of_mem_marks {n : Nat} {cs : List Char} {m : Mark} (h : m ∈ marks n cs) :
    n ≤ m.byte := by
  induction cs generalizing n with
  | nil => cases h
  | cons c cs ih =>
      rcases List.mem_cons.1 h with rfl | h
      · exact Nat.le_refl _
      · have hle := ih h
        omega

theorem nodup_marks (n : Nat) (cs : List Char) : (marks n cs).Nodup := by
  induction cs generalizing n with
  | nil => exact List.nodup_nil
  | cons c cs ih =>
      refine List.nodup_cons.2 ⟨fun hmem => ?_, ih _⟩
      have hle := le_byte_of_mem_marks hmem
      have hpos := Char.utf8Size_pos c
      simp only at hle
      omega

/-- The byte of a mark is the length of what stands before it. -/
theorem byte_of_marks_eq {n : Nat} {cs : List Char} {before after : List Mark} {m : Mark}
    (h : marks n cs = before ++ m :: after) : m.byte = n + byteLength (before.map Mark.char) := by
  induction cs generalizing n before with
  | nil => cases before <;> cases h
  | cons c cs ih =>
      cases before with
      | nil =>
          obtain ⟨rfl, -⟩ := List.cons.inj h
          rfl
      | cons d before =>
          obtain ⟨rfl, htail⟩ := List.cons.inj h
          rw [ih htail, List.map_cons, byteLength_cons, Nat.add_assoc]

namespace Survey

variable {s : Survey} {cursor : Nat} {m b x : Mark} {ms : List Mark}

/-! ### What a survey has found -/

/-- The characters that a survey may give a colour. -/
def found (s : Survey) : List Mark :=
  s.strings ++ (s.lone ++ s.pairs.flatMap fun p => [p.1, p.2])

theorem paint_of_notMem (h : m ∉ s.found) : s.paint cursor m = .plain := by
  simp only [found, List.mem_append, List.mem_flatMap, not_or] at h
  obtain ⟨hstrings, hlone, hpairs⟩ := h
  have hnone : (s.pairs.find? fun p => p.1 = m ∨ p.2 = m) = none := by
    rw [List.find?_eq_none]
    intro p hp
    rw [decide_eq_true_eq]
    rintro (rfl | rfl)
    · exact hpairs ⟨p, hp, by simp⟩
    · exact hpairs ⟨p, hp, by simp⟩
  rw [paint, if_neg hstrings, if_neg hlone, hnone]

theorem paint_string (q : Bool) :
    paint { s with quoted := q, strings := m :: s.strings } cursor m = .string :=
  if_pos List.mem_cons_self

theorem paint_string_of_ne (q : Bool) (h : x ≠ m) :
    paint { s with quoted := q, strings := m :: s.strings } cursor x = s.paint cursor x := by
  simp [paint, h]

theorem paint_lone (h : m ∉ s.strings) :
    paint { s with lone := m :: s.lone } cursor m = .unmatched := by
  simp [paint, h]

theorem paint_lone_of_ne (h : x ≠ m) :
    paint { s with lone := m :: s.lone } cursor x = s.paint cursor x := by
  simp [paint, h]

variable {bs : List Mark}

theorem paint_opener (h : b ∉ s.found) :
    paint { s with opened := bs, pairs := (b, m) :: s.pairs } cursor b =
      (pairPaint cursor b m).1 := by
  simp only [found, List.mem_append, not_or] at h
  simp [paint, h.1, h.2.1]

theorem paint_closer (h : m ∉ s.found) (hne : b ≠ m) :
    paint { s with opened := bs, pairs := (b, m) :: s.pairs } cursor m =
      (pairPaint cursor b m).2 := by
  simp only [found, List.mem_append, not_or] at h
  simp [paint, h.1, h.2.1, hne]

theorem paint_pair_of_ne (hb : b ≠ x) (hm : m ≠ x) :
    paint { s with opened := bs, pairs := (b, m) :: s.pairs } cursor x = s.paint cursor x := by
  simp [paint, hb, hm]

theorem cells_congr {s' : Survey} (h : ∀ x ∈ ms, s'.paint cursor x = s.paint cursor x) :
    s'.cells cursor ms = s.cells cursor ms :=
  List.map_congr_left fun x hx => by rw [h x hx]

theorem cells_cons (m : Mark) (ms : List Mark) :
    s.cells cursor (m :: ms) = ⟨m.char, s.paint cursor m⟩ :: s.cells cursor ms :=
  rfl

theorem map_char_cells (ms : List Mark) : (s.cells cursor ms).map Cell.char = ms.map Mark.char :=
  List.map_map

theorem cells_append (us vs : List Mark) :
    s.cells cursor (us ++ vs) = s.cells cursor us ++ s.cells cursor vs :=
  List.map_append

theorem mem_found_lone :
    x ∈ found { s with lone := m :: s.lone } ↔ x = m ∨ x ∈ s.found := by
  simp only [found, List.mem_append, List.mem_cons]
  rw [or_assoc, or_left_comm]

theorem mem_found_pair :
    x ∈ found { s with opened := bs, pairs := (b, m) :: s.pairs } ↔
      x = b ∨ x = m ∨ x ∈ s.found := by
  simp only [found, List.mem_append, List.flatMap_cons, List.mem_cons, List.not_mem_nil, or_false]
  grind

/-- A closing bracket without match has been found. -/
def Flawed (s : Survey) : Prop :=
  s.lone ≠ [] ∨ ∃ p ∈ s.pairs, bracketPairs.lookup p.1.char ≠ some p.2.char

theorem flawed_pair_iff : Flawed { s with opened := bs, pairs := (b, m) :: s.pairs } ↔
    s.Flawed ∨ bracketPairs.lookup b.char ≠ some m.char := by
  simp only [Flawed, List.mem_cons, exists_eq_or_imp]
  rw [or_left_comm, or_comm]

end Survey

theorem written_append (as bs : List Cell) : written (as ++ bs) = written as ++ written bs :=
  List.flatMap_append

/-! ### Offsets into what has been written -/

/-- The offsets of open brackets are those at which they stand in what has been written.  Each
bracket stands before the one above it. -/
inductive Points (s : Survey) (cursor : Nat) : List Mark → List OpenBracket → List Mark → Prop
  | nil (ms : List Mark) : Points s cursor ms [] []
  | cons {before : List Mark} {b : Mark} {stack : List OpenBracket} {opened : List Mark}
      (h : Points s cursor before stack opened) (after : List Mark) :
      Points s cursor (before ++ b :: after)
        (⟨b.char, b.byte, byteLength (written (s.cells cursor before))⟩ :: stack) (b :: opened)

section

variable {s s' : Survey} {cursor : Nat} {ms : List Mark} {stack : List OpenBracket}
  {opened : List Mark}

theorem Points.append (h : Points s cursor ms stack opened) (more : List Mark) :
    Points s cursor (ms ++ more) stack opened := by
  cases h with
  | nil => exact .nil _
  | cons h after =>
      rw [List.append_assoc, List.cons_append]
      exact .cons h (after ++ more)

/-- The offsets stay right as long as no colour changes before the last open bracket. -/
theorem Points.congr (h : Points s cursor ms stack opened)
    (hpaint : ∀ x ∈ ms, s'.paint cursor x = s.paint cursor x) :
    Points s' cursor ms stack opened := by
  induction h with
  | nil ms => exact .nil ms
  | cons h after ih =>
      have hbefore := fun x hx => hpaint x (List.mem_append_left _ hx)
      rw [← Survey.cells_congr hbefore]
      exact .cons (ih hbefore) after

theorem Points.stack_eq_nil (h : Points s cursor ms stack []) : stack = [] := by
  cases h
  rfl

/-- Each entry of the stack is that of a bracket that is open. -/
theorem Points.exists_eq (h : Points s cursor ms stack opened) {e : OpenBracket} (he : e ∈ stack) :
    ∃ before b after, ms = before ++ b :: after ∧ b ∈ opened ∧
      e = ⟨b.char, b.byte, byteLength (written (s.cells cursor before))⟩ := by
  induction h with
  | nil => cases he
  | @cons below b stack opened h after ih =>
      rcases List.mem_cons.1 he with rfl | he
      · exact ⟨below, b, after, rfl, List.mem_cons_self, rfl⟩
      · obtain ⟨before, d, rest, rfl, hd, heq⟩ := ih he
        refine ⟨before, d, rest ++ b :: after, ?_, List.mem_cons_of_mem b hd, heq⟩
        rw [List.append_assoc, List.cons_append]

theorem Points.mem (h : Points s cursor ms stack opened) : ∀ b ∈ opened, b ∈ ms := by
  induction h with
  | nil => simp
  | cons h after ih =>
      refine List.forall_mem_cons.2 ⟨by simp, fun b hb => ?_⟩
      exact List.mem_append_left _ (ih b hb)

end

/-- What has been written shows the colours of a survey. -/
structure Shows (cursor : Nat) (ms : List Mark) (s : Survey) (v : Draft) : Prop where
  text : v.text = written (s.cells cursor ms)
  quoted : v.quoted = s.quoted
  points : Points s cursor ms v.stack s.opened
  nodup : ms.Nodup
  found : ∀ m ∈ s.found, m ∈ ms
  opened : ∀ m ∈ s.opened, m ∉ s.found
  flawed : s.Flawed → ∃ m ∈ ms, s.paint cursor m = .unmatched ∨ s.paint cursor m = .mismatched

namespace Draft

variable {v : Draft}

/-- Writing over hits the bracket that is meant. -/
theorem repaint?_eq {b : OpenBracket} {before after : List Char}
    (htext : v.text = before ++ b.char :: after) (hoffset : byteLength before = b.offset)
    (p : Paint) :
    v.repaint? b p = some { v with text := before ++ (Cell.shown ⟨b.char, p⟩ ++ after) } := by
  have hreplace := replaceBytes?_append before [b.char] after (Cell.shown ⟨b.char, p⟩)
  rw [byteLength_cons, byteLength_nil, Nat.add_zero, hoffset, List.singleton_append,
    ← htext] at hreplace
  rw [repaint?, Cell.text_eq, hreplace]
  rfl

/-- A closing bracket gives its colour and that of the bracket that it takes off the stack. -/
theorem close?_eq {cursor : Nat} {b : Mark} {before after : List Char} {stack : List OpenBracket}
    (hstack : v.stack = ⟨b.char, b.byte, byteLength before⟩ :: stack)
    (htext : v.text = before ++ b.char :: after) (m : Mark) :
    v.close? cursor m.byte m.char = some { v with
      stack
      text := before ++ (Cell.shown ⟨b.char, (Survey.pairPaint cursor b m).1⟩ ++
        (after ++ Cell.shown ⟨m.char, (Survey.pairPaint cursor b m).2⟩)) } := by
  have hput : ∀ p, (put { v with stack } m.char p).text =
      before ++ b.char :: (after ++ Cell.shown ⟨m.char, p⟩) := by
    intro p
    rw [text_put, htext, List.append_assoc, List.cons_append]
  have hcursor : (atCursor cursor m.byte || atCursor cursor b.byte) = true ↔
      (m.byte = cursor ∨ m.byte + 1 = cursor) ∨ b.byte = cursor ∨ b.byte + 1 = cursor := by
    rw [Bool.or_eq_true, atCursor_iff, atCursor_iff]
  rw [close?, hstack, Survey.pairPaint]
  dsimp only
  by_cases hcloses : bracketPairs.lookup b.char = some m.char
  · rw [if_pos (closes_iff_lookup.2 hcloses), if_pos hcloses]
    split
    · rename_i hnear
      rw [if_pos (hcursor.1 hnear), repaint?_eq (hput _) rfl]
      rfl
    · rename_i hnear
      rw [if_neg (mt hcursor.2 hnear), put, htext, List.append_assoc]
      rfl
  · rw [if_neg (mt closes_iff_lookup.1 hcloses), if_neg hcloses, repaint?_eq (hput _) rfl]
    rfl

end Draft

/-! ### One character -/

section

variable {cursor : Nat} {ms : List Mark} {s s' : Survey} {v v' : Draft} {m : Mark}

/-- A character that leaves the colours before it as they are. -/
theorem Shows.put (h : Shows cursor ms s v) (hm : m ∉ ms)
    (hpaint : ∀ x ∈ ms, s'.paint cursor x = s.paint cursor x)
    (htext : v'.text = v.text ++ Cell.shown ⟨m.char, s'.paint cursor m⟩)
    (hquoted : v'.quoted = s'.quoted)
    (hpoints : Points s' cursor (ms ++ [m]) v'.stack s'.opened)
    (hfound : ∀ x ∈ s'.found, x = m ∨ x ∈ s.found)
    (hopened : ∀ x ∈ s'.opened, x ∉ s'.found)
    (hflawed : s'.Flawed → s.Flawed ∨
      s'.paint cursor m = .unmatched ∨ s'.paint cursor m = .mismatched) :
    Shows cursor (ms ++ [m]) s' v' where
  text := by
    rw [htext, h.text, Survey.cells_append, Survey.cells_congr hpaint, written_append]
    exact congrArg _ (List.append_nil _).symm
  quoted := hquoted
  points := hpoints
  nodup := List.concat_eq_append ▸ h.nodup.concat hm
  found x hx := by
    rcases hfound x hx with rfl | hx
    · simp
    · exact List.mem_append_left _ (h.found x hx)
  opened := hopened
  flawed hs := by
    rcases hflawed hs with hs | hs
    · obtain ⟨x, hx, hred⟩ := h.flawed hs
      exact ⟨x, List.mem_append_left _ hx, by rwa [hpaint x hx]⟩
    · exact ⟨m, by simp, hs⟩

theorem Shows.notMem_found (h : Shows cursor ms s v) (hm : m ∉ ms) : m ∉ s.found :=
  fun hfound => hm (h.found m hfound)

theorem Shows.step_string (h : Shows cursor ms s v) (hm : m ∉ ms) (q : Bool) :
    Shows cursor (ms ++ [m]) { s with quoted := q, strings := m :: s.strings }
      ({ v with quoted := q }.put m.char .string) := by
  have hpaint : ∀ x ∈ ms, Survey.paint { s with quoted := q, strings := m :: s.strings } cursor x =
      s.paint cursor x := by
    rintro x hx
    refine Survey.paint_string_of_ne q ?_
    rintro rfl
    exact hm hx
  refine h.put hm hpaint ?_ rfl ((h.points.congr hpaint).append [m]) ?_ ?_ .inl
  · rw [Survey.paint_string]
    exact Draft.text_put _ _ _
  · simp [Survey.found]
  · intro x hx hfound
    rcases List.mem_cons.1 hfound with rfl | hfound
    · exact hm (h.points.mem x hx)
    · exact h.opened x hx hfound

theorem Shows.step_plain (h : Shows cursor ms s v) (hm : m ∉ ms) :
    Shows cursor (ms ++ [m]) s (v.put m.char .plain) := by
  have hfound := h.notMem_found hm
  refine h.put hm (fun _ _ => rfl) ?_ h.quoted (h.points.append [m]) (fun _ => .inr) h.opened .inl
  rw [Survey.paint_of_notMem hfound]
  exact Draft.text_put _ _ _

theorem Shows.step_opening (h : Shows cursor ms s v) (hm : m ∉ ms) :
    Shows cursor (ms ++ [m]) { s with opened := m :: s.opened }
      ({ v with stack := ⟨m.char, m.byte, byteLength v.text⟩ :: v.stack }.put m.char .plain) := by
  have hfound := h.notMem_found hm
  refine h.put hm (fun _ _ => rfl) ?_ h.quoted ?_ (fun _ => .inr) ?_ .inl
  · rw [show Survey.paint { s with opened := m :: s.opened } cursor m = s.paint cursor m from rfl,
      Survey.paint_of_notMem hfound]
    exact Draft.text_put _ _ _
  · rw [h.text]
    exact Points.cons (s := { s with opened := m :: s.opened }) (h.points.congr fun _ _ => rfl) []
  · exact List.forall_mem_cons.2 ⟨hfound, h.opened⟩

theorem Shows.step_lone (h : Shows cursor ms s v) (hm : m ∉ ms) :
    Shows cursor (ms ++ [m]) { s with lone := m :: s.lone } (v.put m.char .unmatched) := by
  have hfound := h.notMem_found hm
  have hmpaint : Survey.paint { s with lone := m :: s.lone } cursor m = .unmatched :=
    Survey.paint_lone fun hstring => hfound (List.mem_append_left _ hstring)
  have hpaint : ∀ x ∈ ms, Survey.paint { s with lone := m :: s.lone } cursor x =
      s.paint cursor x := by
    rintro x hx
    refine Survey.paint_lone_of_ne ?_
    rintro rfl
    exact hm hx
  refine h.put hm hpaint ?_ h.quoted ((h.points.congr hpaint).append [m])
    (fun _ => Survey.mem_found_lone.1) ?_ fun _ => .inr (.inl hmpaint)
  · rw [hmpaint]
    exact Draft.text_put _ _ _
  · intro x hx hfound
    rcases Survey.mem_found_lone.1 hfound with rfl | hfound
    · exact hm (h.points.mem x hx)
    · exact h.opened x hx hfound

section

variable {b : Mark} {bs before after : List Mark}

/-- Only the two brackets of a new pair change their colours. -/
theorem Survey.paint_pair_other (s : Survey) (cursor : Nat) (bs : List Mark)
    (hnodup : (before ++ b :: after).Nodup) (hm : m ∉ before ++ b :: after) :
    ∀ x ∈ before ++ after, b ≠ x ∧
      paint { s with opened := bs, pairs := (b, m) :: s.pairs } cursor x = s.paint cursor x := by
  obtain ⟨hb, -⟩ := List.nodup_cons.1 (List.nodup_middle.1 hnodup)
  intro x hx
  have hbx : b ≠ x := fun heq => hb (heq ▸ hx)
  refine ⟨hbx, paint_pair_of_ne hbx ?_⟩
  rintro rfl
  rw [List.mem_append, List.mem_cons] at hm
  exact hm ((List.mem_append.1 hx).imp_right .inr)

/-- What has been written on both sides of an open bracket. -/
theorem Shows.text_eq (h : Shows cursor (before ++ b :: after) s v) (hb : b ∈ s.opened) :
    v.text = written (s.cells cursor before) ++ b.char :: written (s.cells cursor after) := by
  rw [h.text, Survey.cells_append, written_append, Survey.cells_cons,
    Survey.paint_of_notMem (h.opened b hb)]
  rfl

/-- A pair that does not match is red, and what was red before stays red. -/
theorem Shows.exists_red_pair (h : Shows cursor (before ++ b :: after) s v)
    (hm : m ∉ before ++ b :: after) (hb : b ∈ s.opened) (hbm : b ≠ m)
    (hflawed : s.Flawed ∨ bracketPairs.lookup b.char ≠ some m.char) :
    ∃ x ∈ before ++ b :: after ++ [m],
      Survey.paint { s with opened := bs, pairs := (b, m) :: s.pairs } cursor x = .unmatched ∨
      Survey.paint { s with opened := bs, pairs := (b, m) :: s.pairs } cursor x = .mismatched := by
  rcases hflawed with hflawed | hcloses
  · obtain ⟨x, hx, hred⟩ := h.flawed hflawed
    -- The opening bracket was plain until now, so it is another character that was red.
    have hxb : x ≠ b := by
      rintro rfl
      rw [Survey.paint_of_notMem (h.opened x hb)] at hred
      simp at hred
    have hother : x ∈ before ++ after := by
      simpa [hxb] using hx
    refine ⟨x, List.mem_append_left _ hx, ?_⟩
    rwa [(Survey.paint_pair_other s cursor bs h.nodup hm x hother).2]
  · refine ⟨m, by simp, .inl ?_⟩
    rw [Survey.paint_closer (h.notMem_found hm) hbm, Survey.pairPaint, if_neg hcloses]

/-- A closing bracket takes the last open one off the stack, and both get their colours. -/
theorem Shows.step_pair (h : Shows cursor ms s v) (hm : m ∉ ms) (hs : s.opened = b :: bs) :
    ∃ v', v.close? cursor m.byte m.char = some v' ∧
      Shows cursor (ms ++ [m]) { s with opened := bs, pairs := (b, m) :: s.pairs } v' := by
  have hmfound := h.notMem_found hm
  have hb : b ∈ s.opened := by simp [hs]
  have hpoints := h.points
  rw [hs] at hpoints
  generalize hstack : v.stack = stack at hpoints
  cases hpoints with
  | @cons before _ stack _ hpoints after =>
      have hbm : b ≠ m := fun heq => hm (by simp [heq])
      have hother := Survey.paint_pair_other s cursor bs h.nodup hm
      have hbefore := fun x hx => (hother x (List.mem_append_left after hx)).2
      have hafter := fun x hx => (hother x (List.mem_append_right before hx)).2
      refine ⟨_, Draft.close?_eq hstack (h.text_eq hb) m, ?_, h.quoted, ?_, ?_, ?_, ?_, ?_⟩
      · rw [Survey.cells_append, Survey.cells_append, Survey.cells_cons, Survey.cells_congr hbefore,
          Survey.cells_congr hafter, Survey.paint_opener (h.opened b hb), Survey.cells_cons,
          Survey.paint_closer hmfound hbm]
        simp [written, Survey.cells]
      -- The brackets below on the stack stand before `b`, where no colour has changed.
      · exact ((hpoints.congr hbefore).append (b :: after)).append [m]
      · exact List.concat_eq_append ▸ h.nodup.concat hm
      · intro x hx
        rcases Survey.mem_found_pair.1 hx with rfl | rfl | hx
        · simp
        · simp
        · exact List.mem_append_left _ (h.found x hx)
      · intro x hx hfound
        have hx' := hpoints.mem x hx
        rcases Survey.mem_found_pair.1 hfound with rfl | rfl | hfound
        · exact (hother x (List.mem_append_left after hx')).1 rfl
        · exact hm (List.mem_append_left _ hx')
        · exact h.opened x (by rw [hs]; exact List.mem_cons_of_mem _ hx) hfound
      · exact fun hflawed => h.exists_red_pair hm hb hbm (Survey.flawed_pair_iff.1 hflawed)

end

/-- Each character is written in its colour, and what was written before it gets the colours that
the survey now has for it. -/
theorem Shows.step (h : Shows cursor ms s v) (hm : m ∉ ms) :
    ∃ v', v.step? cursor m.byte m.char = some v' ∧ Shows cursor (ms ++ [m]) (s.step m) v' := by
  rw [Draft.step?, Survey.step]
  by_cases hquoted : s.quoted
  · rw [if_pos (h.quoted.trans hquoted), if_pos hquoted]
    exact ⟨_, rfl, h.step_string hm _⟩
  rw [if_neg (h.quoted ▸ hquoted), if_neg hquoted]
  by_cases hquote : m.char = '"'
  · rw [if_pos hquote, if_pos hquote]
    exact ⟨_, rfl, h.step_string hm true⟩
  rw [if_neg hquote, if_neg hquote]
  by_cases hopening : m.char ∈ bracketPairs.map Prod.fst
  · rw [if_pos (isOpening_iff_mem.2 hopening), if_pos hopening]
    exact ⟨_, rfl, h.step_opening hm⟩
  rw [if_neg (mt isOpening_iff_mem.1 hopening), if_neg hopening]
  by_cases hclosing : m.char ∈ bracketPairs.map Prod.snd
  · rw [if_pos (isClosing_iff_mem.2 hclosing), if_pos hclosing]
    cases hs : s.opened with
    | cons b bs => exact h.step_pair hm hs
    | nil =>
        have hlone := h.step_lone hm
        have hpoints := h.points
        rw [hs] at hlone hpoints
        rw [Draft.close?, hpoints.stack_eq_nil]
        exact ⟨_, rfl, hlone⟩
  · rw [if_neg (mt isClosing_iff_mem.1 hclosing), if_neg hclosing]
    exact ⟨_, rfl, h.step_plain hm⟩

/-! ### A whole line -/

theorem Shows.write {n : Nat} {cs : List Char} (h : Shows cursor ms s v)
    (hnodup : (ms ++ marks n cs).Nodup) :
    ∃ v', v.write? cursor n cs = some v' ∧
      Shows cursor (ms ++ marks n cs) (s.run (marks n cs)) v' := by
  induction cs generalizing ms s v n with
  | nil =>
      rw [marks, List.append_nil]
      exact ⟨v, rfl, h⟩
  | cons c cs ih =>
      have hsplit : ms ++ marks n (c :: cs) = ms ++ [⟨c, n⟩] ++ marks (n + c.utf8Size) cs := by
        simp [marks]
      rw [hsplit] at hnodup ⊢
      have hm : (⟨c, n⟩ : Mark) ∉ ms := by
        have hnodup := List.Nodup.of_append_left hnodup
        intro hmem
        exact (List.nodup_append.1 hnodup).2.2 _ hmem _ (by simp) rfl
      obtain ⟨v₁, hstep, hshows⟩ := h.step hm
      obtain ⟨v', hwrite, hshows'⟩ := ih hshows hnodup
      refine ⟨v', ?_, hshows'⟩
      rw [Draft.write?, hstep]
      exact hwrite

theorem shows_start (cursor : Nat) : Shows cursor [] Survey.start ⟨[], [], false⟩ where
  text := rfl
  quoted := rfl
  points := .nil []
  nodup := List.nodup_nil
  found := by simp [Survey.found, Survey.start]
  opened := by simp [Survey.start]
  flawed := by simp [Survey.Flawed, Survey.start]

theorem exists_shows (cs : List Char) (cursor : Nat) :
    ∃ v, Draft.write? cursor ⟨[], [], false⟩ 0 cs = some v ∧
      Shows cursor (marks 0 cs) (Survey.start.run (marks 0 cs)) v :=
  (shows_start cursor).write (nodup_marks 0 cs)

end

/-! ### Flaws -/

namespace Survey

variable {s : Survey} {cursor : Nat} {m : Mark}

/-- What is open, as for a verdict. -/
def pending (s : Survey) : Open :=
  ⟨s.opened.map Mark.char, s.quoted⟩

/-- A character leads on as it does for a verdict, and is no flaw, or it is a flaw and decides the
verdict. -/
theorem step_next? (s : Survey) (m : Mark) :
    (s.pending.next? m.char = some (s.step m).pending ∧ ((s.step m).Flawed ↔ s.Flawed)) ∨
      (s.pending.next? m.char = none ∧ (s.step m).Flawed) := by
  rw [Open.next?, step]
  by_cases hquoted : s.quoted
  · rw [if_pos (show s.pending.quoted = true from hquoted), if_pos hquoted]
    exact .inl ⟨rfl, .rfl⟩
  rw [if_neg (show ¬ s.pending.quoted = true from hquoted), if_neg hquoted]
  by_cases hquote : m.char = '"'
  · rw [if_pos hquote, if_pos hquote]
    exact .inl ⟨rfl, .rfl⟩
  rw [if_neg hquote, if_neg hquote]
  by_cases hopening : m.char ∈ bracketPairs.map Prod.fst
  · rw [if_pos (isOpening_iff_mem.2 hopening), if_pos hopening]
    exact .inl ⟨rfl, .rfl⟩
  rw [if_neg (mt isOpening_iff_mem.1 hopening), if_neg hopening]
  by_cases hclosing : m.char ∈ bracketPairs.map Prod.snd
  · rw [if_pos (isClosing_iff_mem.2 hclosing), if_pos hclosing, pending]
    cases s.opened with
    | nil => exact .inr ⟨rfl, .inl (List.cons_ne_nil _ _)⟩
    | cons b bs =>
        by_cases hcloses : bracketPairs.lookup b.char = some m.char
        · exact .inl ⟨if_pos (closes_iff_lookup.2 hcloses),
            flawed_pair_iff.trans (or_iff_left (not_not.2 hcloses))⟩
        · exact .inr ⟨if_neg (mt closes_iff_lookup.1 hcloses), flawed_pair_iff.2 (.inr hcloses)⟩
  · rw [if_neg (mt isClosing_iff_mem.1 hclosing), if_neg hclosing]
    exact .inl ⟨rfl, .rfl⟩

theorem Flawed.step (h : s.Flawed) (m : Mark) : (s.step m).Flawed := by
  rcases s.step_next? m with ⟨-, hiff⟩ | ⟨-, hflawed⟩
  · exact hiff.2 h
  · exact hflawed

theorem Flawed.run (h : s.Flawed) (ms : List Mark) : (s.run ms).Flawed := by
  induction ms generalizing s with
  | nil => exact h
  | cons m ms ih => exact ih (h.step m)

/-- A flaw is found just when the verdict names a bracket. -/
theorem flawed_run_iff (h : ¬ s.Flawed) (n i : Nat) (cs : List Char) :
    (s.run (marks n cs)).Flawed ↔ ∃ c j, s.pending.judge i cs = .invalid c j := by
  induction cs generalizing s n i with
  | nil =>
      refine iff_of_false h ?_
      rintro ⟨c, j, hinvalid⟩
      exact s.pending.judge_nil_ne i c j hinvalid
  | cons c cs ih =>
      rw [Open.judge_cons]
      rcases s.step_next? ⟨c, n⟩ with ⟨hnext, hiff⟩ | ⟨hnext, hflawed⟩
      · rw [show s.pending.next? c = _ from hnext]
        exact ih (mt hiff.1 h) _ _
      · rw [show s.pending.next? c = _ from hnext]
        exact iff_of_true (hflawed.run _) ⟨c, i, rfl⟩

/-- Only a flaw is red. -/
theorem flawed_of_paint (h : s.paint cursor m = .unmatched ∨ s.paint cursor m = .mismatched) :
    s.Flawed := by
  rw [paint] at h
  split at h
  · simp at h
  split at h
  · rename_i hlone
    exact .inl (List.ne_nil_of_mem hlone)
  split at h
  · rename_i p hp
    refine .inr ⟨p, List.mem_of_find?_eq_some hp, fun hcloses => ?_⟩
    rw [pairPaint, if_pos hcloses] at h
    split at h <;> split at h <;> simp at h
  · simp at h

end Survey

theorem map_char_painted (cs : List Char) (cursor : Nat) :
    (painted cs cursor).map Cell.char = cs := by
  rw [painted, Survey.map_char_cells, map_char_marks]

/-- An open bracket has been written plain, and its offset is where it stands. -/
theorem exists_painted_eq {cs : List Char} {cursor : Nat} {v : Draft}
    (h : Shows cursor (marks 0 cs) (Survey.start.run (marks 0 cs)) v) {e : OpenBracket}
    (he : e ∈ v.stack) :
    ∃ before after, painted cs cursor = before ++ ⟨e.char, .plain⟩ :: after ∧
      e.byte = byteLength (before.map Cell.char) ∧ e.offset = byteLength (written before) := by
  obtain ⟨before, b, after, hsplit, hb, rfl⟩ := h.points.exists_eq he
  refine ⟨_, (Survey.start.run (marks 0 cs)).cells cursor after, ?_, ?_, rfl⟩
  · rw [painted, ← Survey.paint_of_notMem (h.opened b hb), ← Survey.cells_cons,
      ← Survey.cells_append, ← hsplit]
  · rw [Survey.map_char_cells, byte_of_marks_eq hsplit, Nat.zero_add]

/-- Some character is red just when there is a flaw. -/
theorem exists_red_iff {cursor : Nat} {ms : List Mark} {s : Survey} {v : Draft}
    (h : Shows cursor ms s v) :
    (∃ cell ∈ s.cells cursor ms, cell.paint = .unmatched ∨ cell.paint = .mismatched) ↔
      s.Flawed := by
  constructor
  · rintro ⟨cell, hcell, hred⟩
    obtain ⟨m, -, rfl⟩ := List.mem_map.1 hcell
    exact Survey.flawed_of_paint hred
  · intro hflawed
    obtain ⟨m, hm, hred⟩ := h.flawed hflawed
    exact ⟨_, List.mem_map_of_mem hm, hred⟩

/-- **A line is coloured as if in two passes.**  Let a survey of a line find its strings and the
brackets that the stack pairs, and let each character then have the colour that goes with it.

* What is written in one pass is these characters, in order, each plain or between the sequence of
  its colour and the one that turns colours off.  They are the characters of the line.
* Without the sequences, what is written is the line, unless the line has such a sequence of its own.
* Wherever the pass stands, an open bracket is written plain at the offset that the stack holds for
  it, and writing over it later changes its colour and nothing else.
* Some bracket is red just when the verdict on the line names a closing bracket without match. -/
theorem highlight_two_pass (line : String) (cursor : Nat) :
    highlight? line cursor = some (highlight line cursor) ∧
    highlight line cursor = String.ofList (written (painted line.toList cursor)) ∧
    (painted line.toList cursor).map Cell.char = line.toList ∧
    ((∀ s ∈ sequences, ¬ s.toList <:+: line.toList) →
      removeSequences (highlight line cursor) = line) ∧
    (∀ cs, cs <+: line.toList → ∃ v, Draft.write? cursor ⟨[], [], false⟩ 0 cs = some v ∧
      v.text = written (painted cs cursor) ∧
      ∀ b ∈ v.stack, ∃ before after, painted cs cursor = before ++ ⟨b.char, .plain⟩ :: after ∧
        b.byte = byteLength (before.map Cell.char) ∧ b.offset = byteLength (written before) ∧
        ∀ c p q, (v.put c p).repaint? b q =
          some { v with text := written (before ++ ⟨b.char, q⟩ :: (after ++ [⟨c, p⟩])) }) ∧
    ((∃ cell ∈ painted line.toList cursor,
        cell.paint = .unmatched ∨ cell.paint = .mismatched) ↔
      ∃ c i, judge line = .invalid c i) := by
  obtain ⟨v, hwrite, hshows⟩ := exists_shows line.toList cursor
  have hhighlight : highlight? line cursor =
      some (String.ofList (written (painted line.toList cursor))) := by
    rw [highlight?, hwrite, Option.map_some, hshows.text]
    rfl
  have hprinted : highlight line cursor = String.ofList (written (painted line.toList cursor)) := by
    rw [highlight, hhighlight]
    rfl
  have hchars := map_char_painted line.toList cursor
  refine ⟨by rw [hprinted, hhighlight], hprinted, hchars, fun hline => ?_, fun cs _ => ?_, ?_⟩
  · rw [← hchars] at hline
    rw [hprinted, removeSequences, String.toList_ofList, withoutSequences_written hline, hchars,
      String.ofList_toList]
  · obtain ⟨v, hwrite, hshows⟩ := exists_shows cs cursor
    refine ⟨v, hwrite, hshows.text, fun b hb => ?_⟩
    obtain ⟨before, after, hpainted, hbyte, hoffset⟩ := exists_painted_eq hshows hb
    refine ⟨before, after, hpainted, hbyte, hoffset, fun c p q => ?_⟩
    have htext : (v.put c p).text =
        written before ++ b.char :: (written after ++ Cell.shown ⟨c, p⟩) := by
      rw [Draft.text_put, hshows.text, ← painted, hpainted, written_append, List.append_assoc]
      rfl
    rw [Draft.repaint?_eq htext hoffset.symm]
    simp [written, Draft.put]
  · have hstart : ¬ Survey.start.Flawed := by simp [Survey.Flawed, Survey.start]
    exact (exists_red_iff hshows).trans (Survey.flawed_run_iff hstart 0 0 line.toList)

/-- A pair at the cursor, inside one that does not match, before a string with a bracket in it. -/
theorem highlight_two_pass_nested :
    highlight "\x7b(é)]\"(" 5 = "\x1b[1;31m\x7b\x1b[0m" ++ "\x1b[1;34m(\x1b[0m" ++ "é" ++
      "\x1b[1;34m)\x1b[0m" ++ "\x1b[31m]\x1b[0m" ++ "\x1b[32m\"\x1b[0m" ++ "\x1b[32m(\x1b[0m" ∧
    removeSequences (highlight "\x7b(é)]\"(" 5) = "\x7b(é)]\"(" ∧
    (∃ v, Draft.write? 5 ⟨[], [], false⟩ 0 ['{', '(', 'é'] = some v ∧ v.text = ['{', '(', 'é'] ∧
      v.stack ≠ []) ∧
    ∃ c i, judge "\x7b(é)]\"(" = .invalid c i := by
  have hcells : painted "\x7b(é)]\"(".toList 5 = [⟨'{', .mismatched⟩, ⟨'(', .paired⟩, ⟨'é', .plain⟩,
      ⟨')', .paired⟩, ⟨']', .unmatched⟩, ⟨'"', .string⟩, ⟨'(', .string⟩] := by decide
  obtain ⟨-, hprinted, -, hremove, hstart, hred⟩ := highlight_two_pass "\x7b(é)]\"(" 5
  rw [hcells] at hprinted hred
  refine ⟨hprinted.trans (by decide +kernel), hremove (by decide +kernel), ?_,
    hred.1 ⟨_, List.mem_cons_self, .inr rfl⟩⟩
  obtain ⟨v, hwrite, htext, -⟩ := hstart ['{', '(', 'é'] (by decide)
  refine ⟨v, hwrite, htext.trans (by decide), ?_⟩
  have hrun : Draft.write? 5 ⟨[], [], false⟩ 0 ['{', '(', 'é'] =
      some ⟨['{', '(', 'é'], [⟨'(', 1, 1⟩, ⟨'{', 0, 0⟩], false⟩ := rfl
  obtain rfl := Option.some.inj (hwrite.symm.trans hrun)
  exact List.cons_ne_nil _ _

end Treewalk.Prompt
