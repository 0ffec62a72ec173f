/-! # Byte offsets

Positions in a text are counted in bytes of its UTF-8 form.

* `byteLength` is the length of a text in bytes.
* `takeBytes` is the longest start of a text that fits into a number of bytes.  When the number
  is the byte length of a start of the text, it is that start (`takeBytes_append`).
* `splitBytes?` cuts a text behind a number of bytes, and `replaceBytes?` writes over the bytes
  between two offsets.  Neither cuts a character. -/

namespace Treewalk.Text

/-- The length of the UTF-8 form of a text. -/
def byteLength : List Char → Nat
  | [] => 0
  | c :: cs => c.utf8Size + byteLength cs

@[simp] theorem byteLength_nil : byteLength [] = 0 := rfl

@[simp] theorem byteLength_cons (c : Char) (cs : List Char) :
    byteLength (c :: cs) = c.utf8Size + byteLength cs := rfl

@[simp] theorem byteLength_append (as bs : List Char) :
    byteLength (as ++ bs) = byteLength as + byteLength bs := by
  induction as with
  | nil => simp
  | cons a as ih => rw [List.cons_append, byteLength_cons, byteLength_cons, ih, Nat.add_assoc]

/-- Every character takes at least one byte. -/
theorem length_le_byteLength (cs : List Char) : cs.length ≤ byteLength cs := by
  induction cs with
  | nil => simp
  | cons c cs ih =>
    have := Char.utf8Size_pos c
    simp only [List.length_cons, byteLength_cons]
    omega

/-- The longest start of a text that takes at most `n` bytes. -/
def takeBytes : Nat → List Char → List Char
  | _, [] => []
  | n, c :: cs => if c.utf8Size ≤ n then c :: takeBytes (n - c.utf8Size) cs else []

theorem takeBytes_append (as bs : List Char) : takeBytes (byteLength as) (as ++ bs) = as := by
  induction as with
  | nil =>
    cases bs with
    | nil => rfl
    | cons c cs =>
      have := Char.utf8Size_pos c
      simp [takeBytes, Nat.ne_of_gt this]
  | cons c as ih => simp [takeBytes, ih]

/-- A text cut behind its first `n` bytes, if a character ends there. -/
def splitBytes? : Nat → List Char → Option (List Char × List Char)
  | 0, cs => some ([], cs)
  | _ + 1, [] => none
  | n + 1, c :: cs =>
    if c.utf8Size ≤ n + 1 then (splitBytes? (n + 1 - c.utf8Size) cs).map fun p => (c :: p.1, p.2)
    else none

theorem splitBytes?_append (as bs : List Char) :
    splitBytes? (byteLength as) (as ++ bs) = some (as, bs) := by
  induction as with
  | nil => cases bs <;> rfl
  | cons a as ih =>
    have hpos := Char.utf8Size_pos a
    obtain ⟨n, hn⟩ := Nat.exists_eq_add_one.2 (Nat.lt_add_right (byteLength as) hpos)
    rw [List.cons_append, byteLength_cons, hn, splitBytes?, if_pos (by omega), ← hn,
      Nat.add_sub_cancel_left, ih]
    rfl

/-- A text with the bytes from `start` to `stop` written over, if both are between characters. -/
def replaceBytes? (start stop : Nat) (new cs : List Char) : Option (List Char) :=
  (splitBytes? start cs).bind fun p =>
    (splitBytes? (stop - start) p.2).map fun q => p.1 ++ (new ++ q.2)

theorem replaceBytes?_append (before old after new : List Char) :
    replaceBytes? (byteLength before) (byteLength before + byteLength old) new
      (before ++ (old ++ after)) = some (before ++ (new ++ after)) := by
  rw [replaceBytes?, splitBytes?_append, Option.bind_some, Nat.add_sub_cancel_left,
    splitBytes?_append, Option.map_some]

end Treewalk.Text
