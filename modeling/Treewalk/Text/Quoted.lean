import Treewalk.Text.Extender
import Treewalk.Text.Glyphless

/-! # Quoted text

A text between double quotes in which every character can be seen.

* Quotes, backslashes and the common control characters are marked by a backslash.
* All other characters that are not seen on their own (`isUnseen`) are given by their code point. -/

namespace Treewalk.Text

/-- A number in hexadecimal. -/
def hexDigits (n : Nat) : List Char :=
  Nat.toDigits 16 n

/-- Whether a character is not seen on its own: it has no glyph, is not shown, or belongs to the
character before it.  The two halfwidth voicing marks do belong to the character before them, but have
a cell of their own. -/
def isUnseen (c : Char) : Bool :=
  isGlyphless c || isIgnorable c || (isExtender c && c != '\uff9e' && c != '\uff9f')

/-- The visible form of a character between double quotes. -/
def visible (c : Char) : List Char :=
  if c = '"' then ['\\', '"']
  else if c = '\\' then ['\\', '\\']
  else if c = '\n' then ['\\', 'n']
  else if c = '\r' then ['\\', 'r']
  else if c = '\t' then ['\\', 't']
  else if c.toNat = 0 then ['\\', '0']
  else if isUnseen c then ['\\', 'u', '{'] ++ hexDigits c.toNat ++ ['}']
  else [c]

/-- A text in its visible form, between double quotes. -/
def visiblyQuoted (s : String) : String :=
  String.ofList ('"' :: s.toList.flatMap visible ++ ['"'])

end Treewalk.Text
