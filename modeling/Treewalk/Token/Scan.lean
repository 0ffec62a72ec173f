import Treewalk.Text.Letter
import Treewalk.Text.Offset
import Treewalk.Token

/-! # Cutting a text into tokens

A text is read from the left.  Spaces, tabs, line feeds and carriage returns are layout and
are passed over; at any other character the longest lexeme that starts there is cut off.

* `lexeme` cuts off the lexeme at a character that is not layout: a run of letters and
  underscores, a run of digits, a string up to its closing quote or the end of the text, `==` and
  `!=`, or a single character.  Nothing is lost: its text and its rest make up what was read
  (`lexeme_append`).
* A run that spells a keyword is that keyword, except where the character after it begins, in
  UTF-8, with the byte of a letter.  There it is a name (`wordKind`).
* `scan` cuts a text into tokens, counting offsets from a given byte.
* `tokens` are those of a program text, and `endToken` marks its end. -/

namespace Treewalk.Token

open Text

/-- Layout separates tokens and is otherwise ignored. -/
def isLayout (c : Char) : Bool :=
  c == ' ' || c == '\t' || c == '\n' || c == '\r'

/-- The characters of names and keywords. -/
def isWordChar (c : Char) : Bool :=
  isLetter c || c == '_'

/-- The kinds of the tokens that are a single character. -/
def symbols : List (Char × Kind) :=
  [('=', .assign), ('+', .plus), ('-', .minus), ('!', .bang), ('*', .asterisk), ('/', .slash),
    ('<', .lt), ('>', .gt), (',', .comma), (';', .semicolon), (':', .colon), ('(', .lparen),
    (')', .rparen), ('{', .lbrace), ('}', .rbrace), ('[', .lbracket), (']', .rbracket)]

/-- The kind of a character that stands alone. -/
def symbolKind (c : Char) : Kind :=
  (symbols.lookup c).getD .illegal

/-- A piece cut off the start of a text: its kind, its characters, and the characters after it. -/
structure Lexeme where
  kind : Kind
  text : List Char
  rest : List Char

namespace Lexeme

/-- The text that a token shows: the characters of the lexeme, for a string those between the
quotes. -/
def literal (l : Lexeme) : List Char :=
  if l.kind = .string then (l.text.drop 1).takeWhile (· ≠ '"') else l.text

end Lexeme

/-- The string whose opening quote has been read. -/
def stringLexeme (cs : List Char) : Lexeme :=
  let body := cs.takeWhile (· ≠ '"')
  match cs.dropWhile (· ≠ '"') with
  | [] => ⟨.string, '"' :: body, []⟩
  | quote :: rest => ⟨.string, '"' :: (body ++ [quote]), rest⟩

/-- The lexeme of one or two characters that starts with `c`. -/
def symbolLexeme (c : Char) (cs : List Char) : Lexeme :=
  match cs with
  | '=' :: rest =>
    if c = '=' then ⟨.eq, [c, '='], rest⟩
    else if c = '!' then ⟨.notEq, [c, '='], rest⟩
    else ⟨symbolKind c, [c], cs⟩
  | _ => ⟨symbolKind c, [c], cs⟩

/-- The kind of a run of letters and underscores before the text `rest`. -/
def wordKind (word rest : List Char) : Kind :=
  if rest.head?.any beginsLikeLetter then .ident else .ofWord (String.ofList word)

/-- The longest lexeme at the start of the text `c :: cs`. -/
def lexeme (c : Char) (cs : List Char) : Lexeme :=
  if isWordChar c then
    let word := c :: cs.takeWhile isWordChar
    let rest := cs.dropWhile isWordChar
    ⟨wordKind word rest, word, rest⟩
  else if c.isDigit then
    ⟨.int, c :: cs.takeWhile Char.isDigit, cs.dropWhile Char.isDigit⟩
  else if c = '"' then stringLexeme cs
  else symbolLexeme c cs

theorem stringLexeme_append (cs : List Char) :
    (stringLexeme cs).text ++ (stringLexeme cs).rest = '"' :: cs := by
  have h := List.takeWhile_append_dropWhile (p := fun c => decide (c ≠ '"')) (l := cs)
  unfold stringLexeme
  split <;> rename_i heq <;> rw [heq] at h <;> simpa using h

theorem symbolLexeme_append (c : Char) (cs : List Char) :
    (symbolLexeme c cs).text ++ (symbolLexeme c cs).rest = c :: cs := by
  unfold symbolLexeme
  split
  · split
    · rfl
    · split <;> rfl
  · rfl

/-- A lexeme and what is left after it make up the text. -/
theorem lexeme_append (c : Char) (cs : List Char) :
    (lexeme c cs).text ++ (lexeme c cs).rest = c :: cs := by
  unfold lexeme
  split
  · simp
  · split
    · simp
    · split
      · rename_i hc
        rw [stringLexeme_append, hc]
      · exact symbolLexeme_append c cs

theorem stringLexeme_text_ne_nil (cs : List Char) : (stringLexeme cs).text ≠ [] := by
  unfold stringLexeme; split <;> simp

theorem symbolLexeme_text_ne_nil (c : Char) (cs : List Char) :
    (symbolLexeme c cs).text ≠ [] := by
  unfold symbolLexeme
  split
  · split
    · simp
    · split <;> simp
  · simp

/-- A lexeme has at least one character. -/
theorem lexeme_text_ne_nil (c : Char) (cs : List Char) : (lexeme c cs).text ≠ [] := by
  unfold lexeme
  split
  · simp
  · split
    · simp
    · split
      · exact stringLexeme_text_ne_nil cs
      · exact symbolLexeme_text_ne_nil c cs

/-- What is left after a lexeme is shorter than the text. -/
theorem length_rest_lexeme (c : Char) (cs : List Char) :
    (lexeme c cs).rest.length ≤ cs.length := by
  have h := congrArg List.length (lexeme_append c cs)
  have hne := List.length_pos_iff.2 (lexeme_text_ne_nil c cs)
  simp only [List.length_append, List.length_cons] at h
  omega

/-- The tokens of a text whose first character stands at the byte `offset`. -/
def scan (offset : Nat) : List Char → List Token
  | [] => []
  | c :: cs =>
    if isLayout c then scan (offset + c.utf8Size) cs
    else
      let l := lexeme c cs
      let stop := offset + byteLength l.text
      ⟨l.kind, String.ofList l.literal, ⟨offset, stop⟩⟩ :: scan stop l.rest
termination_by cs => cs.length
decreasing_by
  · simp
  · have := length_rest_lexeme c cs
    simp only [List.length_cons]
    omega

end Treewalk.Token

namespace Treewalk

/-- The tokens of a program text. -/
def tokens (source : String) : List Token :=
  Token.scan 0 source.toList

/-- The token that stands for the end of a program text, however often it is asked for. -/
def endToken (source : String) : Token :=
  ⟨.eof, "", ⟨source.utf8ByteSize, source.utf8ByteSize⟩⟩

end Treewalk
