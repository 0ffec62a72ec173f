/-! # Tokens

The smallest units of a program text.

* A `Span` is a stretch of the text, in bytes of its UTF-8 form.
* A `Token` has a kind, its text (for a string, the text between the quotes) and its span.
* `Kind.name` is the name under which a kind is shown in messages. -/

namespace Treewalk

/-- The stretch of a text from the byte `start` up to, and not including, the byte `stop`. -/
structure Span where
  start : Nat
  stop : Nat
deriving DecidableEq, Repr

namespace Span

/-- The written form of a span, `start..stop`. -/
def text (s : Span) : String :=
  toString s.start ++ ".." ++ toString s.stop

/-- The same stretch, `n` bytes further on. -/
def shift (n : Nat) (s : Span) : Span :=
  ⟨n + s.start, n + s.stop⟩

end Span

namespace Token

/-- What a token is.  `illegal` stands for a character that starts no token, and `eof` for the
end of the text. -/
inductive Kind
  | illegal | eof
  | ident | int | string
  | assign | plus | minus | bang | asterisk | slash | lt | gt | eq | notEq
  | comma | semicolon | colon | lparen | rparen | lbrace | rbrace | lbracket | rbracket
  | fnWord | letWord | trueWord | falseWord | ifWord | elseWord | returnWord
deriving DecidableEq, Repr

namespace Kind

/-- Every kind, in the order of the declaration. -/
def all : List Kind :=
  [illegal, eof, ident, int, string,
    assign, plus, minus, bang, asterisk, slash, lt, gt, eq, notEq,
    comma, semicolon, colon, lparen, rparen, lbrace, rbrace, lbracket, rbracket,
    fnWord, letWord, trueWord, falseWord, ifWord, elseWord, returnWord]

/-- The name of a kind in messages. -/
def name : Kind → String
  | illegal => "ILLEGAL"
  | eof => "EOF"
  | ident => "IDENT"
  | int => "INT"
  | string => "STRING"
  | assign => "="
  | plus => "+"
  | minus => "-"
  | bang => "!"
  | asterisk => "*"
  | slash => "/"
  | lt => "<"
  | gt => ">"
  | eq => "=="
  | notEq => "!="
  | comma => ","
  | semicolon => ";"
  | colon => ":"
  | lparen => "("
  | rparen => ")"
  | lbrace => "\x7b"
  | rbrace => "\x7d"
  | lbracket => "["
  | rbracket => "]"
  | fnWord => "FUNCTION"
  | letWord => "LET"
  | trueWord => "TRUE"
  | falseWord => "FALSE"
  | ifWord => "IF"
  | elseWord => "ELSE"
  | returnWord => "RETURN"

/-- The words that are not names, with their kinds. -/
def keywords : List (String × Kind) :=
  [("fn", fnWord), ("let", letWord), ("true", trueWord), ("false", falseWord),
    ("if", ifWord), ("else", elseWord), ("return", returnWord)]

/-- The kind of a run of letters and underscores: that of the keyword it is, and else a name. -/
def ofWord (w : String) : Kind :=
  (keywords.lookup w).getD ident

theorem mem_all (k : Kind) : k ∈ all := by
  cases k <;> decide

end Kind

end Token

/-- A token: its kind, its text, and where it stands.  The text of a string leaves out the
quotes, which belong to the span. -/
structure Token where
  kind : Token.Kind
  literal : String
  span : Span
deriving DecidableEq, Repr

namespace Token

/-- The same token, `n` bytes further on. -/
def shift (n : Nat) (t : Token) : Token :=
  { t with span := t.span.shift n }

end Token

end Treewalk
