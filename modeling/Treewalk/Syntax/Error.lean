import Treewalk.Token

/-! # Syntax errors

What can be wrong with a program text, the token that shows it, and the messages.

* `message` is the sentence for the whole error.
* `hint` is the remark at the place of the error in a report. -/

namespace Treewalk

/-- A fault in a program text. -/
inductive SyntaxError
  /-- Another kind of token was required where `found` stands. -/
  | unexpected (expected : Token.Kind) (found : Token)
  /-- No expression starts with this token. -/
  | noExpression (found : Token)
  /-- The number is not a 64-bit signed integer. -/
  | integerRange (found : Token)
deriving DecidableEq, Repr

namespace SyntaxError

/-- The token at which the fault shows. -/
def token : SyntaxError → Token
  | unexpected _ t | noExpression t | integerRange t => t

def message : SyntaxError → String
  | unexpected k t => "expected next token to be " ++ k.name ++ ", got " ++ t.kind.name ++ " instead"
  | noExpression t => "no prefix parse function for " ++ t.kind.name ++ " found"
  | integerRange t => "could not parse " ++ t.literal ++ " as integer"

def hint : SyntaxError → String
  | unexpected k _ => "Expected " ++ k.name ++ " here"
  | noExpression _ => "This token cannot start an expression"
  | integerRange _ => "This literal does not fit in a 64-bit integer"

/-- The same fault, `n` bytes further on. -/
def shift (n : Nat) : SyntaxError → SyntaxError
  | unexpected k t => unexpected k (t.shift n)
  | noExpression t => noExpression (t.shift n)
  | integerRange t => integerRange (t.shift n)

end SyntaxError

end Treewalk
