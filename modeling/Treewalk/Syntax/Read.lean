import Treewalk.Decimal.Integer
import Treewalk.Syntax
import Treewalk.Syntax.Cursor
import Treewalk.Token.Scan

/-! # Reading a program

The grammar of the language as rules that read tokens.

* An expression is a **primary** followed by **tails**: operators with a right operand, calls and
  indexing.  A tail belongs to the expression as long as it binds more tightly than the rank the
  expression was asked for, so operators of one rank group to the left (`climb`).
* Each rule takes the reader for nested expressions as an argument, and each loop a count.
  `expression n` allows nesting and loops up to `n`; one more than the number of tokens is enough,
  since every nesting and every turn of a loop takes a token.
* A rule that fails leaves out its node, and the next statement is read from where it stopped.
  One pass so finds the faults of the whole text.
* `parse` gives the program of a text and its faults in the order they were met. -/

namespace Treewalk

namespace Grammar

open Reading

/-- The reader for nested expressions that bind more tightly than a rank. -/
abbrev Sub := Rank → Reading (Option (Expr Token))

/-- What may follow an expression to form a larger one. -/
inductive Tail
  | binary (op : BinaryOp)
  | call
  | index
deriving DecidableEq, Repr

namespace Tail

/-- The tail that a token starts. -/
def ofKind? : Token.Kind → Option Tail
  | .lparen => some call
  | .lbracket => some index
  | k => (BinaryOp.ofKind? k).map binary

def rank : Tail → Rank
  | binary op => op.rank
  | call => .call
  | index => .index

end Tail

/-! ### Statements -/

/-- `name = value`, after the word `let`. -/
def binding (sub : Sub) (mark : Token) : Reading (Option (Stmt Token)) :=
  onNode (expect .ident) fun target => onNode (expect .assign) fun _ => do
    let value ← sub .lowest
    skipSemicolon
    return value.map (.bind mark ⟨target, target.literal⟩)

/-- What follows the word `return`: a value, or nothing before `;`, `}` and the end. -/
def returning (sub : Sub) (mark : Token) : Reading (Option (Stmt Token)) := do
  let next ← peek
  if next.kind = .semicolon ∨ next.kind = .rbrace ∨ next.kind = .eof then
    skipSemicolon
    return some (.ret mark none)
  else
    let value ← sub .lowest
    skipSemicolon
    return value.map fun v => .ret mark (some v)

/-- An expression that stands as a statement. -/
def exprStatement (sub : Sub) : Reading (Option (Stmt Token)) := do
  let first ← peek
  let value ← sub .lowest
  skipSemicolon
  return value.map (.expr first)

/-- One statement, with the semicolon that may follow it. -/
def statement (sub : Sub) : Reading (Option (Stmt Token)) := do
  let first ← peek
  match first.kind with
  | .letWord =>
    let _ ← advance
    binding sub first
  | .returnWord =>
    let _ ← advance
    returning sub first
  | _ => exprStatement sub

/-- The statements up to a closing brace, and the brace. -/
def blockBody (sub : Sub) : Nat → Reading (Option (List (Stmt Token)))
  | 0 => stuck
  | n + 1 => do
    let next ← peek
    if next.kind = .rbrace then
      let _ ← advance
      return some []
    else if next.kind = .eof then
      report (.unexpected .rbrace next)
      return none
    else
      let s ← statement sub
      let ss ← blockBody sub n
      return ss.map (s.toList ++ ·)

/-- Statements in braces. -/
def block (sub : Sub) (n : Nat) : Reading (Option (Block Token)) :=
  onNode (expect .lbrace) fun mark => do
    let body ← blockBody sub n
    return body.map (.mk mark)

/-- The statements up to the end of the text. -/
def program (sub : Sub) : Nat → Reading (Program Token)
  | 0 => stuck
  | n + 1 => do
    let next ← peek
    if next.kind = .eof then return []
    else
      let s ← statement sub
      let ss ← program sub n
      return s.toList ++ ss

/-! ### Lists -/

/-- One or more expressions separated by commas, and the token that closes them. -/
def items (sub : Sub) (close : Token.Kind) : Nat → Reading (Option (List (Expr Token)))
  | 0 => stuck
  | n + 1 => do
    let e ← sub .lowest
    if ← accept .comma then
      let es ← items sub close n
      return e.bind fun e => es.map (e :: ·)
    else
      onNode (expect close) fun _ => return e.map ([·])

/-- Expressions separated by commas, and the token that closes them. -/
def list (sub : Sub) (close : Token.Kind) (n : Nat) : Reading (Option (List (Expr Token))) := do
  if ← accept close then return some []
  else items sub close n

/-- One or more names separated by commas, and the closing parenthesis. -/
def names : Nat → Reading (Option (List (Ident Token)))
  | 0 => stuck
  | n + 1 => onNode (expect .ident) fun t => do
    if ← accept .comma then
      let ts ← names n
      return ts.map (⟨t, t.literal⟩ :: ·)
    else
      onNode (expect .rparen) fun _ => return some [⟨t, t.literal⟩]

/-- The parameters of a function, in parentheses. -/
def params (n : Nat) : Reading (Option (List (Ident Token))) :=
  onNode (expect .lparen) fun _ => do
    if ← accept .rparen then return some []
    else names n

/-- The entries of a table up to its closing brace, and the brace.  A comma may follow the last
entry. -/
def entries (sub : Sub) : Nat → Reading (Option (List (Expr Token × Expr Token)))
  | 0 => stuck
  | n + 1 => do
    if ← accept .rbrace then return some []
    else
      let key ← sub .lowest
      onNode (expect .colon) fun _ => do
        let value ← sub .lowest
        match key, value with
        | some key, some value =>
          let next ← peek
          if next.kind = .rbrace then
            let es ← entries sub n
            return es.map ((key, value) :: ·)
          else
            onNode (expect .comma) fun _ => do
              let es ← entries sub n
              return es.map ((key, value) :: ·)
        | _, _ => return none

/-! ### Expressions -/

/-- What follows the word `if`. -/
def conditional (sub : Sub) (n : Nat) (mark : Token) : Reading (Option (Expr Token)) :=
  onNode (expect .lparen) fun _ => do
    let test ← sub .lowest
    onNode (expect .rparen) fun _ => onNode (block sub n) fun yes => do
      if ← accept .elseWord then
        onNode (block sub n) fun no => return test.map (.cond mark · yes (some no))
      else return test.map (.cond mark · yes none)

/-- What follows the word `fn`. -/
def function (sub : Sub) (n : Nat) (mark : Token) : Reading (Option (Expr Token)) :=
  onNode (params n) fun ps => onNode (block sub n) fun body => return some (.func mark ps body)

/-- What follows an opening parenthesis. -/
def grouped (sub : Sub) : Reading (Option (Expr Token)) := do
  let e ← sub .lowest
  onNode (expect .rparen) fun _ => return e

/-- The number that a token shows. -/
def number (t : Token) : Reading (Option (Expr Token)) :=
  match Integer.ofDigits? t.literal.toList with
  | some v => return some (.int t v)
  | none => do
    report (.integerRange t)
    return none

/-- An expression up to its first tail. -/
def primary (sub : Sub) (n : Nat) : Reading (Option (Expr Token)) := do
  let t ← advance
  match t.kind with
  | .ident => return some (.name ⟨t, t.literal⟩)
  | .int => number t
  | .string => return some (.string t t.literal)
  | .trueWord => return some (.bool t true)
  | .falseWord => return some (.bool t false)
  | .lparen => grouped sub
  | .ifWord => conditional sub n t
  | .fnWord => function sub n t
  | .lbracket => onNode (list sub .rbracket n) fun es => return some (.array t es)
  | .lbrace => onNode (entries sub n) fun es => return some (.table t es)
  | k =>
    match UnaryOp.ofKind? k with
    | some op => onNode (sub .prefixed) fun e => return some (.unary t op e)
    | none => do
      report (.noExpression t)
      return none

/-- A larger expression out of `left` and the tail whose first token `mark` has been read. -/
def extend (sub : Sub) (n : Nat) (mark : Token) (left : Expr Token) :
    Tail → Reading (Option (Expr Token))
  | .binary op => onNode (sub op.rank) fun right => return some (.binary mark left op right)
  | .call => onNode (list sub .rparen n) fun args => return some (.call mark left args)
  | .index => do
    let key ← sub .lowest
    onNode (expect .rbracket) fun _ => return key.map (.index mark left)

/-- Extends `left` by the tails that bind more tightly than a rank. -/
def climb (sub : Sub) : Nat → Rank → Expr Token → Reading (Option (Expr Token))
  | 0, _, _ => stuck
  | n + 1, r, left => do
    let next ← peek
    match Tail.ofKind? next.kind with
    | some tail =>
      if r.level < tail.rank.level then
        let _ ← advance
        onNode (extend sub n next left tail) (climb sub n r)
      else return some left
    | none => return some left

/-- An expression whose tails bind more tightly than a rank. -/
def expression : Nat → Sub
  | 0, _ => stuck
  | n + 1, r => onNode (primary (expression n) n) (climb (expression n) n r)

end Grammar

/-- What a text reads as: the statements that could be read, and the faults in the order they were
met. -/
structure Parsed where
  program : Program Token
  errors : List SyntaxError

/-- Reads the tokens of a text whose end is marked by `finish`. -/
def parseTokens (ts : List Token) (finish : Token) : Parsed :=
  let n := ts.length + 1
  match Grammar.program (Grammar.expression n) n ⟨ts, finish, []⟩ with
  | some (p, c) => ⟨p, c.errors.reverse⟩
  | none => ⟨[], []⟩

/-- Reads a program text. -/
def parse (source : String) : Parsed :=
  parseTokens (tokens source) (endToken source)

end Treewalk
