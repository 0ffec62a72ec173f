import Mathlib.Data.List.Induction
import Mathlib.Data.Nat.Digits.Defs
import Treewalk.Decimal.Integer
import Treewalk.Syntax

/-! # Spellings of a tree

The grammar of the language as a relation between trees and lists of tokens.

* An expression may stand in any number of pairs of parentheses.  As a part of a larger one it
  must stand in at least one pair where it would otherwise be read as something else
  (`Place.Encloses`).  `Expr.Bare` is its spelling without parentheses around it.
* The order of the operators (`BinaryOp.tightness`), the characters of words and signs
  (`Token.Kind.text`) and the values of numerals (`decimalValue`) are those of the grammar.  The
  ranks and the numbers with which a text is read agree with them (`BinaryOp.level_rank`,
  `Integer.ofDigits?_eq_some_iff`).
* A semicolon may follow each statement.  In a **closed** spelling one follows every statement that
  is not the last of its list.  Without it `a` and `(b)` side by side are also a call.
* The mark of a node is what `mark` makes of the token that introduces the node: with the
  identity the tree shows its own tokens, with a constant the relation is about the bare tree.

`Place.encloses_iff` turns the conditions on parentheses into a comparison of levels. -/

namespace Treewalk

/-! ### Tokens with one spelling -/

/-- The characters of a token of a kind that has one spelling only. -/
def Token.Kind.text : Token.Kind → String
  | assign => "="
  | plus => "+"
  | minus => "-"
  | bang => "!"
  | asterisk => "*"
  | slash => "/"
  | lt => "<"
  | gt => ">"
  | eq => "=="
  | notEq => "!="
  | comma => ","
  | semicolon => ";"
  | colon => ":"
  | lparen => "("
  | rparen => ")"
  | lbrace => "\x7b"
  | rbrace => "\x7d"
  | lbracket => "["
  | rbracket => "]"
  | fnWord => "fn"
  | letWord => "let"
  | trueWord => "true"
  | falseWord => "false"
  | ifWord => "if"
  | elseWord => "else"
  | returnWord => "return"
  | illegal | eof | ident | int | string => ""

/-- The token is the word or the sign of a kind. -/
def Token.Is (t : Token) (k : Token.Kind) : Prop :=
  t.kind = k ∧ t.literal = k.text

/-- The number that decimal digits stand for, the last of which counts the ones. -/
def decimalValue (cs : List Char) : Nat :=
  Nat.ofDigits 10 (cs.reverse.map fun c => c.toNat - '0'.toNat)

/-- The token is a run of digits with a value. -/
def Token.Shows (t : Token) (v : Int64) : Prop :=
  t.kind = .int ∧ (t.literal ≠ "" ∧ ∀ c ∈ t.literal.toList, c.isDigit = true) ∧
    v.toInt = decimalValue t.literal.toList

instance (t : Token) (v : Int64) : Decidable (t.Shows v) :=
  decidable_of_iff (t.kind = .int ∧ (t.literal ≠ "" ∧ t.literal.toList.all Char.isDigit = true) ∧
    v.toInt = decimalValue t.literal.toList) (by rw [Token.Shows, List.all_eq_true])

theorem Decimal.ofDigits_eq (cs : List Char) : Decimal.ofDigits cs = decimalValue cs := by
  induction cs using List.reverseRecOn with
  | nil => rfl
  | append_singleton cs c ih =>
      rw [Decimal.ofDigits_append_singleton, ih, decimalValue, decimalValue, List.reverse_concat,
        List.map_cons, Nat.ofDigits_cons, Nat.add_comm]
      rfl

/-- Digits are read as the number that they stand for. -/
theorem Integer.ofDigits?_eq_some_iff {cs : List Char} {v : Int64} :
    Integer.ofDigits? cs = some v ↔ v.toInt = decimalValue cs := by
  rw [Integer.ofDigits?, Decimal.ofDigits_eq]
  constructor
  · exact Integer.toInt_of_ofInt?
  · intro h
    rw [← h, Integer.ofInt?_toInt]

/-- The kind of the token that stands for an operator. -/
def UnaryOp.kind : UnaryOp → Token.Kind
  | not => .bang
  | neg => .minus

/-- The kind of the token that stands for an operator. -/
def BinaryOp.kind : BinaryOp → Token.Kind
  | add => .plus
  | sub => .minus
  | mul => .asterisk
  | div => .slash
  | lt => .lt
  | gt => .gt
  | eq => .eq
  | ne => .notEq

/-! ### Parentheses -/

/-- Where an expression stands as a part. -/
inductive Place
  /-- Between delimiters, or as a whole statement. -/
  | free
  /-- Left of an operator. -/
  | left (op : BinaryOp)
  /-- Right of an operator. -/
  | right (op : BinaryOp)
  /-- After an operator with one operand. -/
  | operand
  /-- Before the arguments of a call or the key of an index. -/
  | head

/-- How tightly an operator between two operands binds: `==` and `!=` the loosest, then `<` and `>`,
then `+` and `-`, and `*` and `/` the tightest. -/
def BinaryOp.tightness : BinaryOp → Nat
  | eq | ne => 1
  | lt | gt => 2
  | add | sub => 3
  | mul | div => 4

/-- The ranks with which operators are read are in the order of the grammar. -/
theorem BinaryOp.level_rank (op : BinaryOp) : op.rank.level = op.tightness := by
  cases op <;> rfl

variable {α : Type}

/-- Whether an expression at a place must stand in parentheses. -/
def Place.Encloses : Place → Expr α → Prop
  | left op, .binary _ _ op' _ => op'.tightness < op.tightness
  | right op, .binary _ _ op' _ => op'.tightness ≤ op.tightness
  | operand, .binary _ _ _ _ => True
  | head, .binary _ _ _ _ => True
  | head, .unary _ _ _ => True
  | _, _ => False

/-- The rank of the operator that an expression without parentheses ends with, and the tightest
if it ends with none. -/
def Expr.rank : Expr α → Rank
  | .binary _ _ op _ => op.rank
  | .unary _ _ _ => .prefixed
  | _ => .index

/-- The least level of the expressions that need no parentheses at a place. -/
def Place.level : Place → Nat
  | free => 0
  | left op => op.rank.level
  | right op => op.rank.level + 1
  | operand => Rank.prefixed.level
  | head => Rank.call.level

theorem BinaryOp.level_pos (op : BinaryOp) : 0 < op.rank.level := by
  cases op <;> decide

theorem BinaryOp.level_lt_prefixed (op : BinaryOp) : op.rank.level < Rank.prefixed.level := by
  cases op <;> decide

theorem Place.level_le_index (place : Place) : place.level ≤ Rank.index.level := by
  cases place with
  | left op => exact Nat.le_of_lt (Nat.lt_trans op.level_lt_prefixed (by decide))
  | right op => exact Nat.lt_trans op.level_lt_prefixed (by decide)
  | _ => decide

theorem Place.encloses_iff (place : Place) (e : Expr α) :
    place.Encloses e ↔ e.rank.level < place.level := by
  have hop := BinaryOp.level_lt_prefixed
  have h5 : Rank.prefixed.level = 5 := rfl
  have h6 : Rank.call.level = 6 := rfl
  have h7 : Rank.index.level = 7 := rfl
  cases place with
  | free => cases e <;> simp [Encloses, level]
  | left op =>
      have := hop op
      cases e <;> simp [Encloses, level, Expr.rank, ← BinaryOp.level_rank] <;> omega
  | right op =>
      have := hop op
      cases e <;> simp [Encloses, level, Expr.rank, ← BinaryOp.level_rank] <;> omega
  | operand =>
      cases e with
      | binary _ _ op _ => simp [Encloses, level, Expr.rank, hop op]
      | _ => simp [Encloses, level, Expr.rank, h5, h7]
  | head =>
      cases e with
      | binary _ _ op _ => have := hop op; simp [Encloses, level, Expr.rank]; omega
      | _ => simp [Encloses, level, Expr.rank, h5, h6, h7]

/-! ### The grammar -/

/-- At most one semicolon. -/
inductive Ending : List Token → Prop
  | none : Ending []
  | semicolon {t : Token} : t.Is .semicolon → Ending [t]

section

variable (mark : Token → α)

/-- Names separated by commas. -/
inductive Ident.ListSpelled : List (Ident α) → List Token → Prop
  | nil : ListSpelled [] []
  | one {t : Token} : t.kind = .ident → ListSpelled [⟨mark t, t.literal⟩] [t]
  | cons {t comma : Token} {i : Ident α} {is : List (Ident α)} {ts : List Token} :
      t.kind = .ident → comma.Is .comma → ListSpelled (i :: is) ts →
      ListSpelled (⟨mark t, t.literal⟩ :: i :: is) (t :: comma :: ts)

variable (closed : Bool)

mutual

/-- The tokens spell an expression at a place. -/
inductive Expr.Spelled : Place → Expr α → List Token → Prop
  | bare {place : Place} {e : Expr α} {ts : List Token} :
      ¬ place.Encloses e → Expr.Bare e ts → Expr.Spelled place e ts
  | pair {place : Place} {e : Expr α} {ts : List Token} {l r : Token} :
      l.Is .lparen → Expr.Spelled .free e ts → r.Is .rparen →
      Expr.Spelled place e (l :: (ts ++ [r]))

/-- The tokens spell an expression and are not a pair of parentheses around one. -/
inductive Expr.Bare : Expr α → List Token → Prop
  | name {t : Token} : t.kind = .ident → Expr.Bare (.name ⟨mark t, t.literal⟩) [t]
  | int {t : Token} {v : Int64} : t.Shows v → Expr.Bare (.int (mark t) v) [t]
  | string {t : Token} : t.kind = .string → Expr.Bare (.string (mark t) t.literal) [t]
  | bool {t : Token} {b : Bool} :
      t.Is (if b then .trueWord else .falseWord) → Expr.Bare (.bool (mark t) b) [t]
  | unary {t : Token} {op : UnaryOp} {e : Expr α} {ts : List Token} :
      t.Is op.kind → Expr.Spelled .operand e ts → Expr.Bare (.unary (mark t) op e) (t :: ts)
  | binary {t : Token} {op : BinaryOp} {l r : Expr α} {ls rs : List Token} :
      Expr.Spelled (.left op) l ls → t.Is op.kind → Expr.Spelled (.right op) r rs →
      Expr.Bare (.binary (mark t) l op r) (ls ++ t :: rs)
  | cond {t l r : Token} {test : Expr α} {yes : Block α} {ts ys : List Token} :
      t.Is .ifWord → l.Is .lparen → Expr.Spelled .free test ts → r.Is .rparen →
      Block.Spelled yes ys → Expr.Bare (.cond (mark t) test yes none) (t :: l :: (ts ++ r :: ys))
  | condElse {t l r w : Token} {test : Expr α} {yes no : Block α} {ts ys ns : List Token} :
      t.Is .ifWord → l.Is .lparen → Expr.Spelled .free test ts → r.Is .rparen →
      Block.Spelled yes ys → w.Is .elseWord → Block.Spelled no ns →
      Expr.Bare (.cond (mark t) test yes (some no)) (t :: l :: (ts ++ r :: (ys ++ w :: ns)))
  | func {t l r : Token} {ps : List (Ident α)} {body : Block α} {ts bs : List Token} :
      t.Is .fnWord → l.Is .lparen → Ident.ListSpelled mark ps ts → r.Is .rparen →
      Block.Spelled body bs → Expr.Bare (.func (mark t) ps body) (t :: l :: (ts ++ r :: bs))
  | call {l r : Token} {callee : Expr α} {args : List (Expr α)} {cs ts : List Token} :
      Expr.Spelled .head callee cs → l.Is .lparen → Expr.ListSpelled args ts → r.Is .rparen →
      Expr.Bare (.call (mark l) callee args) (cs ++ l :: (ts ++ [r]))
  | array {l r : Token} {items : List (Expr α)} {ts : List Token} :
      l.Is .lbracket → Expr.ListSpelled items ts → r.Is .rbracket →
      Expr.Bare (.array (mark l) items) (l :: (ts ++ [r]))
  | index {l r : Token} {target key : Expr α} {us ts : List Token} :
      Expr.Spelled .head target us → l.Is .lbracket → Expr.Spelled .free key ts →
      r.Is .rbracket → Expr.Bare (.index (mark l) target key) (us ++ l :: (ts ++ [r]))
  | table {l r : Token} {entries : List (Expr α × Expr α)} {ts : List Token} :
      l.Is .lbrace → Expr.EntriesSpelled entries ts → r.Is .rbrace →
      Expr.Bare (.table (mark l) entries) (l :: (ts ++ [r]))

/-- Expressions separated by commas. -/
inductive Expr.ListSpelled : List (Expr α) → List Token → Prop
  | nil : Expr.ListSpelled [] []
  | one {e : Expr α} {ts : List Token} : Expr.Spelled .free e ts → Expr.ListSpelled [e] ts
  | cons {comma : Token} {e e' : Expr α} {es : List (Expr α)} {ts us : List Token} :
      Expr.Spelled .free e ts → comma.Is .comma → Expr.ListSpelled (e' :: es) us →
      Expr.ListSpelled (e :: e' :: es) (ts ++ comma :: us)

/-- Entries separated by commas.  A comma may follow the last entry. -/
inductive Expr.EntriesSpelled : List (Expr α × Expr α) → List Token → Prop
  | nil : Expr.EntriesSpelled [] []
  | one {colon : Token} {k v : Expr α} {ks vs : List Token} :
      Expr.Spelled .free k ks → colon.Is .colon → Expr.Spelled .free v vs →
      Expr.EntriesSpelled [(k, v)] (ks ++ colon :: vs)
  | cons {colon comma : Token} {k v : Expr α} {es : List (Expr α × Expr α)}
      {ks vs ts : List Token} :
      Expr.Spelled .free k ks → colon.Is .colon → Expr.Spelled .free v vs → comma.Is .comma →
      Expr.EntriesSpelled es ts →
      Expr.EntriesSpelled ((k, v) :: es) (ks ++ colon :: (vs ++ comma :: ts))

/-- Statements in braces. -/
inductive Block.Spelled : Block α → List Token → Prop
  | braces {l r : Token} {ss : List (Stmt α)} {ts : List Token} :
      l.Is .lbrace → Stmt.ListSpelled ss ts → r.Is .rbrace →
      Block.Spelled (.mk (mark l) ss) (l :: (ts ++ [r]))

/-- A statement without the semicolon that may follow it. -/
inductive Stmt.Spelled : Stmt α → List Token → Prop
  | bind {t n eq : Token} {e : Expr α} {ts : List Token} :
      t.Is .letWord → n.kind = .ident → eq.Is .assign → Expr.Spelled .free e ts →
      Stmt.Spelled (.bind (mark t) ⟨mark n, n.literal⟩ e) (t :: n :: eq :: ts)
  | ret {t : Token} : t.Is .returnWord → Stmt.Spelled (.ret (mark t) none) [t]
  | retValue {t : Token} {e : Expr α} {ts : List Token} :
      t.Is .returnWord → Expr.Spelled .free e ts →
      Stmt.Spelled (.ret (mark t) (some e)) (t :: ts)
  | expr {t : Token} {e : Expr α} {ts : List Token} :
      Expr.Spelled .free e (t :: ts) → Stmt.Spelled (.expr (mark t) e) (t :: ts)

/-- Statements, each with the semicolon that follows it. -/
inductive Stmt.ListSpelled : List (Stmt α) → List Token → Prop
  | nil : Stmt.ListSpelled [] []
  | cons {s : Stmt α} {ss : List (Stmt α)} {ts us vs : List Token} :
      Stmt.Spelled s ts → Ending us → (closed = true → ss ≠ [] → us ≠ []) →
      Stmt.ListSpelled ss vs → Stmt.ListSpelled (s :: ss) (ts ++ (us ++ vs))

end

/-- The tokens spell a program. -/
def Program.Spelled (p : Program α) (ts : List Token) : Prop :=
  Stmt.ListSpelled mark closed p ts

/-- A statement with the semicolon that may follow it. -/
def Stmt.Ended (s : Stmt α) (ts : List Token) : Prop :=
  ∃ us vs, ts = us ++ vs ∧ Stmt.Spelled mark closed s us ∧ Ending vs

/-- The tokens spell an expression of which no operator outside parentheses is looser than a
level. -/
def Expr.Tight (k : Nat) (e : Expr α) (ts : List Token) : Prop :=
  (k = e.rank.level ∧ Expr.Bare mark closed e ts) ∨
    (k = Rank.index.level ∧ ∃ l us r, l.Is .lparen ∧ Expr.Spelled mark closed .free e us ∧
      r.Is .rparen ∧ ts = l :: (us ++ [r]))

end

variable {mark : Token → α} {closed : Bool}

/-- A tight spelling needs no more parentheses. -/
theorem Expr.Tight.spelled {k : Nat} {e : Expr α} {ts : List Token}
    (h : Expr.Tight mark closed k e ts) {place : Place} (hk : place.level ≤ k) :
    Expr.Spelled mark closed place e ts := by
  rcases h with ⟨rfl, hb⟩ | ⟨-, l, us, r, hl, he, hr, rfl⟩
  · refine .bare ?_ hb
    rw [Place.encloses_iff]
    omega
  · exact .pair hl he hr

/-- An expression that is closed on both sides needs no parentheses anywhere. -/
theorem Expr.Bare.spelled {e : Expr α} {ts : List Token} (h : Expr.Bare mark closed e ts)
    (he : e.rank = .index) (place : Place) : Expr.Spelled mark closed place e ts := by
  refine .bare ?_ h
  rw [Place.encloses_iff, he]
  exact Nat.not_lt.2 place.level_le_index

/-- The kinds of tokens with which an expression starts. -/
def Token.Kind.startsExpr : Token.Kind → Bool
  | .ident | .int | .string | .trueWord | .falseWord | .bang | .minus | .lparen | .ifWord
  | .fnWord | .lbracket | .lbrace => true
  | _ => false

theorem Token.Is.startsExpr {t : Token} {k : Token.Kind} (h : t.Is k)
    (hk : k.startsExpr = true) : t.kind.startsExpr = true := by
  rw [h.1, hk]

theorem UnaryOp.startsExpr_kind (op : UnaryOp) : op.kind.startsExpr = true := by
  cases op <;> rfl

mutual

/-- The first token of a spelling starts an expression. -/
theorem Expr.Spelled.exists_head {place : Place} {e : Expr α} {ts : List Token}
    (h : Expr.Spelled mark closed place e ts) :
    ∃ t us, ts = t :: us ∧ t.kind.startsExpr = true :=
  match h with
  | .bare _ hb => hb.exists_head
  | .pair hl _ _ => ⟨_, _, rfl, hl.startsExpr rfl⟩

theorem Expr.Bare.exists_head {e : Expr α} {ts : List Token} (h : Expr.Bare mark closed e ts) :
    ∃ t us, ts = t :: us ∧ t.kind.startsExpr = true :=
  match h with
  | .name hk => ⟨_, _, rfl, by rw [hk]; rfl⟩
  | .int hv => ⟨_, _, rfl, by rw [hv.1]; rfl⟩
  | .string hk => ⟨_, _, rfl, by rw [hk]; rfl⟩
  | .bool hk => ⟨_, _, rfl, hk.startsExpr (by split <;> rfl)⟩
  | .unary hk _ => ⟨_, _, rfl, hk.startsExpr (UnaryOp.startsExpr_kind _)⟩
  | .binary hl _ _ => by
      obtain ⟨t, us, rfl, ht⟩ := hl.exists_head
      exact ⟨t, _, rfl, ht⟩
  | .cond hk _ _ _ _ => ⟨_, _, rfl, hk.startsExpr rfl⟩
  | .condElse hk _ _ _ _ _ _ => ⟨_, _, rfl, hk.startsExpr rfl⟩
  | .func hk _ _ _ _ => ⟨_, _, rfl, hk.startsExpr rfl⟩
  | .call hc _ _ _ => by
      obtain ⟨t, us, rfl, ht⟩ := hc.exists_head
      exact ⟨t, _, rfl, ht⟩
  | .array hk _ _ => ⟨_, _, rfl, hk.startsExpr rfl⟩
  | .index he _ _ _ => by
      obtain ⟨t, us, rfl, ht⟩ := he.exists_head
      exact ⟨t, _, rfl, ht⟩
  | .table hk _ _ => ⟨_, _, rfl, hk.startsExpr rfl⟩

end

theorem UnaryOp.ofKind?_eq_some_iff {k : Token.Kind} {op : UnaryOp} :
    UnaryOp.ofKind? k = some op ↔ k = op.kind := by
  cases k <;> cases op <;> decide

end Treewalk
