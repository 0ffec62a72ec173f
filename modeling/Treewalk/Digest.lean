/-! # A keyed digest of byte strings

SipHash, a 64-bit digest of a string of bytes under a 128-bit key.

* `State` is the four words that the digest works on, and `State.round` mixes them once.
* The bytes are taken eight at a time as words, the lowest byte first (`words`).  The last word
  holds the bytes that are left over and, as its highest byte, the length modulo 256.
* `sip c d k₀ k₁` mixes `c` times for each word and `d` times at the end. -/

namespace Treewalk.Digest

/-- The words that the digest works on. -/
structure State where
  v0 : UInt64
  v1 : UInt64
  v2 : UInt64
  v3 : UInt64

/-- A word turned left by `n` bits, for `0 < n < 64`. -/
def rotate (x n : UInt64) : UInt64 :=
  (x <<< n) ||| (x >>> (64 - n))

namespace State

/-- The state for a key before any byte. -/
def start (k0 k1 : UInt64) : State :=
  { v0 := k0 ^^^ 0x736f6d6570736575
    v1 := k1 ^^^ 0x646f72616e646f6d
    v2 := k0 ^^^ 0x6c7967656e657261
    v3 := k1 ^^^ 0x7465646279746573 }

/-- One round of mixing. -/
def round (s : State) : State :=
  let v0 := s.v0 + s.v1
  let v1 := rotate s.v1 13 ^^^ v0
  let v0 := rotate v0 32
  let v2 := s.v2 + s.v3
  let v3 := rotate s.v3 16 ^^^ v2
  let v0 := v0 + v3
  let v3 := rotate v3 21 ^^^ v0
  let v2 := v2 + v1
  let v1 := rotate v1 17 ^^^ v2
  let v2 := rotate v2 32
  ⟨v0, v1, v2, v3⟩

/-- Several rounds of mixing. -/
def rounds : Nat → State → State
  | 0, s => s
  | n + 1, s => rounds n s.round

/-- Takes in one word. -/
def absorb (c : Nat) (s : State) (m : UInt64) : State :=
  let s := rounds c { s with v3 := s.v3 ^^^ m }
  { s with v0 := s.v0 ^^^ m }

/-- The digest of what was taken in. -/
def finish (d : Nat) (s : State) : UInt64 :=
  let s := rounds d { s with v2 := s.v2 ^^^ 0xff }
  s.v0 ^^^ s.v1 ^^^ s.v2 ^^^ s.v3

end State

/-- The word with the given bytes, the lowest first. -/
def word (bytes : List UInt8) : UInt64 :=
  bytes.foldr (fun b w => (w <<< 8) ||| b.toUInt64) 0

/-- The words of a byte string of which `length` bytes are counted. -/
def words (length : Nat) : List UInt8 → List UInt64
  | b0 :: b1 :: b2 :: b3 :: b4 :: b5 :: b6 :: b7 :: rest =>
    word [b0, b1, b2, b3, b4, b5, b6, b7] :: words length rest
  | rest => [word rest ||| (UInt64.ofNat (length % 256) <<< 56)]

/-- The digest of a byte string, with `c` rounds for each word and `d` at the end. -/
def sip (c d : Nat) (k0 k1 : UInt64) (bytes : List UInt8) : UInt64 :=
  ((words bytes.length bytes).foldl (State.absorb c) (State.start k0 k1)).finish d

/-- The bytes of a text in UTF-8. -/
def utf8 (s : String) : List UInt8 :=
  s.toList.flatMap String.utf8EncodeChar

/-- The digest of a text: SipHash-1-3 under the zero key of its UTF-8 form, closed by a byte `0xFF`
that no UTF-8 form holds. -/
def ofText (s : String) : UInt64 :=
  sip 1 3 0 0 (utf8 s ++ [0xff])

end Treewalk.Digest
