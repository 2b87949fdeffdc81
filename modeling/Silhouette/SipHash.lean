/-!
# SipHash

A keyed hash of a byte string to 64 bits, here with the key zero, one round per word of input and
three rounds at the end.  The input is read in words of eight bytes, lowest byte first; what is left
over goes into the last word together with the length, of which the lowest byte is kept.
-/

set_option autoImplicit false

namespace Silhouette.SipHash

/-- The four words that a hash in progress consists of. -/
structure State where
  v0 : UInt64
  v1 : UInt64
  v2 : UInt64
  v3 : UInt64
deriving DecidableEq, Repr

/-- The state before any input, for the key zero. -/
def State.initial : State :=
  ⟨0x736f6d6570736575, 0x646f72616e646f6d, 0x6c7967656e657261, 0x7465646279746573⟩

/-- Rotate a word to the left. -/
def rotate (x : UInt64) (bits : UInt64) : UInt64 := (x <<< bits) ||| (x >>> (64 - bits))

/-- One round. -/
def State.round (s : State) : State :=
  let v0 := s.v0 + s.v1
  let v1 := rotate s.v1 13 ^^^ v0
  let v0 := rotate v0 32
  let v2 := s.v2 + s.v3
  let v3 := rotate s.v3 16 ^^^ v2
  let v0 := v0 + v3
  let v3 := rotate v3 21 ^^^ v0
  let v2 := v2 + v1
  let v1 := rotate v1 17 ^^^ v2
  let v2 := rotate v2 32
  ⟨v0, v1, v2, v3⟩

/-- Take in one word. -/
def State.absorb (s : State) (word : UInt64) : State :=
  let s := { s with v3 := s.v3 ^^^ word }.round
  { s with v0 := s.v0 ^^^ word }

/-- The word that bytes stand for, the lowest first. -/
def word : List UInt8 → UInt64
  | [] => 0
  | b :: bytes => b.toUInt64 ||| (word bytes <<< 8)

/-- Take in all full words, then the rest with the length of the whole input. -/
def absorbAll (length : UInt64) (s : State) : List UInt8 → State
  | b0 :: b1 :: b2 :: b3 :: b4 :: b5 :: b6 :: b7 :: rest =>
    absorbAll length (s.absorb (word [b0, b1, b2, b3, b4, b5, b6, b7])) rest
  | rest => s.absorb (word rest ||| (length <<< 56))

/-- The hash that a state ends in. -/
def State.finish (s : State) : UInt64 :=
  let s := { s with v2 := s.v2 ^^^ 0xff }.round.round.round
  s.v0 ^^^ s.v1 ^^^ s.v2 ^^^ s.v3

/-- The hash of a byte string. -/
def hash (bytes : List UInt8) : UInt64 :=
  (absorbAll bytes.length.toUInt64 .initial bytes).finish

end Silhouette.SipHash
