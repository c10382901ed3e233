/-!
# SHA-256

The digest of FIPS 180-4 with 256 bits: the message is padded to whole blocks of sixteen words, and
each block changes a state of eight words in sixty-four rounds.
-/

namespace Shakedown
namespace Sha256

/-- The eight words of the state. -/
structure State where
  a : UInt32
  b : UInt32
  c : UInt32
  d : UInt32
  e : UInt32
  f : UInt32
  g : UInt32
  h : UInt32
  deriving DecidableEq, Repr, Inhabited

/-- The state before the first block. -/
def initial : State :=
  { a := 0x6a09e667, b := 0xbb67ae85, c := 0x3c6ef372, d := 0xa54ff53a
    e := 0x510e527f, f := 0x9b05688c, g := 0x1f83d9ab, h := 0x5be0cd19 }

/-- The words added in the rounds, one for each. -/
def roundWords : List UInt32 :=
  [ 0x428a2f98, 0x71374491, 0xb5c0fbcf, 0xe9b5dba5, 0x3956c25b, 0x59f111f1, 0x923f82a4, 0xab1c5ed5
  , 0xd807aa98, 0x12835b01, 0x243185be, 0x550c7dc3, 0x72be5d74, 0x80deb1fe, 0x9bdc06a7, 0xc19bf174
  , 0xe49b69c1, 0xefbe4786, 0x0fc19dc6, 0x240ca1cc, 0x2de92c6f, 0x4a7484aa, 0x5cb0a9dc, 0x76f988da
  , 0x983e5152, 0xa831c66d, 0xb00327c8, 0xbf597fc7, 0xc6e00bf3, 0xd5a79147, 0x06ca6351, 0x14292967
  , 0x27b70a85, 0x2e1b2138, 0x4d2c6dfc, 0x53380d13, 0x650a7354, 0x766a0abb, 0x81c2c92e, 0x92722c85
  , 0xa2bfe8a1, 0xa81a664b, 0xc24b8b70, 0xc76c51a3, 0xd192e819, 0xd6990624, 0xf40e3585, 0x106aa070
  , 0x19a4c116, 0x1e376c08, 0x2748774c, 0x34b0bcb5, 0x391c0cb3, 0x4ed8aa4a, 0x5b9cca4f, 0x682e6ff3
  , 0x748f82ee, 0x78a5636f, 0x84c87814, 0x8cc70208, 0x90befffa, 0xa4506ceb, 0xbef9a3f7, 0xc67178f2 ]

/-- A word with its bits turned to the right. -/
def rotate (word count : UInt32) : UInt32 :=
  (word >>> count) ||| (word <<< (32 - count))

/-- The bytes of a number, the highest first, in eight places. -/
def lengthBytes (value : Nat) : List UInt8 :=
  (List.range 8).map fun place => (value >>> (8 * (7 - place))).toUInt8

/-- A message with its padding: a one bit, zeros, and its length in bits. -/
def pad (message : List UInt8) : List UInt8 :=
  let zeros := (119 - message.length % 64) % 64
  message ++ 0x80 :: List.replicate zeros 0 ++ lengthBytes (8 * message.length)

/-- The words that bytes stand for, four to a word. -/
def wordsOf : List UInt8 → List UInt32
  | p :: q :: r :: s :: rest =>
      (p.toUInt32 <<< 24 ||| q.toUInt32 <<< 16 ||| r.toUInt32 <<< 8 ||| s.toUInt32) :: wordsOf rest
  | _ => []

/-- The next word of a schedule whose last sixteen words are given, the latest first. -/
def nextWord (latest : List UInt32) : UInt32 :=
  let second := latest.getD 1 0
  let fifteenth := latest.getD 14 0
  let sigma0 := rotate fifteenth 7 ^^^ rotate fifteenth 18 ^^^ (fifteenth >>> 3)
  let sigma1 := rotate second 17 ^^^ rotate second 19 ^^^ (second >>> 10)
  latest.getD 15 0 + sigma0 + latest.getD 6 0 + sigma1

/-- A schedule, the latest word first, with more words. -/
def extendSchedule : (count : Nat) → List UInt32 → List UInt32
  | 0, words => words
  | count + 1, words => extendSchedule count (nextWord words :: words)

/-- The sixty-four words of a block of sixteen. -/
def schedule (block : List UInt32) : List UInt32 :=
  (extendSchedule 48 block.reverse).reverse

/-- One round. -/
def round (state : State) (words : UInt32 × UInt32) : State :=
  let sum1 := rotate state.e 6 ^^^ rotate state.e 11 ^^^ rotate state.e 25
  let choice := (state.e &&& state.f) ^^^ ((~~~ state.e) &&& state.g)
  let first := state.h + sum1 + choice + words.1 + words.2
  let sum0 := rotate state.a 2 ^^^ rotate state.a 13 ^^^ rotate state.a 22
  let majority := (state.a &&& state.b) ^^^ (state.a &&& state.c) ^^^ (state.b &&& state.c)
  { a := first + sum0 + majority, b := state.a, c := state.b, d := state.c
    e := state.d + first, f := state.e, g := state.f, h := state.g }

/-- The state behind a block. -/
def compress (state : State) (block : List UInt32) : State :=
  let last := (roundWords.zip (schedule block)).foldl round state
  { a := state.a + last.a, b := state.b + last.b, c := state.c + last.c, d := state.d + last.d
    e := state.e + last.e, f := state.f + last.f, g := state.g + last.g, h := state.h + last.h }

/-- The state behind the blocks of a list of words; there are no more blocks than words. -/
def compressAll : (limit : Nat) → State → List UInt32 → State
  | 0, state, _ => state
  | _ + 1, state, [] => state
  | limit + 1, state, words => compressAll limit (compress state (words.take 16)) (words.drop 16)

/-- The words of the digest. -/
def digest (message : List UInt8) : List UInt32 :=
  let words := wordsOf (pad message)
  let last := compressAll words.length initial words
  [last.a, last.b, last.c, last.d, last.e, last.f, last.g, last.h]

/-- A hexadecimal digit in lower case. -/
def hexDigit (digit : UInt32) : Char :=
  "0123456789abcdef".toList.getD digit.toNat '0'

/-- The eight digits of a word. -/
def wordDigits (word : UInt32) : List Char :=
  (List.range 8).map fun place => hexDigit ((word >>> (28 - 4 * place.toUInt32)) &&& 15)

/-- The digest as hexadecimal digits in lower case. -/
def hexDigest (message : List UInt8) : String :=
  String.ofList ((digest message).flatMap wordDigits)

end Sha256
end Shakedown
