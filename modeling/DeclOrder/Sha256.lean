/-!
# SHA-256

The hash of FIPS 180-4 over a list of octets, and its text in lower-case hexadecimal digits. The
padded message is cut into blocks of sixty-four octets; each block is spread over sixty-four words
that are mixed into eight words of state in turn.
-/

namespace DeclOrder.Sha256

/-- The first thirty-two bits of the fractions of the cube roots of the first sixty-four
primes. -/
def roundConstants : List UInt32 := [
  0x428a2f98, 0x71374491, 0xb5c0fbcf, 0xe9b5dba5, 0x3956c25b, 0x59f111f1, 0x923f82a4,
  0xab1c5ed5, 0xd807aa98, 0x12835b01, 0x243185be, 0x550c7dc3, 0x72be5d74, 0x80deb1fe,
  0x9bdc06a7, 0xc19bf174, 0xe49b69c1, 0xefbe4786, 0x0fc19dc6, 0x240ca1cc, 0x2de92c6f,
  0x4a7484aa, 0x5cb0a9dc, 0x76f988da, 0x983e5152, 0xa831c66d, 0xb00327c8, 0xbf597fc7,
  0xc6e00bf3, 0xd5a79147, 0x06ca6351, 0x14292967, 0x27b70a85, 0x2e1b2138, 0x4d2c6dfc,
  0x53380d13, 0x650a7354, 0x766a0abb, 0x81c2c92e, 0x92722c85, 0xa2bfe8a1, 0xa81a664b,
  0xc24b8b70, 0xc76c51a3, 0xd192e819, 0xd6990624, 0xf40e3585, 0x106aa070, 0x19a4c116,
  0x1e376c08, 0x2748774c, 0x34b0bcb5, 0x391c0cb3, 0x4ed8aa4a, 0x5b9cca4f, 0x682e6ff3,
  0x748f82ee, 0x78a5636f, 0x84c87814, 0x8cc70208, 0x90befffa, 0xa4506ceb, 0xbef9a3f7,
  0xc67178f2]

/-- The eight words of the hash under way. -/
structure State where
  /-- The first word. -/
  a : UInt32
  /-- The second word. -/
  b : UInt32
  /-- The third word. -/
  c : UInt32
  /-- The fourth word. -/
  d : UInt32
  /-- The fifth word. -/
  e : UInt32
  /-- The sixth word. -/
  f : UInt32
  /-- The seventh word. -/
  g : UInt32
  /-- The eighth word. -/
  h : UInt32

/-- The first thirty-two bits of the fractions of the square roots of the first eight primes. -/
def State.initial : State :=
  ⟨0x6a09e667, 0xbb67ae85, 0x3c6ef372, 0xa54ff53a,
    0x510e527f, 0x9b05688c, 0x1f83d9ab, 0x5be0cd19⟩

/-- The words in order. -/
def State.words (state : State) : List UInt32 :=
  [state.a, state.b, state.c, state.d, state.e, state.f, state.g, state.h]

/-- The word-wise sum of two states. -/
def State.add (left right : State) : State :=
  ⟨left.a + right.a, left.b + right.b, left.c + right.c, left.d + right.d,
    left.e + right.e, left.f + right.f, left.g + right.g, left.h + right.h⟩

/-- The word with its bits turned to the right. -/
def rotate (word : UInt32) (count : UInt32) : UInt32 :=
  (word >>> count) ||| (word <<< (32 - count))

/-- The mixing of earlier words into the schedule, for the word fifteen places before. -/
def smallSigma0 (word : UInt32) : UInt32 := rotate word 7 ^^^ rotate word 18 ^^^ (word >>> 3)

/-- The mixing of earlier words into the schedule, for the word two places before. -/
def smallSigma1 (word : UInt32) : UInt32 := rotate word 17 ^^^ rotate word 19 ^^^ (word >>> 10)

/-- The mixing of the first word of the state. -/
def bigSigma0 (word : UInt32) : UInt32 := rotate word 2 ^^^ rotate word 13 ^^^ rotate word 22

/-- The mixing of the fifth word of the state. -/
def bigSigma1 (word : UInt32) : UInt32 := rotate word 6 ^^^ rotate word 11 ^^^ rotate word 25

/-- One round: a constant and a word of the schedule go into the state. -/
def State.round (state : State) (constant word : UInt32) : State :=
  let choice := (state.e &&& state.f) ^^^ (~~~state.e &&& state.g)
  let majority := (state.a &&& state.b) ^^^ (state.a &&& state.c) ^^^ (state.b &&& state.c)
  let first := state.h + bigSigma1 state.e + choice + constant + word
  let second := bigSigma0 state.a + majority
  ⟨first + second, state.a, state.b, state.c, state.d + first, state.e, state.f, state.g⟩

/-- The words that groups of four octets make, the most significant octet first. -/
def wordsOf : List UInt8 → List UInt32
  | a :: b :: c :: d :: rest =>
    (a.toUInt32 <<< 24 ||| b.toUInt32 <<< 16 ||| c.toUInt32 <<< 8 ||| d.toUInt32) :: wordsOf rest
  | _ => []

/-- So many more words of the schedule, where the words so far are listed with the latest
first. -/
def extend : Nat → List UInt32 → List UInt32
  | 0, latest => latest
  | count + 1, latest =>
    let word (distance : Nat) : UInt32 := latest.getD (distance - 1) 0
    extend count <|
      (smallSigma1 (word 2) + word 7 + smallSigma0 (word 15) + word 16) :: latest

/-- The state after one block of the message. -/
def State.absorb (state : State) (block : List UInt8) : State :=
  let schedule := (extend 48 (wordsOf block).reverse).reverse
  let mixed := (roundConstants.zip schedule).foldl
    (fun state (constant, word) => state.round constant word) state
  state.add mixed

/-- The octets of a number, the most significant first. -/
def octets (count : Nat) (number : Nat) : List UInt8 :=
  (List.range count).reverse.map fun place => (number >>> (8 * place)).toUInt8

/-- The message followed by a one bit, as many zeros as fill the last block, and its length in
bits. -/
def pad (message : List UInt8) : List UInt8 :=
  let zeros := (119 - message.length % 64) % 64
  message ++ [0x80] ++ List.replicate zeros 0 ++ octets 8 (8 * message.length)

/-- The blocks of a padded message. -/
def blocks (message : List UInt8) : List (List UInt8) :=
  match message with
  | [] => []
  | first :: rest => (first :: rest).take 64 :: blocks ((first :: rest).drop 64)
  termination_by message.length
  decreasing_by simp only [List.length_drop, List.length_cons]; omega

/-- The hash of a message in thirty-two octets. -/
def digest (message : List UInt8) : List UInt8 :=
  let final := (blocks (pad message)).foldl State.absorb State.initial
  final.words.flatMap fun word => octets 4 word.toNat

/-- The hash of a message in hexadecimal digits. -/
def hex (message : List UInt8) : String :=
  String.ofList <| (digest message).flatMap fun octet =>
    [Nat.digitChar (octet.toNat / 16), Nat.digitChar (octet.toNat % 16)]

/-- The hash of a text in hexadecimal digits. -/
def ofText (text : String) : String := hex text.toUTF8.data.toList

end DeclOrder.Sha256
