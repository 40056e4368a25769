import Blockwork.Bytes.LittleEndian

/-!
# `Blockwork.Digest.Md5`: the digest of a source

The message digest of 128 bits that a bundle's manifest gives for the source. The message is padded
to blocks of sixty-four bytes; each block turns four words of state in sixty-four rounds.

## Contents
- `sines`, `rotations` and `wordIndex`, the constants of the rounds.
- `round`, `compress`, `pad`.
- `digest`, and `hex`, its text.
-/

namespace Blockwork.Md5

/-! ## Constants -/

/-- The whole parts of `2^32 · |sin i|` for `i = 1 … 64`. -/
def sines : List UInt32 :=
  [
    0xd76aa478, 0xe8c7b756, 0x242070db, 0xc1bdceee, 0xf57c0faf, 0x4787c62a, 0xa8304613, 0xfd469501,
    0x698098d8, 0x8b44f7af, 0xffff5bb1, 0x895cd7be, 0x6b901122, 0xfd987193, 0xa679438e, 0x49b40821,
    0xf61e2562, 0xc040b340, 0x265e5a51, 0xe9b6c7aa, 0xd62f105d, 0x02441453, 0xd8a1e681, 0xe7d3fbc8,
    0x21e1cde6, 0xc33707d6, 0xf4d50d87, 0x455a14ed, 0xa9e3e905, 0xfcefa3f8, 0x676f02d9, 0x8d2a4c8a,
    0xfffa3942, 0x8771f681, 0x6d9d6122, 0xfde5380c, 0xa4beea44, 0x4bdecfa9, 0xf6bb4b60, 0xbebfbc70,
    0x289b7ec6, 0xeaa127fa, 0xd4ef3085, 0x04881d05, 0xd9d4d039, 0xe6db99e5, 0x1fa27cf8, 0xc4ac5665,
    0xf4292244, 0x432aff97, 0xab9423a7, 0xfc93a039, 0x655b59c3, 0x8f0ccc92, 0xffeff47d, 0x85845dd1,
    0x6fa87e4f, 0xfe2ce6e0, 0xa3014314, 0x4e0811a1, 0xf7537e82, 0xbd3af235, 0x2ad7d2bb, 0xeb86d391
  ]

/-- The rotations of the rounds of one quarter, which repeat every four rounds. -/
def rotations : Nat → List UInt32
  | 0 => [7, 12, 17, 22]
  | 1 => [5, 9, 14, 20]
  | 2 => [4, 11, 16, 23]
  | _ => [6, 10, 15, 21]

/-- The word of the block that a round takes. -/
def wordIndex (i : Nat) : Nat :=
  match i / 16 with
  | 0 => i
  | 1 => (5 * i + 1) % 16
  | 2 => (3 * i + 5) % 16
  | _ => (7 * i) % 16

/-! ## Rounds -/

/-- Four words of state. -/
structure State where
  a : UInt32
  b : UInt32
  c : UInt32
  d : UInt32

/-- The state before the first block. -/
def initial : State :=
  ⟨0x67452301, 0xefcdab89, 0x98badcfe, 0x10325476⟩

/-- Mixes three words, each quarter of the rounds in its own way. -/
def mix (quarter : Nat) (b c d : UInt32) : UInt32 :=
  match quarter with
  | 0 => (b &&& c) ||| (~~~b &&& d)
  | 1 => (b &&& d) ||| (c &&& ~~~d)
  | 2 => b ^^^ c ^^^ d
  | _ => c ^^^ (b ||| ~~~d)

/-- `x` rotated to the left. -/
def rotate (x amount : UInt32) : UInt32 :=
  (x <<< amount) ||| (x >>> (32 - amount))

/-- One round with its number and its constant. -/
def round (words : Array UInt32) (s : State) (step : UInt32 × Nat) : State :=
  let (sine, i) := step
  let quarter := i / 16
  let sum := s.a + mix quarter s.b s.c s.d + words.getD (wordIndex i) 0 + sine
  ⟨s.d, s.b + rotate sum ((rotations quarter).getD (i % 4) 0), s.b, s.c⟩

/-- Takes one block into the state. -/
def compress (s : State) (words : Array UInt32) : State :=
  let t := sines.zipIdx.foldl (round words) s
  ⟨s.a + t.a, s.b + t.b, s.c + t.c, s.d + t.d⟩

/-! ## Messages -/

/-- The message with a one bit, zeros and its length in bits: a multiple of sixty-four bytes. -/
def pad (message : List UInt8) : List UInt8 :=
  message ++ 0x80 :: List.replicate ((119 - message.length % 64) % 64) 0 ++
    LittleEndian.encode 8 (8 * message.length)

/-- The words of some bytes, the low byte of each word first; less than four bytes left over do not
count. -/
def words : List UInt8 → List UInt32
  | p :: q :: r :: s :: rest =>
    (p.toUInt32 ||| (q.toUInt32 <<< 8) ||| (r.toUInt32 <<< 16) ||| (s.toUInt32 <<< 24)) :: words rest
  | _ => []

/-- The state after `count` blocks. -/
def compressBlocks : Nat → List UInt32 → State → State
  | 0, _, s => s
  | count + 1, ws, s => compressBlocks count (ws.drop 16) (compress s (ws.take 16).toArray)

/-- The digest of a message. -/
def digest (message : List UInt8) : List UInt8 :=
  let padded := pad message
  let s := compressBlocks (padded.length / 64) (words padded) initial
  [s.a, s.b, s.c, s.d].flatMap fun w => LittleEndian.encode 4 w.toNat

/-- A byte as two hexadecimal digits. -/
def hexByte (b : UInt8) : List Char :=
  [Nat.digitChar (b.toNat / 16), Nat.digitChar (b.toNat % 16)]

/-- The digest of a message as text. -/
def hex (message : List UInt8) : String :=
  String.ofList ((digest message).flatMap hexByte)

end Blockwork.Md5
