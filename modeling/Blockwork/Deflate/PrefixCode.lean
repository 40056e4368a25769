import Blockwork.Deflate.Bits

/-!
# `Blockwork.Deflate.PrefixCode`: codes in which no word begins another

A code gives a word of bits to each of its symbols. It is described by the lengths of the words
alone: words of one length are consecutive numbers in the order of the symbols, and shorter words
come before longer ones.

## Contents
- `Fault`, why compressed data cannot be read on.
- `PrefixCode`, a code as a tree, with `insert` and `read`.
- `firstWords`, the number of the first word of each length.
- `PrefixCode.ofLengths?`, the code with given lengths.
-/

namespace Blockwork.Deflate

/-- Why compressed data cannot be read on: it stops, or it makes no sense. -/
inductive Fault where
  | truncated | corrupt
  deriving DecidableEq, Repr

/-! ## Codes as trees -/

/-- A code. Each bit of a word leads one level down. -/
inductive PrefixCode where
  /-- No word goes this way. -/
  | gap
  /-- A word ends here. -/
  | symbol (value : Nat)
  | fork (zero one : PrefixCode)

namespace PrefixCode

/-- The code with one more word. -/
def insert (value : Nat) : List Bool → PrefixCode → PrefixCode
  | [], _ => .symbol value
  | false :: bits, .fork zero one => .fork (insert value bits zero) one
  | true :: bits, .fork zero one => .fork zero (insert value bits one)
  | false :: bits, _ => .fork (insert value bits .gap) .gap
  | true :: bits, _ => .fork .gap (insert value bits .gap)

/-- The symbol of the next word, and what follows the word. -/
def read : PrefixCode → Bits → Except Fault (Nat × Bits)
  | .gap, _ => .error .corrupt
  | .symbol value, r => .ok (value, r)
  | .fork zero one, r =>
    match r.next? with
    | none => .error .truncated
    | some (false, r) => zero.read r
    | some (true, r) => one.read r

/-! ## Codes from lengths -/

/-- The longest word. -/
def maxLength : Nat := 15

/-- The numbers of the first words of each length from `length` on, if `first` is the first of that
length; `left` more lengths are wanted. -/
def firstWordsFrom (lengths : List Nat) : Nat → Nat → Nat → List Nat
  | 0, _, _ => []
  | left + 1, length, first =>
    first :: firstWordsFrom lengths left (length + 1) (2 * (first + lengths.count length))

/-- The number of the first word of each length, from length zero on. A symbol of length zero has no
word. -/
def firstWords (lengths : List Nat) : List Nat :=
  0 :: firstWordsFrom lengths maxLength 1 0

/-- The bits of a word of a given length, the highest first. -/
def wordBits (length word : Nat) : List Bool :=
  (List.range length).reverse.map word.testBit

/-- Adds the word of one symbol; `next` holds the next word of each length. -/
def addWord (state : PrefixCode × Array Nat) (symbol : Nat × Nat) : PrefixCode × Array Nat :=
  let (code, next) := state
  let (length, value) := symbol
  if length = 0 then state
  else
    let word := next.getD length 0
    (code.insert value (wordBits length word), next.setIfInBounds length (word + 1))

/-- How many of the `2^15` words of full length begin with a word of the code. -/
def coverage (lengths : List Nat) : Nat :=
  lengths.foldr (fun length rest =>
    if length = 0 then rest else (1 <<< (maxLength - length)) + rest) 0

/-- Whether lengths describe a code: every word of full length begins with a word of the code, unless
there is at most one symbol. -/
def isComplete (lengths : List Nat) : Bool :=
  coverage lengths == 1 <<< maxLength || lengths.countP (· != 0) ≤ 1

/-- The code in which the symbols `0, 1, …` have words of the given lengths. -/
def ofLengths? (lengths : List Nat) : Option PrefixCode :=
  if isComplete lengths then
    some (lengths.zipIdx.foldl addWord (.gap, (firstWords lengths).toArray)).1
  else none

end PrefixCode

end Blockwork.Deflate
