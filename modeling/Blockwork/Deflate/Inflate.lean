import Blockwork.Bytes.LittleEndian
import Blockwork.Deflate.PrefixCode

/-!
# `Blockwork.Deflate.Inflate`: decompression

Compressed data is a sequence of blocks, the last one marked. A block holds bytes as they are, or
symbols of a code that is fixed or given in the block. A symbol stands for a byte, for the end of the
block, or for a length, which a distance follows: then so many bytes that far back are repeated.

## Contents
- The tables of lengths, distances and fixed codes.
- `copyBack`, repeating earlier bytes.
- `readSymbols`, `readStored`, `readCodes?`, the three kinds of blocks.
- `inflate`, all blocks.
-/

namespace Blockwork.Deflate

/-! ## Tables -/

/-- For each length symbol from 257 on, the least length and the number of bits that add to it. -/
def lengthTable : List (Nat × Nat) :=
  [
    (3, 0), (4, 0), (5, 0), (6, 0), (7, 0), (8, 0), (9, 0), (10, 0),
    (11, 1), (13, 1), (15, 1), (17, 1), (19, 2), (23, 2), (27, 2), (31, 2),
    (35, 3), (43, 3), (51, 3), (59, 3), (67, 4), (83, 4), (99, 4), (115, 4),
    (131, 5), (163, 5), (195, 5), (227, 5), (258, 0)
  ]

/-- For each distance symbol the least distance and the number of bits that add to it. -/
def distanceTable : List (Nat × Nat) :=
  [
    (1, 0), (2, 0), (3, 0), (4, 0), (5, 1), (7, 1), (9, 2), (13, 2),
    (17, 3), (25, 3), (33, 4), (49, 4), (65, 5), (97, 5), (129, 6), (193, 6),
    (257, 7), (385, 7), (513, 8), (769, 8), (1025, 9), (1537, 9), (2049, 10), (3073, 10),
    (4097, 11), (6145, 11), (8193, 12), (12289, 12), (16385, 13), (24577, 13)
  ]

/-- The lengths of the words of the fixed code for bytes and lengths. -/
def fixedLengths : List Nat :=
  List.replicate 144 8 ++ List.replicate 112 9 ++ List.replicate 24 7 ++ List.replicate 8 8

/-- The lengths of the words of the fixed code for distances. -/
def fixedDistances : List Nat :=
  List.replicate 32 5

/-- The order in which a block gives the lengths of the code in which its other lengths are written. -/
def lengthOrder : List Nat :=
  [16, 17, 18, 0, 8, 7, 9, 6, 10, 5, 11, 4, 12, 3, 13, 2, 14, 1, 15]

/-- The symbol that ends a block. -/
def endOfBlock : Nat := 256

/-! ## Pieces -/

/-- A number from the stream. -/
def readNumber (width : Nat) (r : Bits) : Except Fault (Nat × Bits) :=
  match r.number? width with
  | some x => .ok x
  | none => .error .truncated

/-- The quantity that a symbol of a table stands for, with its additional bits. -/
def readQuantity (table : List (Nat × Nat)) (symbol : Nat) (r : Bits) : Except Fault (Nat × Bits) :=
  match table[symbol]? with
  | none => .error .corrupt
  | some (least, width) => (readNumber width r).map fun (more, r) => (least + more, r)

/-- `out` with `length` bytes repeated from `distance` back. What lies before the first byte counts
as zero. -/
def copyBack (distance : Nat) : Nat → Array UInt8 → Array UInt8
  | 0, out => out
  | length + 1, out =>
    let byte := if distance ≤ out.size then out.getD (out.size - distance) 0 else 0
    copyBack distance length (out.push byte)

/-- What was decompressed, and how it goes on. -/
abbrev Progress := Array UInt8 × Except Fault Bits

/-! ## Blocks -/

/-- A length symbol's length and the distance after it. -/
def readCopy (distances : PrefixCode) (symbol : Nat) (r : Bits) :
    Except Fault ((Nat × Nat) × Bits) := do
  let (length, r) ← readQuantity lengthTable (symbol - 257) r
  let (symbol, r) ← distances.read r
  let (distance, r) ← readQuantity distanceTable symbol r
  return ((length, distance), r)

/-- The symbols up to the end of a block. A symbol takes at least one bit, so `fuel` above the number
of bits is enough. -/
def readSymbols (symbols distances : PrefixCode) : Nat → Bits → Array UInt8 → Progress
  | 0, _, out => (out, .error .corrupt)
  | fuel + 1, r, out =>
    match symbols.read r with
    | .error e => (out, .error e)
    | .ok (symbol, r) =>
      if symbol < endOfBlock then
        readSymbols symbols distances fuel r (out.push (UInt8.ofNat symbol))
      else if symbol = endOfBlock then (out, .ok r)
      else
        match readCopy distances symbol r with
        | .error e => (out, .error e)
        | .ok ((length, distance), r) =>
          readSymbols symbols distances fuel r (copyBack distance length out)

/-- A block of bytes as they are. It begins with a full byte; the number of bytes is given twice, the
second time with all bits inverted. -/
def readStored (r : Bits) (out : Array UInt8) : Progress :=
  match LittleEndian.fields? [2, 2] r.bytes with
  | some ([length, inverted], bytes) =>
    if length + inverted = 65535 then
      (out ++ bytes.take length,
        if length ≤ bytes.length then .ok ⟨[], bytes.drop length⟩ else .error .truncated)
    else (out, .error .corrupt)
  | _ => (out, .error .truncated)

/-- How often a symbol repeats which length: the symbols up to 15 are lengths themselves, 16 repeats
the previous one, 17 and 18 repeat zero. -/
def readRepeat (previous : Option Nat) (symbol : Nat) (r : Bits) :
    Except Fault ((Nat × Nat) × Bits) :=
  let counted (value least width : Nat) :=
    (readNumber width r).map fun (more, r) => ((value, least + more), r)
  if symbol < 16 then .ok ((symbol, 1), r)
  else if symbol = 16 then
    match previous with
    | some value => counted value 3 2
    | none => .error .corrupt
  else if symbol = 17 then counted 0 3 3
  else counted 0 11 7

/-- `wanted` lengths written in a code, after those in `found`, which is in reverse order. -/
def readLengths (code : PrefixCode) : Nat → Nat → Bits → List Nat → Except Fault (List Nat × Bits)
  | _, 0, r, found => .ok (found.reverse, r)
  | 0, _ + 1, _, _ => .error .corrupt
  | fuel + 1, wanted + 1, r, found => do
    let (symbol, r) ← code.read r
    let ((value, count), r) ← readRepeat found.head? symbol r
    if count ≤ wanted + 1 then
      readLengths code fuel (wanted + 1 - count) r (List.replicate count value ++ found)
    else .error .corrupt

/-- The lengths of the symbols of the code in which the other lengths are written; `count` of them
are given. -/
def readOrderedLengths : List Nat → Nat → Bits → Array Nat → Except Fault (List Nat × Bits)
  | place :: places, count + 1, r, found => do
    let (length, r) ← readNumber 3 r
    readOrderedLengths places count r (found.setIfInBounds place length)
  | _, _, r, found => .ok (found.toList, r)

/-- A code with given lengths. -/
def codeOf (lengths : List Nat) : Except Fault PrefixCode :=
  match PrefixCode.ofLengths? lengths with
  | some code => .ok code
  | none => .error .corrupt

/-- The two codes given at the beginning of a block. -/
def readCodes (r : Bits) : Except Fault ((PrefixCode × PrefixCode) × Bits) := do
  let (a, r) ← readNumber 5 r
  let (b, r) ← readNumber 5 r
  let (c, r) ← readNumber 4 r
  let symbols := a + 257
  let distances := b + 1
  if symbols > 286 ∨ distances > 30 then throw .corrupt
  let (ordered, r) ← readOrderedLengths lengthOrder (c + 4) r (Array.replicate 19 0)
  let code ← codeOf ordered
  let wanted := symbols + distances
  let (lengths, r) ← readLengths code wanted wanted r []
  return ((← codeOf (lengths.take symbols), ← codeOf (lengths.drop symbols)), r)

/-- A block of a given kind. -/
def readBlock (kind : Nat) (r : Bits) (out : Array UInt8) : Progress :=
  let coded (codes : Except Fault ((PrefixCode × PrefixCode) × Bits)) : Progress :=
    match codes with
    | .error e => (out, .error e)
    | .ok ((symbols, distances), r) => readSymbols symbols distances (r.size + 1) r out
  match kind with
  | 0 => readStored r out
  | 1 => coded do return ((← codeOf fixedLengths, ← codeOf fixedDistances), r)
  | 2 => coded (readCodes r)
  | _ => (out, .error .corrupt)

/-! ## The whole stream -/

/-- The marks at the beginning of a block: whether it is the last one, and its kind. -/
def readMarks (r : Bits) : Except Fault ((Bool × Nat) × Bits) := do
  let (last, r) ← readNumber 1 r
  let (kind, r) ← readNumber 2 r
  return ((last = 1, kind), r)

/-- The blocks up to the last one. A block takes at least three bits, so `fuel` above the number of
bits is enough. -/
def readBlocks : Nat → Bits → Array UInt8 → Progress
  | 0, _, out => (out, .error .corrupt)
  | fuel + 1, r, out =>
    match readMarks r with
    | .error e => (out, .error e)
    | .ok ((last, kind), r) =>
      match readBlock kind r out with
      | (out, .ok r) => if last then (out, .ok r) else readBlocks fuel r out
      | (out, .error e) => (out, .error e)

/-- The bytes that compressed data holds, up to its end or up to a fault. -/
def inflate (bytes : List UInt8) : List UInt8 × Option Fault :=
  let r := Bits.ofBytes bytes
  match readBlocks (r.size + 1) r #[] with
  | (out, .ok _) => (out.toList, none)
  | (out, .error e) => (out.toList, some e)

end Blockwork.Deflate
