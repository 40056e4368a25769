/-!
# `Blockwork.Deflate.Bits`: bytes read bit by bit

The bits of a byte come lowest first.

## Contents
- `Bits`, bytes of which the first may be partly read; `Bits.size`.
- `next?`, one bit.
- `number?`, a number given lowest bit first.
-/

namespace Blockwork.Deflate

/-- Bytes of which the first may be partly read. -/
structure Bits where
  /-- The bits left of the byte being read, the next one first. -/
  current : List Bool
  /-- The bytes not yet begun. -/
  bytes : List UInt8

namespace Bits

/-- The bits of some bytes. -/
def ofBytes (bytes : List UInt8) : Bits :=
  ⟨[], bytes⟩

/-- How many bits are left. -/
def size (r : Bits) : Nat :=
  r.current.length + 8 * r.bytes.length

/-- The next bit and what follows it. -/
def next? : Bits → Option (Bool × Bits)
  | ⟨b :: bs, bytes⟩ => some (b, ⟨bs, bytes⟩)
  | ⟨[], byte :: bytes⟩ =>
    some (byte.toNat.testBit 0, ⟨[1, 2, 3, 4, 5, 6, 7].map byte.toNat.testBit, bytes⟩)
  | ⟨[], []⟩ => none

/-- The number made of the next `width` bits, the lowest first, and what follows them. -/
def number? : Nat → Bits → Option (Nat × Bits)
  | 0, r => some (0, r)
  | width + 1, r => do
    let (b, r) ← r.next?
    let (n, r) ← number? width r
    return (b.toNat + 2 * n, r)

end Bits

end Blockwork.Deflate
