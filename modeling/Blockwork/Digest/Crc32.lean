/-!
# `Blockwork.Digest.Crc32`: the checksum of archive members

The remainder of the bytes, taken bit by bit from the low end, by the polynomial with the reversed
coefficients `EDB88320`. The register starts with all ones and is inverted at the end.
-/

namespace Blockwork.Crc32

/-- The coefficients of the polynomial, the lowest power in the highest bit. -/
def polynomial : UInt32 := 0xEDB88320

/-- Takes one bit into the register. -/
def shift (register : UInt32) : UInt32 :=
  if register &&& 1 = 1 then (register >>> 1) ^^^ polynomial else register >>> 1

/-- Takes one byte into the register. -/
def update (register : UInt32) (byte : UInt8) : UInt32 :=
  Nat.repeat shift 8 (register ^^^ byte.toUInt32)

/-- The checksum of some bytes. -/
def checksum (bytes : List UInt8) : UInt32 :=
  (bytes.foldl update 0xFFFFFFFF) ^^^ 0xFFFFFFFF

example : checksum [0x31, 0x32, 0x33, 0x34, 0x35, 0x36, 0x37, 0x38, 0x39] = 0xCBF43926 := by
  decide +kernel

end Blockwork.Crc32
