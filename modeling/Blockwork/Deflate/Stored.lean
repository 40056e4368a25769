import Blockwork.Bytes.LittleEndian

/-!
# `Blockwork.Deflate.Stored`: compressed data that is not shorter

Every byte sequence has a form as compressed data in which its bytes stand as they are, in blocks of
at most 65535 bytes.
-/

namespace Blockwork.Deflate

/-- The most bytes that a block can hold as they are. -/
def maxStored : Nat := 65535

/-- A block that holds bytes as they are. -/
def storedBlock (last : Bool) (bytes : List UInt8) : List UInt8 :=
  (if last then 1 else 0) ::
    LittleEndian.encodeFields [(2, bytes.length), (2, maxStored - bytes.length)] ++ bytes

/-- The form of some bytes as compressed data. -/
def store (bytes : List UInt8) : List UInt8 :=
  if bytes.length ≤ maxStored then storedBlock true bytes
  else storedBlock false (bytes.take maxStored) ++ store (bytes.drop maxStored)
termination_by bytes.length
decreasing_by
  simp only [List.length_drop, maxStored] at *
  omega

end Blockwork.Deflate
