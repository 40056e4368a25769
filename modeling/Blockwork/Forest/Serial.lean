import Blockwork.Text.Digits

/-!
# `Blockwork.Forest.Serial`: numbers at the end of ids

The program makes ids of the form `name-n`. The serial of any id is the number after its last dash,
if what stands there is a number that fits into 64 bits.

## Contents
- `parseSerial?`, a decimal number of 64 bits.
- `serial?`, the serial of an id.
- `nextSerial`, counting that starts again at one after the largest serial.
- `idOf`, the id made of a name and a serial.
-/

namespace Blockwork.Serial

/-- The largest serial. -/
def largest : UInt64 :=
  UInt64.ofNat (UInt64.size - 1)

/-- The number below `2^64` written by digits, with an optional plus sign before them. -/
def parseSerial? (cs : List Char) : Option UInt64 :=
  let digits :=
    match cs with
    | '+' :: ds => ds
    | ds => ds
  (Text.parseDigits? digits).bind fun n => if n < UInt64.size then some (UInt64.ofNat n) else none

/-- The serial at the end of an id. -/
def serial? (id : String) : Option UInt64 :=
  if '-' ∈ id.toList then
    parseSerial? (id.toList.reverse.takeWhile (· != '-')).reverse
  else none

/-- The serial after `s`. -/
def nextSerial (s : UInt64) : UInt64 :=
  if s = largest then 1 else s + 1

/-- The id `name-s`. -/
def idOf (name : String) (s : UInt64) : String :=
  name ++ "-" ++ toString s.toNat

end Blockwork.Serial
