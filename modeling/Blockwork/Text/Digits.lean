/-!
# `Blockwork.Text.Digits`: runs of decimal digits

Only the ten ASCII digits count as digits in numbers, serials and time stamps.

## Contents
- `takeDigits`, the digits at the beginning of a text.
- `digitsValue`, the number they write, and `parseDigits?` for a whole text.
-/

namespace Blockwork.Text

/-- The digits at the beginning of `cs`, and the rest. -/
def takeDigits (cs : List Char) : List Char × List Char :=
  (cs.takeWhile Char.isDigit, cs.dropWhile Char.isDigit)

/-- The number below ten that a digit writes. -/
def digitValue (c : Char) : Nat :=
  c.toNat - '0'.toNat

/-- The number written by digits. -/
def digitsValue (cs : List Char) : Nat :=
  cs.foldl (fun n c => 10 * n + digitValue c) 0

/-- The number written by a text of digits, at least one. -/
def parseDigits? (cs : List Char) : Option Nat :=
  if cs.isEmpty || !cs.all Char.isDigit then none else some (digitsValue cs)

end Blockwork.Text
