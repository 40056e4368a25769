import Blockwork.Json.Basic
import Blockwork.Text.Digits

/-!
# `Blockwork.Json.Number`: numbers in JSON texts

A whole number that fits into 64 bits stays whole. Every other number becomes a double, in a way
that is fast and not always nearest: as many digits as fit into 64 bits make a whole number, which
is rounded to a double and then multiplied or divided by rounded powers of ten.

## Contents
- `NumberText`, the parts of a number, and `scanNumber?`.
- `gather`, digits into a whole number of 64 bits.
- `scaleByTen`, the multiplication or division.
- `NumberText.numeral?`, none for a number beyond the range of doubles.
-/

namespace Blockwork.Json

/-! ## The parts of a number -/

/-- The parts of a number as written. -/
structure NumberText where
  negative : Bool
  whole : List Char
  /-- the digits after the point, none if there is no point -/
  fraction : Option (List Char)
  /-- whether the exponent is negative, and its digits -/
  exponent : Option (Bool × List Char)

/-- The digits after a point, at least one. -/
def scanFraction? : List Char → Option (Option (List Char) × List Char)
  | '.' :: cs =>
    let (digits, rest) := Text.takeDigits cs
    if digits.isEmpty then none else some (some digits, rest)
  | cs => some (none, cs)

/-- The exponent with its digits, at least one. -/
def scanExponent? : List Char → Option (Option (Bool × List Char) × List Char)
  | [] => some (none, [])
  | c :: cs =>
    if c = 'e' ∨ c = 'E' then
      let (negative, cs) :=
        match cs with
        | '-' :: ds => (true, ds)
        | '+' :: ds => (false, ds)
        | ds => (false, ds)
      let (digits, rest) := Text.takeDigits cs
      if digits.isEmpty then none else some (some (negative, digits), rest)
    else some (none, c :: cs)

/-- The number at the beginning of `cs`, and the rest. A zero is followed by no other digit. -/
def scanNumber? (cs : List Char) : Option (NumberText × List Char) := do
  let (negative, cs) :=
    match cs with
    | '-' :: ds => (true, ds)
    | ds => (false, ds)
  let (whole, cs) := Text.takeDigits cs
  if whole.isEmpty || (whole.head? == some '0' && whole.length != 1) then none
  else
    let (fraction, cs) ← scanFraction? cs
    let (exponent, cs) ← scanExponent? cs
    return (⟨negative, whole, fraction, exponent⟩, cs)

/-! ## The value of a number -/

/-- The whole number made of `acc` and the digits that follow, as long as it is below `2^64`; and how
many digits were taken. -/
def gather (acc : Nat) : List Char → Nat × Nat
  | [] => (acc, 0)
  | c :: cs =>
    let next := 10 * acc + Text.digitValue c
    if next < UInt64.size then
      let (n, taken) := gather next cs
      (n, taken + 1)
    else (acc, 0)

/-- The magnitude nearest to a power of ten. -/
def powerOfTen (n : Nat) : Magnitude :=
  (Magnitude.ofRatio (Nat.pow 10 n) 1).getD .zero

/-- `m · 10^exponent` by products and quotients with powers of ten up to the 308th; none beyond the
range. Four steps are enough for any exponent, since the third quotient is zero. -/
def scaleByTen (steps : Nat) (m : Magnitude) (exponent : Int) : Option Magnitude :=
  if exponent.natAbs ≤ 308 then
    if 0 ≤ exponent then m.mul (powerOfTen exponent.natAbs)
    else m.div (powerOfTen exponent.natAbs)
  else if m.units = 0 then some m
  else if 0 ≤ exponent then none
  else
    match steps with
    | 0 => some m
    | n + 1 => (m.div (powerOfTen 308)).bind fun q => scaleByTen n q (exponent + 308)

/-- The double made of a whole number of 64 bits and an exponent. -/
def doubleOf? (negative : Bool) (significand : Nat) (exponent : Int) : Option Binary64 := do
  let m ← Magnitude.ofRatio significand 1
  let scaled ← scaleByTen 4 m exponent
  return .finite negative scaled

/-- The value of a number; none if it is beyond the range of doubles. -/
def NumberText.numeral? (t : NumberText) : Option Numeral :=
  let (whole, taken) := gather 0 t.whole
  let dropped := t.whole.length - taken
  match t.fraction, t.exponent with
  | none, none =>
    if dropped = 0 then
      if !t.negative then some (.natural whole)
      else if 1 ≤ whole ∧ whole ≤ UInt64.size / 2 then some (.negative whole)
      else (doubleOf? true whole 0).map .real
    else (doubleOf? t.negative whole dropped).map .real
  | fraction, exponent =>
    let (significand, places) := gather whole (fraction.getD [])
    let start : Int := dropped - places
    match exponent with
    | none => (doubleOf? t.negative significand start).map .real
    | some (below, digits) =>
      let e := Text.digitsValue digits
      if UInt32.size / 2 ≤ e then
        if significand ≠ 0 ∧ !below then none else some (.real (.finite t.negative .zero))
      else
        (doubleOf? t.negative significand (if below then start - e else start + e)).map .real

end Blockwork.Json
