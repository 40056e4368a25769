import Blockwork.Number.Binary64

/-!
# `Blockwork.Number.Shortest`: the fewest digits that read back

Among the decimals that round to a magnitude, those with the fewest significant digits are taken,
and of these the nearest. The search is exact integer arithmetic: for one digit, two, up to
seventeen, it tests the two neighbours of the magnitude on the decimal grid with that many digits.

## Contents
- `Decimal`, a whole number times a power of ten.
- `Magnitude.decade`, the exponent of the leading digit.
- `Magnitude.neighbour?`, the grid point that reads back, and `Magnitude.shortest`.
-/

namespace Blockwork

/-- The decimal `significand · 10^exponent`. -/
structure Decimal where
  significand : Nat
  exponent : Int
  deriving DecidableEq, Repr

/-- Which of two equally near decimals is taken. -/
inductive Tie where
  /-- the larger one -/
  | up
  /-- the one with an even last digit -/
  | even
  deriving DecidableEq

/-- How many decimal digits write `n`. -/
def digitCount (n : Nat) : Nat :=
  (Nat.toDigits 10 n).length

/-- The same decimal without trailing zeros, taking off at most `fuel` of them. -/
def Decimal.strip (fuel : Nat) (d : Decimal) : Decimal :=
  match fuel with
  | 0 => d
  | n + 1 =>
    if d.significand % 10 = 0 then Decimal.strip n ⟨d.significand / 10, d.exponent + 1⟩ else d

namespace Magnitude

/-! ## The interval that rounds to a magnitude -/

/-- The distance to the next larger magnitude, in units. -/
def gapAbove (m : Magnitude) : Nat :=
  1 <<< spareBits m.units

/-- The distance to the next smaller magnitude, in units. Below a power of two the grid is twice
as fine. -/
def gapBelow (m : Magnitude) : Nat :=
  if m.units = 1 <<< m.units.log2 ∧ 0 < spareBits m.units then m.gapAbove / 2 else m.gapAbove

/-- Whether the midpoints to the neighbours round to this magnitude. -/
def ownsMidpoints (m : Magnitude) : Bool :=
  m.units / m.gapAbove % 2 == 0

/-- The exponent of the leading decimal digit of a magnitude that is not zero. -/
def decade (m : Magnitude) : Int :=
  (digitCount (m.units * Nat.pow 10 400 / unitsPerOne) : Int) - 401

/-! ## The search -/

/-- Of the two neighbours of `m` among the multiples of `10^exponent`, the nearer one that rounds
to `m`, if one does. -/
def neighbour? (tie : Tie) (m : Magnitude) (exponent : Int) : Option Decimal :=
  let scale := Nat.pow 10 (-exponent).toNat
  let num := m.units * scale
  let den := unitsPerOne * Nat.pow 10 exponent.toNat
  let low := num / den
  let down := num - low * den
  let up := (low + 1) * den - num
  let reach (distance gap : Nat) : Bool :=
    if m.ownsMidpoints then 2 * distance ≤ gap * scale else 2 * distance < gap * scale
  let takeUp : Bool :=
    match reach down m.gapBelow, reach up m.gapAbove with
    | true, true => up < down || (up == down && (tie == .up || low % 2 == 1))
    | lowFits, _ => !lowFits
  if reach down m.gapBelow || reach up m.gapAbove then
    some (Decimal.strip 17 ⟨if takeUp then low + 1 else low, exponent⟩)
  else none

/-- The decimal with the fewest digits that rounds to `m`; of several the nearest. -/
def shortest (tie : Tie) (m : Magnitude) : Decimal :=
  if m.units = 0 then ⟨0, 0⟩
  else
    ((List.range 17).findSome? fun (n : Nat) => m.neighbour? tie (m.decade - n)).getD
      ⟨m.units / unitsPerOne, 0⟩

end Magnitude

end Blockwork
