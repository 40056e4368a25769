import Blockwork.Number.Shortest

/-!
# `Blockwork.Number.Layout`: how a number is written

The digits of a number are settled by `Magnitude.shortest`; a `Layout` settles the rest. The
program has two: one for saved texts, one for generated code.

## Contents
- `Layout` and `Layout.write`.
- `Layout.saved`, `Layout.shown`.
-/

namespace Blockwork

/-- The decisions that turn a number into text. -/
structure Layout where
  /-- Which of two equally short and equally near decimals is taken. -/
  tie : Tie
  /-- Whether a decimal with this exponent of the leading digit is written without an exponent. -/
  positional : Int → Bool
  /-- What follows a whole number that is written without an exponent. -/
  wholeTail : String
  /-- Whether the sign of a negative zero is written. -/
  signedZero : Bool
  /-- The text of positive infinity, of negative infinity and of a not-a-number. -/
  infinity : String
  negativeInfinity : String
  nan : String

namespace Layout

/-- `n` zeros. -/
def zeros (n : Nat) : String :=
  String.ofList (List.replicate n '0')

/-- A decimal without an exponent. -/
def writePositional (layout : Layout) (d : Decimal) : String :=
  let digits := Nat.toDigits 10 d.significand
  let lead : Int := digits.length + d.exponent
  if 0 ≤ d.exponent then
    String.ofList digits ++ zeros d.exponent.toNat ++ layout.wholeTail
  else if 0 < lead then
    String.ofList (digits.take lead.toNat) ++ "." ++ String.ofList (digits.drop lead.toNat)
  else
    "0." ++ zeros (-lead).toNat ++ String.ofList digits

/-- A decimal with one digit before the point and a signed exponent. -/
def writeScientific (d : Decimal) : String :=
  let digits := Nat.toDigits 10 d.significand
  let lead : Int := digits.length + d.exponent - 1
  let fraction := digits.drop 1
  String.ofList (digits.take 1) ++ (if fraction.isEmpty then "" else "." ++ String.ofList fraction) ++
    "e" ++ (if lead < 0 then "-" else "+") ++ toString lead.natAbs

/-- A number as text. -/
def write (layout : Layout) : Binary64 → String
  | .nan _ => layout.nan
  | .infinite negative => if negative then layout.negativeInfinity else layout.infinity
  | .finite negative m =>
    let d := m.shortest layout.tie
    let body :=
      if layout.positional ((digitCount d.significand : Int) + d.exponent - 1) then
        layout.writePositional d
      else writeScientific d
    if negative && (layout.signedZero || m.units != 0) then "-" ++ body else body

/-- Saved texts keep a number's type visible: a whole number has a fraction, the sign of zero is
kept, very large and very small numbers have an exponent, and what is not finite is null. -/
def saved : Layout where
  tie := .even
  positional e := -5 ≤ e && e ≤ 15
  wholeTail := ".0"
  signedZero := true
  infinity := "null"
  negativeInfinity := "null"
  nan := "null"

/-- Generated code shows a whole number as an integer and never has an exponent. -/
def shown : Layout where
  tie := .up
  positional _ := true
  wholeTail := ""
  signedZero := false
  infinity := "inf"
  negativeInfinity := "-inf"
  nan := "NaN"

example : saved.write 50 = "50.0" ∧ shown.write (-(0 : Binary64)) = "0" := by decide +kernel

end Layout

end Blockwork
