import Blockwork.Number.Binary64
import Blockwork.Text.Digits

/-!
# `Blockwork.Number.Reader`: reading decimal text

A number text is an optional sign and then either a name (`inf`, `infinity`, `nan`, in any case) or
digits with an optional point and an optional exponent. It is read to the nearest number.

## Contents
- `Binary64.ofDecimal`, the number nearest to a decimal.
- `Binary64.parse?`.
-/

namespace Blockwork

/-! ## Decimals -/

namespace Binary64

/-- The number nearest to `± significand · 10^exponent`. An exponent far outside the range settles
the answer before any power is computed. -/
def ofDecimal (negative : Bool) (significand : Nat) (exponent : Int) : Binary64 :=
  if significand = 0 then finite negative Magnitude.zero
  else if 400 < exponent then infinite negative
  else if exponent + (significand.log2 : Int) < -1200 then finite negative Magnitude.zero
  else
    ofMagnitude negative
      (Magnitude.ofRatio (significand * Nat.pow 10 exponent.toNat) (Nat.pow 10 (-exponent).toNat))

/-- The exponent that ends a number text: nothing, or `e`, an optional sign and digits. -/
def parseExponent? : List Char → Option Int
  | [] => some 0
  | c :: cs =>
    if c = 'e' ∨ c = 'E' then
      let (negative, digits) :=
        match cs with
        | '-' :: ds => (true, ds)
        | '+' :: ds => (false, ds)
        | ds => (false, ds)
      (Text.parseDigits? digits).map fun (n : Nat) => if negative then -(n : Int) else n
    else none

/-- A number text after its sign. -/
def parseUnsigned? (negative : Bool) (cs : List Char) : Option Binary64 :=
  let name := String.ofList (cs.map Char.toLower)
  if name = "inf" ∨ name = "infinity" then some (infinite negative)
  else if name = "nan" then some (nan negative)
  else
    let (whole, rest) := Text.takeDigits cs
    let (fraction, rest) :=
      match rest with
      | '.' :: ds => Text.takeDigits ds
      | ds => ([], ds)
    if whole.isEmpty && fraction.isEmpty then none
    else do
      let e ← parseExponent? rest
      return ofDecimal negative (Text.digitsValue (whole ++ fraction)) (e - fraction.length)

/-- The number that a text denotes. -/
def parse? (s : String) : Option Binary64 :=
  match s.toList with
  | '-' :: cs => parseUnsigned? true cs
  | '+' :: cs => parseUnsigned? false cs
  | cs => parseUnsigned? false cs

end Binary64

end Blockwork
