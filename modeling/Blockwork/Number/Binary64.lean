/-!
# `Blockwork.Number.Binary64`: double precision numbers

Coordinates and number parameters are IEEE 754 binary64 values. They are kept here as exact
integers: a finite value is a sign and a count of `2^-1074`, the smallest positive value, so sums,
comparisons and roundings are integer arithmetic and can be reasoned about as such. The sign of a
not-a-number is kept too, because the total order looks at it.

## Contents
- `Magnitude`: the finite magnitudes, and `Magnitude.round`, rounding to nearest with ties to even.
- `Binary64`: the values, with `add`, `sub`, `mul`, `neg`, `abs`.
- Two orders: `lt` and `eq`, which refuse a not-a-number and identify the zeros, and `totalOrder`,
  which separates every two values.
-/

namespace Blockwork

/-! ## Magnitudes -/

/-- The integer nearest to `num / den`; a half goes to the even neighbour. -/
def nearestEven (num den : Nat) : Nat :=
  let q := num / den
  let r := num % den
  if 2 * r < den then q
  else if den < 2 * r then q + 1
  else if q % 2 = 0 then q else q + 1

theorem nearestEven_le (num den : Nat) : nearestEven num den ≤ num / den + 1 := by
  simp only [nearestEven]
  split
  · omega
  · split
    · omega
    · split <;> omega

/-- The units in one: magnitudes are counts of `2^-1074`. -/
def unitsPerOne : Nat := 1 <<< 1074

/-- The units in `2^1024`, which no finite value reaches. -/
def unitsLimit : Nat := 1 <<< 2098

theorem one_shiftLeft_pos (n : Nat) : 0 < 1 <<< n := by
  rw [Nat.shiftLeft_eq, Nat.one_mul]
  exact Nat.two_pow_pos n

theorem unitsLimit_pos : 0 < unitsLimit :=
  one_shiftLeft_pos 2098

/-- The magnitude of a finite value: at most 53 significant bits, below `2^1024`. -/
structure Magnitude where
  /-- How many times `2^-1074`. -/
  units : Nat
  onGrid : ∃ m k, m ≤ 1 <<< 53 ∧ units = m <<< k
  bounded : units < unitsLimit
  deriving DecidableEq

namespace Magnitude

/-- The number of low bits of a count that a magnitude of this size cannot hold. -/
def spareBits (count : Nat) : Nat :=
  count.log2 + 1 - 53

theorem shiftRight_spareBits_lt (count : Nat) : count >>> spareBits count < 1 <<< 53 := by
  rw [Nat.shiftRight_eq_div_pow, Nat.shiftLeft_eq, Nat.one_mul,
    Nat.div_lt_iff_lt_mul (Nat.two_pow_pos _), ← Nat.pow_add]
  refine Nat.lt_of_lt_of_le Nat.lt_log2_self (Nat.pow_le_pow_right (by omega) ?_)
  simp only [spareBits]
  omega

/-- The magnitude nearest to `num / den` units, ties to even; none at or above `2^1024`. -/
def round (num den : Nat) : Option Magnitude :=
  let k := spareBits (num / den)
  let m := nearestEven num (den <<< k)
  if h : m <<< k < unitsLimit then
    some
      { units := m <<< k
        onGrid := ⟨m, k, by
          refine Nat.le_trans (nearestEven_le _ _) ?_
          rw [Nat.shiftLeft_eq, ← Nat.div_div_eq_div_mul, ← Nat.shiftRight_eq_div_pow]
          exact shiftRight_spareBits_lt (num / den), rfl⟩
        bounded := h }
  else none

/-- The magnitude nearest to the fraction `num / den`. -/
def ofRatio (num den : Nat) : Option Magnitude :=
  round (num * unitsPerOne) den

/-- The magnitude nearest to the product. -/
def mul (a b : Magnitude) : Option Magnitude :=
  round (a.units * b.units) unitsPerOne

/-- The magnitude nearest to the quotient by a magnitude that is not zero. -/
def div (a b : Magnitude) : Option Magnitude :=
  round (a.units * unitsPerOne) b.units

/-- Nothing. -/
def zero : Magnitude :=
  { units := 0, onGrid := ⟨0, 0, by decide, by decide⟩, bounded := unitsLimit_pos }

end Magnitude

/-! ## Values -/

/-- A binary64 value. -/
inductive Binary64 where
  | nan (negative : Bool)
  | infinite (negative : Bool)
  | finite (negative : Bool) (magnitude : Magnitude)
  deriving DecidableEq

namespace Binary64

/-- A magnitude with its sign, or infinity where the rounding found none. -/
def ofMagnitude (negative : Bool) : Option Magnitude → Binary64
  | some m => finite negative m
  | none => infinite negative

/-- The value nearest to `n`. -/
def ofNat (n : Nat) : Binary64 :=
  ofMagnitude false (Magnitude.ofRatio n 1)

/-- Positive zero. -/
def zero : Binary64 :=
  finite false Magnitude.zero

instance : Inhabited Binary64 := ⟨zero⟩

/-- Whether the value is neither infinite nor a not-a-number. -/
def isFinite : Binary64 → Bool
  | finite _ _ => true
  | _ => false

/-! ## Arithmetic -/

/-- A magnitude with its sign, as a signed count. -/
def signed (negative : Bool) (m : Magnitude) : Int :=
  if negative then -(m.units : Int) else m.units

/-- The value with the other sign. -/
def neg : Binary64 → Binary64
  | nan s => nan (!s)
  | infinite s => infinite (!s)
  | finite s m => finite (!s) m

/-- The value with a positive sign. -/
def abs : Binary64 → Binary64
  | nan _ => nan false
  | infinite _ => infinite false
  | finite _ m => finite false m

/-- The rounded sum. A sum of nothing is negative only if both terms are. -/
def add : Binary64 → Binary64 → Binary64
  | nan s, _ => nan s
  | _, nan s => nan s
  | infinite s, infinite t => if s = t then infinite s else nan false
  | infinite s, finite _ _ => infinite s
  | finite _ _, infinite t => infinite t
  | finite s a, finite t b =>
    let sum := signed s a + signed t b
    if sum = 0 then finite (s && t) Magnitude.zero
    else ofMagnitude (sum < 0) (Magnitude.round sum.natAbs 1)

/-- The rounded difference. -/
def sub (a b : Binary64) : Binary64 :=
  add a (neg b)

/-- The rounded product. -/
def mul : Binary64 → Binary64 → Binary64
  | nan s, _ => nan s
  | _, nan s => nan s
  | infinite s, infinite t => infinite (s != t)
  | infinite s, finite t b => if b.units = 0 then nan false else infinite (s != t)
  | finite s a, infinite t => if a.units = 0 then nan false else infinite (s != t)
  | finite s a, finite t b => ofMagnitude (s != t) (a.mul b)

instance : Add Binary64 := ⟨add⟩
instance : Sub Binary64 := ⟨sub⟩
instance : Mul Binary64 := ⟨mul⟩
instance : Neg Binary64 := ⟨neg⟩
instance (n : Nat) : OfNat Binary64 n := ⟨ofNat n⟩

/-! ## Orders -/

/-- The place of a value on the number line, in units; none for a not-a-number. -/
def place : Binary64 → Option Int
  | nan _ => none
  | infinite s => some (if s then -(unitsLimit : Int) else unitsLimit)
  | finite s m => some (signed s m)

/-- Numeric order. A not-a-number is below nothing and above nothing. -/
def lt (a b : Binary64) : Bool :=
  match a.place, b.place with
  | some i, some j => i < j
  | _, _ => false

/-- Numeric equality: the zeros are equal, and a not-a-number differs from itself. -/
def eq (a b : Binary64) : Bool :=
  match a.place, b.place with
  | some i, some j => i == j
  | _, _ => false

/-- The place of a value in the total order: negative not-a-number, negative infinity, negative
values, negative zero, zero, positive values, infinity, not-a-number. -/
def rank : Binary64 → Int
  | nan s => if s then -(unitsLimit : Int) - 2 else unitsLimit + 1
  | infinite s => if s then -(unitsLimit : Int) - 1 else unitsLimit
  | finite s m => if s then -(m.units : Int) - 1 else m.units

/-- The total order. -/
def totalOrder (a b : Binary64) : Ordering :=
  compare a.rank b.rank

/-! ## Whole numbers -/

/-- Whether the value is a whole number. -/
def isWhole : Binary64 → Bool
  | finite _ m => m.units % unitsPerOne == 0
  | _ => false

end Binary64

end Blockwork
