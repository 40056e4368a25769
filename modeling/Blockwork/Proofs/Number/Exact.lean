import Blockwork.Number.Binary64
import Mathlib.Algebra.Order.Ring.Nat
import Mathlib.Tactic.Ring

/-!
# `Blockwork.Proofs.Number.Exact`: arithmetic on whole numbers

A whole number below `2^53` is a value without rounding. As long as the results stay below that bound,
sums, products and distances of such values are those of the numbers, and both orders are the order of
the numbers.

## Contents
- `Magnitude.whole`, and `Magnitude.round_units`: rounding leaves a whole number of ones alone.
- `Binary64.add_ofNat`, `mul_ofNat` and `abs_sub_ofNat`.
- `Binary64.lt_ofNat` and `totalOrder_ofNat`.
-/

namespace Blockwork

theorem nearestEven_mul (q : Nat) {den : Nat} (hden : 0 < den) : nearestEven (q * den) den = q := by
  have hrest : q * den % den = 0 := Nat.mul_mod_left q den
  have hquotient : q * den / den = q := Nat.mul_div_cancel q hden
  simp only [nearestEven, hrest, hquotient]
  rw [if_pos (by omega)]

theorem unitsPerOne_pos : 0 < unitsPerOne :=
  one_shiftLeft_pos 1074

/-! ## Rounding -/

namespace Magnitude

theorem shiftLeft_lt {n : Nat} (hn : n < 1 <<< 53) (k : Nat) : n * 1 <<< k < 1 <<< (53 + k) := by
  rw [Nat.shiftLeft_eq, Nat.one_mul] at hn ⊢
  rw [Nat.shiftLeft_eq, Nat.one_mul, Nat.pow_add]
  exact Nat.mul_lt_mul_of_pos_right hn (Nat.two_pow_pos k)

theorem spareBits_shiftLeft {n : Nat} (hn : n < 1 <<< 53) (k : Nat) : spareBits (n * 1 <<< k) ≤ k := by
  unfold spareBits
  by_cases hzero : n = 0
  · rw [hzero, Nat.zero_mul, Nat.log2_zero]
    omega
  · have hpos : n * 1 <<< k ≠ 0 := Nat.mul_ne_zero hzero (one_shiftLeft_pos k).ne'
    have hbelow := shiftLeft_lt hn k
    rw [Nat.shiftLeft_eq 1 (53 + k), Nat.one_mul, ← Nat.log2_lt hpos] at hbelow
    omega

theorem units_eq_shiftLeft (n : Nat) : n * unitsPerOne = n <<< 1074 := by
  show n * 1 <<< 1074 = n <<< 1074
  generalize 1074 = k
  rw [Nat.shiftLeft_eq, Nat.shiftLeft_eq, Nat.one_mul]

/-- A whole number of ones. -/
def whole (n : Nat) (hn : n < 1 <<< 53) : Magnitude where
  units := n * unitsPerOne
  onGrid := ⟨n, 1074, hn.le, units_eq_shiftLeft n⟩
  bounded := by
    have hbelow : n * unitsPerOne < 1 <<< (53 + 1074) := shiftLeft_lt hn 1074
    exact hbelow.trans (by decide +kernel)

/-- **A whole number of ones is not rounded**, whatever fraction it comes as. -/
theorem round_units {n den : Nat} (hn : n < 1 <<< 53) (hden : 0 < den) :
    round (n * unitsPerOne * den) den = some (whole n hn) := by
  have hquotient : n * unitsPerOne * den / den = n * unitsPerOne := Nat.mul_div_cancel _ hden
  -- The bits that a magnitude of this size cannot hold are among those below one.
  obtain ⟨q, hq⟩ : 2 ^ spareBits (n * unitsPerOne) ∣ n * unitsPerOne := by
    have hbits : spareBits (n * unitsPerOne) ≤ 1074 := spareBits_shiftLeft hn 1074
    rw [units_eq_shiftLeft] at hbits ⊢
    generalize 1074 = k at hbits ⊢
    rw [Nat.shiftLeft_eq] at hbits ⊢
    exact (Nat.pow_dvd_pow 2 hbits).mul_left n
  have hshift : 0 < den <<< spareBits (n * unitsPerOne) := by
    rw [Nat.shiftLeft_eq]
    exact Nat.mul_pos hden (Nat.two_pow_pos _)
  have hwhole : n * unitsPerOne * den = q * den <<< spareBits (n * unitsPerOne) := by
    rw [Nat.shiftLeft_eq]
    calc n * unitsPerOne * den
        = 2 ^ spareBits (n * unitsPerOne) * q * den := by rw [← hq]
      _ = q * (den * 2 ^ spareBits (n * unitsPerOne)) := by ring
  have hnearest : nearestEven (n * unitsPerOne * den) (den <<< spareBits (n * unitsPerOne)) = q := by
    rw [hwhole]
    exact nearestEven_mul q hshift
  have hunits : q <<< spareBits (n * unitsPerOne) = n * unitsPerOne := by
    rw [Nat.shiftLeft_eq, Nat.mul_comm]
    exact hq.symm
  have hfits : n * unitsPerOne < unitsLimit := (whole n hn).bounded
  simp only [round, hquotient, hnearest, hunits]
  rw [dif_pos hfits]
  rfl

end Magnitude

/-! ## Arithmetic -/

namespace Binary64

variable {m n : Nat}

theorem ofNat_eq_whole (hn : n < 1 <<< 53) : ofNat n = finite false (Magnitude.whole n hn) := by
  have hround := Magnitude.round_units hn Nat.one_pos
  rw [Nat.mul_one] at hround
  rw [ofNat, Magnitude.ofRatio, hround]
  rfl

theorem mul_ofNat (hm : m < 1 <<< 53) (hn : n < 1 <<< 53) (hproduct : m * n < 1 <<< 53) :
    ofNat m * ofNat n = ofNat (m * n) := by
  rw [ofNat_eq_whole hm, ofNat_eq_whole hn, ofNat_eq_whole hproduct]
  have hunits : m * unitsPerOne * (n * unitsPerOne) = m * n * unitsPerOne * unitsPerOne := by ring
  show ofMagnitude (false != false)
    (Magnitude.round (m * unitsPerOne * (n * unitsPerOne)) unitsPerOne) = _
  rw [hunits, Magnitude.round_units hproduct unitsPerOne_pos]
  rfl

theorem add_finite (s t : Bool) (a b : Magnitude) :
    finite s a + finite t b =
      if signed s a + signed t b = 0 then finite (s && t) Magnitude.zero
      else ofMagnitude (signed s a + signed t b < 0)
        (Magnitude.round (signed s a + signed t b).natAbs 1) := rfl

theorem whole_zero : Magnitude.whole 0 (one_shiftLeft_pos 53) = Magnitude.zero := by
  simp only [Magnitude.whole, Magnitude.zero, Nat.zero_mul]

theorem sub_finite (s t : Bool) (a b : Magnitude) :
    finite s a - finite t b = finite s a + finite (!t) b := rfl

theorem signed_whole (s : Bool) (hn : n < 1 <<< 53) :
    signed s (Magnitude.whole n hn)
      = if s then -((n * unitsPerOne : Nat) : Int) else (n * unitsPerOne : Nat) := rfl

/-- A sum that is a whole number of ones, up to its sign. -/
theorem abs_add_finite {s t : Bool} {a b : Magnitude} (hn : n < 1 <<< 53)
    (hsum : (signed s a + signed t b).natAbs = n * unitsPerOne) :
    (finite s a + finite t b).abs = ofNat n := by
  rw [add_finite, ofNat_eq_whole hn]
  by_cases hzero : signed s a + signed t b = 0
  · have hnone : n = 0 := by
      rw [hzero, Int.natAbs_zero] at hsum
      exact (Nat.mul_eq_zero.mp hsum.symm).resolve_right unitsPerOne_pos.ne'
    subst hnone
    rw [if_pos hzero, whole_zero]
    rfl
  · have hround := Magnitude.round_units hn Nat.one_pos
    rw [Nat.mul_one] at hround
    rw [if_neg hzero, hsum, hround]
    rfl

theorem add_ofNat (hsum : m + n < 1 <<< 53) : ofNat m + ofNat n = ofNat (m + n) := by
  have hm : m < 1 <<< 53 := by omega
  have hn : n < 1 <<< 53 := by omega
  rw [ofNat_eq_whole hm, ofNat_eq_whole hn]
  have hsigned : signed false (Magnitude.whole m hm) + signed false (Magnitude.whole n hn)
      = ((m + n) * unitsPerOne : Nat) := by
    rw [signed_whole, signed_whole, Nat.add_mul, Int.natCast_add]
    rfl
  have habs := abs_add_finite hsum (by rw [hsigned, Int.natAbs_natCast])
  -- Nothing here is negative, so the sum is its own magnitude.
  rw [← habs, add_finite, hsigned]
  by_cases hzero : (((m + n) * unitsPerOne : Nat) : Int) = 0
  · rw [if_pos hzero]
    rfl
  · have hsign : decide ((((m + n) * unitsPerOne : Nat) : Int) < 0) = false :=
      decide_eq_false (Int.not_lt.mpr (Int.natCast_nonneg _))
    rw [if_neg hzero, hsign]
    cases Magnitude.round (((m + n) * unitsPerOne : Nat) : Int).natAbs 1 <;> rfl

theorem abs_sub_ofNat (hm : m < 1 <<< 53) (hn : n < 1 <<< 53) :
    (ofNat m - ofNat n).abs = ofNat (max m n - min m n) := by
  have hdistance : (signed false (Magnitude.whole m hm)
      + signed true (Magnitude.whole n hn)).natAbs = (max m n - min m n) * unitsPerOne := by
    rw [signed_whole, signed_whole, if_neg Bool.false_ne_true, if_pos rfl]
    generalize unitsPerOne = one
    rcases Nat.le_total m n with hle | hle
    · have hunits := Nat.mul_le_mul_right one hle
      rw [max_eq_right hle, min_eq_left hle, Nat.sub_mul]
      omega
    · have hunits := Nat.mul_le_mul_right one hle
      rw [max_eq_left hle, min_eq_right hle, Nat.sub_mul]
      omega
  rw [ofNat_eq_whole hm, ofNat_eq_whole hn, sub_finite]
  exact abs_add_finite (by omega) hdistance

/-! ## Orders -/

theorem lt_ofNat (hm : m < 1 <<< 53) (hn : n < 1 <<< 53) : (ofNat m).lt (ofNat n) = decide (m < n) := by
  rw [ofNat_eq_whole hm, ofNat_eq_whole hn]
  show decide (((m * unitsPerOne : Nat) : Int) < (n * unitsPerOne : Nat)) = _
  rw [decide_eq_decide, Int.ofNat_lt]
  exact Nat.mul_lt_mul_right unitsPerOne_pos

theorem totalOrder_ofNat (hm : m < 1 <<< 53) (hn : n < 1 <<< 53) :
    (ofNat m).totalOrder (ofNat n) = compare m n := by
  rw [ofNat_eq_whole hm, ofNat_eq_whole hn]
  show compare ((m * unitsPerOne : Nat) : Int) (n * unitsPerOne : Nat) = compare m n
  rcases Nat.lt_trichotomy m n with hlt | heq | hgt
  · have hunits := Nat.mul_lt_mul_of_pos_right hlt unitsPerOne_pos
    rw [compare_lt_iff_lt.mpr hlt, compare_lt_iff_lt]
    exact Int.ofNat_lt.mpr hunits
  · rw [heq, compare_eq_iff_eq.mpr rfl, compare_eq_iff_eq.mpr rfl]
  · have hunits := Nat.mul_lt_mul_of_pos_right hgt unitsPerOne_pos
    rw [compare_gt_iff_gt.mpr hgt, compare_gt_iff_gt]
    exact Int.ofNat_lt.mpr hunits

end Binary64

end Blockwork
