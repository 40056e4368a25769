import Blockwork.Number.Shortest

/-!
# `Blockwork.Proofs.Number.Shortest`: the digits of a number

The search for the fewest digits never ends at zero: zero is further from a magnitude that is not zero
than half the distance to its neighbours. So a decimal that is found begins with a digit that is not
zero.

## Contents
- `Magnitude.gapBelow_le_units`, and `Magnitude.significand_ne_zero_of_neighbour?`.
- `Magnitude.exponent_of_shortest`: only zero itself is written by a zero.
-/

namespace Blockwork

namespace Decimal

theorem strip_significand_ne_zero (fuel : Nat) {d : Decimal} (h : d.significand ≠ 0) :
    (d.strip fuel).significand ≠ 0 := by
  induction fuel generalizing d with
  | zero => exact h
  | succ n ih =>
      rw [strip]
      by_cases hten : d.significand % 10 = 0
      · rw [if_pos hten]
        exact ih (by show d.significand / 10 ≠ 0; omega)
      · rw [if_neg hten]
        exact h

end Decimal

namespace Magnitude

variable {m : Magnitude} {tie : Tie} {d : Decimal}

/-- The neighbour below is not further away than zero. -/
theorem gapBelow_le_units (hm : m.units ≠ 0) : m.gapBelow ≤ m.units := by
  have habove : m.gapAbove ≤ m.units := by
    rw [gapAbove, Nat.shiftLeft_eq, Nat.one_mul]
    refine Nat.le_trans (Nat.pow_le_pow_right (by decide) ?_) (Nat.log2_self_le hm)
    unfold spareBits
    omega
  unfold gapBelow
  split
  · omega
  · exact habove

theorem significand_ne_zero_of_neighbour? (hm : m.units ≠ 0) {exponent : Int}
    (h : m.neighbour? tie exponent = some d) : d.significand ≠ 0 := by
  unfold neighbour? at h
  extract_lets scale num den low down up reach takeUp at h
  by_cases hreach : (reach down m.gapBelow || reach up m.gapAbove) = true
  · rw [if_pos hreach, Option.some.injEq] at h
    rw [← h]
    refine Decimal.strip_significand_ne_zero 17 ?_
    by_cases hup : takeUp = true
    · rw [if_pos hup]
      exact Nat.succ_ne_zero low
    · rw [if_neg hup]
      -- Otherwise zero would be the grid point below, and near enough.
      intro (hlow : low = 0)
      have hdown : reach down m.gapBelow = true := by
        cases hfits : reach down m.gapBelow with
        | true => rfl
        | false =>
            refine absurd ?_ hup
            simp only [takeUp, hfits, Bool.not_false]
      have hnear : 2 * down ≤ m.gapBelow * scale := by
        have hcases : (if m.ownsMidpoints then decide (2 * down ≤ m.gapBelow * scale)
          else decide (2 * down < m.gapBelow * scale)) = true := hdown
        split at hcases
        · exact of_decide_eq_true hcases
        · exact Nat.le_of_lt (of_decide_eq_true hcases)
      have hzero : down = m.units * scale := by
        show num - low * den = num
        rw [hlow, Nat.zero_mul, Nat.sub_zero]
      have hscale : 0 < scale := Nat.pow_pos (by decide)
      have hgap := Nat.mul_le_mul_right scale (gapBelow_le_units hm)
      have hpos : 0 < m.units * scale := Nat.mul_pos (Nat.pos_of_ne_zero hm) hscale
      omega
  · rw [if_neg hreach] at h
    exact absurd h (by simp)

/-- Only zero itself is written by a zero, and that as a whole number. -/
theorem exponent_of_shortest (h : (m.shortest tie).significand = 0) :
    (m.shortest tie).exponent = 0 := by
  unfold shortest at h ⊢
  by_cases hm : m.units = 0
  · rw [if_pos hm]
  · rw [if_neg hm] at h ⊢
    cases hfound : (List.range 17).findSome? fun (n : Nat) => m.neighbour? tie (m.decade - n) with
    | none => rfl
    | some d =>
        obtain ⟨n, -, hn⟩ := List.exists_of_findSome?_eq_some hfound
        rw [hfound] at h
        exact absurd h (significand_ne_zero_of_neighbour? hm hn)

end Magnitude

end Blockwork
