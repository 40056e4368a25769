import Blockwork.Number.Binary64
import Mathlib.Algebra.Order.Ring.Nat

/-!
# `Blockwork.Proofs.Number.Monotone`: rounding keeps the order

Where a number is too large for all its digits, rounding may make neighbours equal, but it never puts
them in the other order. So sums and products of values without a sign are in order as their terms
are, for numbers of any size, and a value past the largest one is infinite and above all others.

## Contents
- `nearestEven_mono`.
- `Magnitude.roundedUnits`, and `Magnitude.roundedUnits_mono`.
- `Binary64.Unsigned`, with `rank_ofNat_mono`, `rank_mul_mono` and `rank_add_mono`.
-/

namespace Blockwork

theorem div_le_nearestEven (num den : Nat) : num / den ≤ nearestEven num den := by
  simp only [nearestEven]
  split
  · omega
  · split
    · omega
    · split <;> omega

theorem nearestEven_mono {num num' : Nat} (h : num ≤ num') (den : Nat) :
    nearestEven num den ≤ nearestEven num' den := by
  have hquotient : num / den ≤ num' / den := Nat.div_le_div_right h
  rcases Nat.lt_or_eq_of_le hquotient with hlt | heq
  · exact (nearestEven_le num den).trans (Nat.le_trans hlt (div_le_nearestEven num' den))
  · -- With the same quotient the remainders are in order.
    have hnum := Nat.div_add_mod num den
    have hnum' := Nat.div_add_mod num' den
    rw [heq] at hnum
    have hrest : num % den ≤ num' % den := by omega
    simp only [nearestEven, heq]
    generalize num % den = rest at hrest ⊢
    generalize num' % den = rest' at hrest ⊢
    repeat' split
    all_goals omega

namespace Magnitude

/-! ## Rounding -/

/-- The units of the nearest magnitude, if there were no largest one. -/
def roundedUnits (num den : Nat) : Nat :=
  nearestEven num (den <<< spareBits (num / den)) <<< spareBits (num / den)

theorem spareBits_mono {m n : Nat} (h : m ≤ n) : spareBits m ≤ spareBits n := by
  unfold spareBits
  have hlog : m.log2 ≤ n.log2 := by
    by_cases hm : m = 0
    · rw [hm, Nat.log2_zero]
      exact Nat.zero_le _
    · exact (Nat.le_log2 (by omega)).mpr ((Nat.log2_self_le hm).trans h)
  omega

/-- Numbers of one size are rounded on one grid. -/
theorem roundedUnits_le (num den : Nat) :
    roundedUnits num den ≤ 1 <<< (53 + spareBits (num / den)) := by
  unfold roundedUnits
  have hbits : nearestEven num (den <<< spareBits (num / den)) ≤ 1 <<< 53 := by
    refine (nearestEven_le _ _).trans ?_
    rw [Nat.shiftLeft_eq den, ← Nat.div_div_eq_div_mul, ← Nat.shiftRight_eq_div_pow]
    exact shiftRight_spareBits_lt (num / den)
  rw [Nat.shiftLeft_add, Nat.shiftLeft_eq, Nat.shiftLeft_eq (1 <<< 53)]
  exact Nat.mul_le_mul_right _ hbits

/-- A number that is cut at all is rounded to one with all its digits. -/
theorem le_roundedUnits {num den : Nat} (h : 0 < spareBits (num / den)) :
    1 <<< (52 + spareBits (num / den)) ≤ roundedUnits num den := by
  have hlog : (num / den).log2 = 52 + spareBits (num / den) := by
    unfold spareBits at h ⊢
    omega
  unfold roundedUnits
  generalize spareBits (num / den) = k at hlog h ⊢
  have hpos : num / den ≠ 0 := by
    intro hzero
    rw [hzero, Nat.log2_zero] at hlog
    omega
  have hlarge : 2 ^ 52 * 2 ^ k ≤ num / den := by
    rw [← Nat.pow_add, ← Nat.le_log2 hpos, hlog]
  have hquotient : 2 ^ 52 ≤ num / (den * 2 ^ k) := by
    rw [← Nat.div_div_eq_div_mul]
    exact (Nat.le_div_iff_mul_le (Nat.two_pow_pos k)).mpr hlarge
  simp only [Nat.shiftLeft_eq, Nat.one_mul]
  rw [Nat.pow_add]
  exact Nat.mul_le_mul_right _ (hquotient.trans (div_le_nearestEven num _))

/-- **Rounding keeps the order.** -/
theorem roundedUnits_mono {num num' : Nat} (h : num ≤ num') (den : Nat) :
    roundedUnits num den ≤ roundedUnits num' den := by
  have hbits : spareBits (num / den) ≤ spareBits (num' / den) :=
    spareBits_mono (Nat.div_le_div_right h)
  rcases Nat.lt_or_eq_of_le hbits with hlt | heq
  · -- All numbers that are cut less are below those that are cut more.
    have hbelow : 1 <<< (53 + spareBits (num / den)) ≤ 1 <<< (52 + spareBits (num' / den)) := by
      rw [Nat.shiftLeft_eq, Nat.shiftLeft_eq, Nat.one_mul, Nat.one_mul]
      exact Nat.pow_le_pow_right Nat.two_pos (by omega)
    calc roundedUnits num den
        ≤ 1 <<< (53 + spareBits (num / den)) := roundedUnits_le num den
      _ ≤ 1 <<< (52 + spareBits (num' / den)) := hbelow
      _ ≤ roundedUnits num' den := le_roundedUnits (Nat.zero_lt_of_lt hlt)
  · unfold roundedUnits
    simp only [heq, Nat.shiftLeft_eq]
    exact Nat.mul_le_mul_right _ (nearestEven_mono h _)

end Magnitude

namespace Binary64

/-! ## Values without a sign -/

/-- A value from zero to infinity. -/
inductive Unsigned : Binary64 → Prop where
  | finite (m : Magnitude) : Unsigned (finite false m)
  | infinite : Unsigned (infinite false)

theorem unsigned_ofMagnitude (m : Option Magnitude) : Unsigned (ofMagnitude false m) := by
  cases m with
  | none => exact .infinite
  | some m => exact .finite m

/-- What is rounded stands at its units, or at infinity if they are too many. -/
theorem rank_ofMagnitude_round (num den : Nat) :
    (ofMagnitude false (Magnitude.round num den)).rank
      = (min (Magnitude.roundedUnits num den) unitsLimit : Nat) := by
  unfold Magnitude.round Magnitude.roundedUnits
  dsimp only
  split
  · rename_i hlt
    rw [Nat.min_eq_left hlt.le]
    rfl
  · rename_i hge
    rw [Nat.min_eq_right (Nat.le_of_not_lt hge)]
    rfl

theorem rank_round_mono {num num' : Nat} (h : num ≤ num') (den : Nat) :
    (ofMagnitude false (Magnitude.round num den)).rank
      ≤ (ofMagnitude false (Magnitude.round num' den)).rank := by
  have hunits := Magnitude.roundedUnits_mono h den
  rw [rank_ofMagnitude_round, rank_ofMagnitude_round]
  omega

theorem rank_ofNat_mono {m n : Nat} (h : m ≤ n) : (ofNat m).rank ≤ (ofNat n).rank :=
  rank_round_mono (Nat.mul_le_mul_right _ h) 1

/-- Below infinity there are finite values only, and at infinity nothing else. -/
theorem unsigned_le_cases {a a' : Binary64} (ha : Unsigned a) (ha' : Unsigned a')
    (h : a.rank ≤ a'.rank) :
    (∃ m m' : Magnitude, a = finite false m ∧ a' = finite false m' ∧ m.units ≤ m'.units) ∨
      a' = infinite false := by
  cases ha' with
  | infinite => exact Or.inr rfl
  | finite m' =>
      have hm' : (m'.units : Int) < unitsLimit := Int.ofNat_lt.mpr m'.bounded
      cases ha with
      | infinite => exact absurd (show (unitsLimit : Int) ≤ m'.units from h) (Int.not_le.mpr hm')
      | finite m => exact Or.inl ⟨m, m', rfl, rfl, Int.ofNat_le.mp h⟩

theorem rank_ofMagnitude_le (m : Option Magnitude) : (ofMagnitude false m).rank ≤ unitsLimit := by
  cases m with
  | none => exact le_rfl
  | some m => exact Int.ofNat_le.mpr m.bounded.le

theorem unsigned_mul {a : Binary64} (ha : Unsigned a) {m : Magnitude} (hm : m.units ≠ 0) :
    ∃ o, a * finite false m = ofMagnitude false o := by
  cases ha with
  | finite b => exact ⟨b.mul m, rfl⟩
  | infinite => exact ⟨none, if_neg hm⟩

theorem rank_mul_mono {a a' : Binary64} (ha : Unsigned a) (ha' : Unsigned a') {m : Magnitude}
    (hm : m.units ≠ 0) (h : a.rank ≤ a'.rank) :
    (a * finite false m).rank ≤ (a' * finite false m).rank := by
  rcases unsigned_le_cases ha ha' h with ⟨b, b', rfl, rfl, hunits⟩ | rfl
  · exact rank_round_mono (Nat.mul_le_mul_right _ hunits) unitsPerOne
  · obtain ⟨o, ho⟩ := unsigned_mul ha hm
    have hinfinite : infinite false * finite false m = infinite false := if_neg hm
    rw [ho, hinfinite]
    exact rank_ofMagnitude_le o

theorem add_finite_of_pos {b : Magnitude} (hb : b.units ≠ 0) (m : Magnitude) :
    finite false b + finite false m = ofMagnitude false (Magnitude.round (b.units + m.units) 1) := by
  have hsum : signed false b + signed false m = (b.units + m.units : Nat) := (Int.natCast_add ..).symm
  show (if signed false b + signed false m = 0 then _
    else ofMagnitude (signed false b + signed false m < 0)
      (Magnitude.round (signed false b + signed false m).natAbs 1)) = _
  rw [hsum, if_neg (by omega), decide_eq_false (by omega), Int.natAbs_natCast]

theorem rank_add_mono {a a' : Binary64} (ha : Unsigned a) (ha' : Unsigned a') {b : Magnitude}
    (hb : b.units ≠ 0) (h : a.rank ≤ a'.rank) :
    (finite false b + a).rank ≤ (finite false b + a').rank := by
  rcases unsigned_le_cases ha ha' h with ⟨m, m', rfl, rfl, hunits⟩ | rfl
  · rw [add_finite_of_pos hb, add_finite_of_pos hb]
    exact rank_round_mono (Nat.add_le_add_left hunits _) 1
  · cases ha with
    | infinite => exact le_rfl
    | finite m =>
        rw [add_finite_of_pos hb]
        exact rank_ofMagnitude_le _

end Binary64

end Blockwork
