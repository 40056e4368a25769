import Blockwork.Forest.Serial
import Mathlib.Algebra.Group.Nat.Defs
import Mathlib.Logic.Function.Iterate
import Mathlib.Tactic.Common

/-!
# `Blockwork.Proofs.Forest.Serial`: serials and the ids made of them

An id made of a name and a serial has that serial again, whatever the name is: digits contain no
dash, so the last dash of the id is the one before the digits. Counting goes through all serials
from one to the largest before it comes back to a serial.

## Contents
- `serial?_append_toString`, and `eq_of_append_toString_eq`: the number after the last dash.
- `serial?_idOf` and `idOf_injective`.
- `toNat_nextSerial`, and `toNat_iterate_nextSerial`, the serial after any number of steps.
- `iterate_nextSerial_injective`: fewer steps than there are serials do not meet one twice.
-/

namespace Blockwork.Serial

/-! ## Serials of made ids -/

theorem toNat_largest : largest.toNat = 2 ^ 64 - 1 := by
  decide

theorem dash_notMem_toDigits (n : Nat) : '-' ∉ Nat.toDigits 10 n := by
  intro h
  have hdigit := Nat.isDigit_of_mem_toDigits (by decide) (by decide) h
  exact absurd hdigit (by decide)

/-- Digits without a sign are read as the number they write, if it fits. -/
theorem parseSerial?_toDigits (n : Nat) :
    parseSerial? (Nat.toDigits 10 n) = if n < UInt64.size then some (UInt64.ofNat n) else none := by
  have hdigit : ∀ c ∈ Nat.toDigits 10 n, c.isDigit = true := fun c hc =>
    Nat.isDigit_of_mem_toDigits (by decide) (by decide) hc
  have hvalue : Text.parseDigits? (Nat.toDigits 10 n) = some n := by
    rw [Text.parseDigits?, if_neg]
    · exact congrArg some Nat.ofDigitChars_ten_toDigits
    · simpa [Nat.toDigits_ne_nil] using hdigit
  unfold parseSerial?
  -- A sign would be the first character, and the first character is a digit.
  cases hcs : Nat.toDigits 10 n with
  | nil => exact absurd hcs Nat.toDigits_ne_nil
  | cons c cs =>
      rw [hcs] at hdigit hvalue
      have hc : c ≠ '+' := by
        intro he
        exact absurd (hdigit c List.mem_cons_self) (by rw [he]; decide)
      split
      · rename_i heq
        exact absurd (List.cons.inj heq).1 hc
      · show (Text.parseDigits? (c :: cs)).bind _ = _
        rw [hvalue, Option.bind_some]

theorem toList_append_toString (name : String) (n : Nat) :
    (name ++ "-" ++ toString n).toList = name.toList ++ '-' :: Nat.toDigits 10 n := by
  rw [String.toList_append, String.toList_append, Nat.toString_eq_repr, Nat.toList_repr,
    List.append_assoc]
  rfl

/-- What stands after the last dash of a name with a number are the digits of the number. -/
theorem afterLastDash_append_toString (name : String) (n : Nat) :
    ((name ++ "-" ++ toString n).toList.reverse.takeWhile (· != '-')).reverse
      = Nat.toDigits 10 n := by
  rw [toList_append_toString, List.reverse_append, List.reverse_cons, List.append_assoc,
    List.takeWhile_append_of_pos]
  · simp
  · intro c hc
    rw [List.mem_reverse] at hc
    simpa using fun he : c = '-' => dash_notMem_toDigits _ (he ▸ hc)

/-- Numbers after the last dash are found again, whatever stands before it. -/
theorem eq_of_append_toString_eq {name name' : String} {m n : Nat}
    (h : name ++ "-" ++ toString m = name' ++ "-" ++ toString n) : m = n := by
  have hdigits := afterLastDash_append_toString name m
  rw [h, afterLastDash_append_toString] at hdigits
  have hvalue := congrArg (Nat.ofDigitChars 10 · 0) hdigits
  simpa [Nat.ofDigitChars_ten_toDigits] using hvalue.symm

/-- **A name with a number has that number as its serial**, if it fits. -/
theorem serial?_append_toString (name : String) (n : Nat) :
    serial? (name ++ "-" ++ toString n)
      = if n < UInt64.size then some (UInt64.ofNat n) else none := by
  rw [serial?, afterLastDash_append_toString, if_pos, parseSerial?_toDigits]
  rw [toList_append_toString]
  simp

/-- **An id made of a name and a serial has that serial.** -/
theorem serial?_idOf (name : String) (s : UInt64) : serial? (idOf name s) = some s := by
  rw [idOf, serial?_append_toString, if_pos s.toNat_lt_size, UInt64.ofNat_toNat]

theorem idOf_injective (name : String) : Function.Injective (idOf name) := by
  intro s t h
  have hs := serial?_idOf name s
  rw [h, serial?_idOf] at hs
  exact (Option.some.inj hs).symm

/-! ## Counting -/

theorem toNat_nextSerial {s : UInt64} (h : s.toNat < 2 ^ 64 - 1) :
    (nextSerial s).toNat = s.toNat + 1 := by
  have hne : s ≠ largest := by
    intro he
    rw [he, toNat_largest] at h
    exact Nat.lt_irrefl _ h
  rw [nextSerial, if_neg hne, UInt64.toNat_add]
  have : (1 : UInt64).toNat = 1 := rfl
  omega

theorem nextSerial_largest : nextSerial largest = 1 := by
  rw [nextSerial, if_pos rfl]

theorem eq_largest_of_le {s : UInt64} (h : 2 ^ 64 - 1 ≤ s.toNat) : s = largest := by
  apply UInt64.toNat_inj.mp
  have hlt := s.toNat_lt
  rw [toNat_largest]
  omega

theorem nextSerial_ne_zero {s : UInt64} : nextSerial s ≠ 0 := by
  intro hzero
  have hnat : (nextSerial s).toNat = 0 := by rw [hzero]; rfl
  by_cases h : s.toNat < 2 ^ 64 - 1
  · rw [toNat_nextSerial h] at hnat
    omega
  · rw [eq_largest_of_le (Nat.le_of_not_lt h), nextSerial_largest] at hnat
    exact absurd hnat (by decide)

/-- Serials go round from one to the largest. -/
theorem toNat_iterate_nextSerial {s : UInt64} (hs : s ≠ 0) (k : Nat) :
    (nextSerial^[k] s).toNat = (s.toNat - 1 + k) % (2 ^ 64 - 1) + 1 := by
  have hpos : 0 < s.toNat := Nat.pos_of_ne_zero fun h => hs (UInt64.toNat_inj.mp h)
  induction k with
  | zero =>
      have hlt := s.toNat_lt
      rw [Function.iterate_zero, id_eq, Nat.mod_eq_of_lt (by omega)]
      omega
  | succ k ih =>
      rw [Function.iterate_succ_apply']
      by_cases h : (nextSerial^[k] s).toNat < 2 ^ 64 - 1
      · rw [toNat_nextSerial h]
        omega
      -- After the largest serial the remainder and the serial both start again.
      · rw [eq_largest_of_le (Nat.le_of_not_lt h), nextSerial_largest]
        have hone : (1 : UInt64).toNat = 1 := rfl
        omega

/-- Fewer steps than there are serials do not meet a serial twice. -/
theorem iterate_nextSerial_injective {s : UInt64} (hs : s ≠ 0) {j k : Nat} (hj : j < 2 ^ 64 - 1)
    (hk : k < 2 ^ 64 - 1) (h : nextSerial^[j] s = nextSerial^[k] s) : j = k := by
  have hnat := congrArg UInt64.toNat h
  rw [toNat_iterate_nextSerial hs, toNat_iterate_nextSerial hs] at hnat
  omega

end Blockwork.Serial
