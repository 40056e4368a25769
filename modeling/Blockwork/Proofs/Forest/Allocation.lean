import Blockwork.Proofs.Forest.Serial
import Blockwork.Proofs.Forest.Walk
import Mathlib.Data.List.Perm.Subperm

/-!
# `Blockwork.Proofs.Forest.Allocation`: new ids are new

The search for a serial gives up after as many taken ids as the forest has blocks. It never has to:
if every serial that it tries were taken, there would be more distinct ids than blocks. That counts
serials that go round without meeting one twice, so it needs fewer blocks than serials.

## Contents
- `Forest.contains_of_contains_freshSerial`: a search that ends at a taken id met only taken ids.
- `Forest.idOf_freshSerial_notMem` and `Forest.allocate_notMem`: a new id is not present.
- `Forest.allocate_of_notMem`: an id that is not in the way is handed out at once.
-/

namespace Blockwork.Forest

open Serial (idOf idOf_injective iterate_nextSerial_injective)

/-- A search that ends at a taken id has tried taken ids only. -/
theorem contains_of_contains_freshSerial {f : Forest} {name : String} {tries : Nat} {s : UInt64}
    (h : f.contains (idOf name (f.freshSerial name tries s)) = true) :
    ∀ k ≤ tries, f.contains (idOf name (Serial.nextSerial^[k] s)) = true := by
  induction tries generalizing s with
  | zero =>
      intro k hk
      rw [Nat.le_zero.mp hk, Function.iterate_zero, id_eq]
      exact h
  | succ tries ih =>
      rw [freshSerial] at h
      by_cases htaken : f.contains (idOf name s) = true
      · rw [if_pos htaken] at h
        intro k hk
        cases k with
        | zero => exact htaken
        | succ k =>
            rw [Function.iterate_succ_apply]
            exact ih h k (Nat.le_of_succ_le_succ hk)
      · rw [if_neg htaken] at h
        exact absurd h htaken

/-- **The serial that the search answers makes an id that is not present.** -/
theorem idOf_freshSerial_notMem {f : Forest} (name : String) (hserial : f.nextSerial ≠ 0)
    (hsize : f.size < 2 ^ 64 - 1) :
    idOf name (f.freshSerial name f.size f.nextSerial) ∉ f.ids := by
  intro hmem
  have htaken := contains_of_contains_freshSerial (contains_iff.mpr hmem)
  -- The ids tried: one more than the forest has blocks, all of them ids of the forest.
  let tried := (List.range (f.size + 1)).map fun k => idOf name (Serial.nextSerial^[k] f.nextSerial)
  have hdistinct : tried.Nodup := by
    refine List.Nodup.map_on ?_ List.nodup_range
    intro j hj k hk he
    rw [List.mem_range] at hj hk
    exact iterate_nextSerial_injective hserial (by omega) (by omega) (idOf_injective name he)
  have hsubset : tried ⊆ f.ids := by
    intro i hi
    obtain ⟨k, hk, rfl⟩ := List.mem_map.mp hi
    rw [List.mem_range] at hk
    exact contains_iff.mp (htaken k (Nat.le_of_lt_succ hk))
  have hlength : tried.length ≤ f.ids.length := (hdistinct.subperm hsubset).length_le
  rw [List.length_map, List.length_range, length_ids] at hlength
  omega

/-- What allocation answers, and that it changes nothing but the counter. -/
theorem allocate_eq (f : Forest) (name : String) :
    f.allocate name =
      (idOf name (f.freshSerial name f.size f.nextSerial),
        { f with nextSerial := Serial.nextSerial (f.freshSerial name f.size f.nextSerial) }) := rfl

theorem allocate_notMem {f : Forest} (name : String) (hserial : f.nextSerial ≠ 0)
    (hsize : f.size < 2 ^ 64 - 1) : (f.allocate name).1 ∉ f.ids :=
  idOf_freshSerial_notMem name hserial hsize

/-- An id that is not in the way is handed out at once. -/
theorem allocate_of_notMem {f : Forest} {name : String} (h : idOf name f.nextSerial ∉ f.ids) :
    f.allocate name =
      (idOf name f.nextSerial, { f with nextSerial := Serial.nextSerial f.nextSerial }) := by
  have hfresh : f.freshSerial name f.size f.nextSerial = f.nextSerial := by
    cases f.size with
    | zero => rfl
    | succ tries =>
        rw [freshSerial, if_neg]
        rw [contains_iff]
        exact h
  rw [allocate_eq, hfresh]

end Blockwork.Forest
