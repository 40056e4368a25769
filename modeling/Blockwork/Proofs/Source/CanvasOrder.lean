import Blockwork.Proofs.Number.Exact
import Blockwork.Proofs.Source.Order

/-!
# `Blockwork.Proofs.Source.CanvasOrder`: what canvas order guarantees

The comparison of two places is antisymmetric for all places and all thresholds, numbers that are not
numbers among them, since a distance is the same both ways. It is not transitive, and without
transitivity a sort promises little: neighbours are in order, and nothing is exchanged without need.
Where it is transitive among some elements, their canvas order is the one stable sort of them, and if no
two of them stand at the same place in the order, it does not matter how they were stored.

## Contents
- `Binary64.abs_sub_comm`, and `Position.compareWith_swap`: antisymmetry.
- `sortByPosition_exchanges`, for every list and every threshold.
- `Coherent` elements, among which the order is transitive, and `InRows.coherent`.
- `StableSort`, with `Coherent.stableSort` and `StableSort.unique`.
- `Determinate.eq_of_perm`: where no two elements are equal, the stored order does not matter.
-/

namespace Blockwork

/-! ## Antisymmetry -/

namespace Binary64

/-- A distance is the same both ways. -/
theorem abs_sub_comm (a b : Binary64) : (a - b).abs = (b - a).abs := by
  cases a with
  | nan s => cases b <;> rfl
  | infinite s =>
      cases b with
      | nan t => rfl
      | infinite t => cases s <;> cases t <;> rfl
      | finite t m => rfl
  | finite s m =>
      cases b with
      | nan t => rfl
      | infinite t => rfl
      | finite t n =>
          have hsum : signed t n + signed (!s) m = -(signed s m + signed (!t) n) := by
            cases s <;> cases t <;> simp [signed, Int.add_comm]
          rw [sub_finite, sub_finite, add_finite, add_finite, hsum]
          by_cases hzero : signed s m + signed (!t) n = 0
          · rw [if_pos hzero, if_pos (by omega)]
            rfl
          · rw [if_neg hzero, if_neg (by omega), Int.natAbs_neg]
            cases Magnitude.round (signed s m + signed (!t) n).natAbs 1 <;> rfl

theorem totalOrder_swap (a b : Binary64) : (a.totalOrder b).swap = b.totalOrder a :=
  Int.compare_swap a.rank b.rank

end Binary64

namespace Position

/-- **The comparison of two places is antisymmetric.** -/
theorem compareWith_swap (threshold : Binary64) (p q : Position) :
    (p.compareWith threshold q).swap = q.compareWith threshold p := by
  rw [compareWith, compareWith, Binary64.abs_sub_comm]
  split
  · exact Binary64.totalOrder_swap p.x q.x
  · exact Binary64.totalOrder_swap p.y q.y

end Position

namespace Source

variable {α : Type} {threshold : Binary64} {position : α → Position} {xs ys : List α}

/-! ## Without transitivity -/

theorem compareWith_ne_gt_of_gt {p q : Position} (h : p.compareWith threshold q = .gt) :
    q.compareWith threshold p ≠ .gt := by
  rw [← Position.compareWith_swap, h]
  decide

theorem eq_of_compareWith_ne_gt {p q : Position} (hpq : p.compareWith threshold q ≠ .gt)
    (hqp : q.compareWith threshold p ≠ .gt) : p.compareWith threshold q = .eq := by
  rw [← Position.compareWith_swap] at hqp
  cases hcompare : p.compareWith threshold q with
  | eq => rfl
  | gt => exact absurd hcompare hpq
  | lt => exact absurd (by rw [hcompare]; rfl) hqp

theorem pairwise_zipIdx (xs : List α) : xs.zipIdx.Pairwise fun a b => a.2 < b.2 := by
  rw [← List.pairwise_map (R := fun i j => i < j), List.zipIdx_map_snd]
  exact List.pairwise_lt_range'

/-- The elements with their numbers are sorted as the elements are, and later numbers come first only
    where the comparison asks for it. -/
theorem exists_placed (threshold : Binary64) (position : α → Position) (xs : List α) :
    ∃ placed : List (α × Nat), placed.map Prod.fst = sortByPosition threshold position xs ∧
      placed.Perm xs.zipIdx ∧
      placed.Pairwise fun a b =>
        a.2 < b.2 ∨ (position b.1).compareWith threshold (position a.1) = .gt := by
  have hnumbered := sortByPosition_map Prod.fst threshold position xs.zipIdx
  rw [List.zipIdx_map_fst] at hnumbered
  exact ⟨_, hnumbered.symm, sortByPosition_perm threshold _ _,
    insertionSort_pairwise (P := fun a b : α × Nat => a.2 < b.2) (pairwise_zipIdx xs)⟩

/-- **Canvas order without transitivity.** Whatever the threshold and the places are, sorting rearranges
    the elements, leaves none of them after its successor, and changes the order of two elements only if
    the one that was stored earlier comes after the other: among the elements with their numbers in the
    stored order, the later number stands first only there. -/
theorem sortByPosition_exchanges (threshold : Binary64) (position : α → Position) (xs : List α) :
    (sortByPosition threshold position xs).Perm xs ∧
    (sortByPosition threshold position xs).IsChain
      (fun a b => (position a).compareWith threshold (position b) ≠ .gt) ∧
    ∃ placed : List (α × Nat), placed.map Prod.fst = sortByPosition threshold position xs ∧
      placed.Perm xs.zipIdx ∧
      placed.Pairwise fun a b =>
        a.2 < b.2 ∨ (position b.1).compareWith threshold (position a.1) = .gt :=
  ⟨sortByPosition_perm threshold position xs,
    insertionSort_isChain (fun _ _ => compareWith_ne_gt_of_gt) xs,
    exists_placed threshold position xs⟩

/-- The first place comes after the second in its row, and the second after the third in its; but the
    third stands too far below the first, and stays behind both. -/
example : sortByPosition 50 id [⟨100, 0⟩, ⟨50, 40⟩, ⟨0, 80⟩] = [⟨50, 40⟩, ⟨100, 0⟩, ⟨0, 80⟩] := by
  decide +kernel

/-! ## With transitivity -/

/-- Some elements among which canvas order is transitive. -/
def Coherent (threshold : Binary64) (position : α → Position) (xs : List α) : Prop :=
  ∀ a ∈ xs, ∀ b ∈ xs, ∀ c ∈ xs, (position a).compareWith threshold (position b) ≠ .gt →
    (position b).compareWith threshold (position c) ≠ .gt →
    (position a).compareWith threshold (position c) ≠ .gt

instance (threshold : Binary64) (position : α → Position) (xs : List α) :
    Decidable (Coherent threshold position xs) :=
  inferInstanceAs (Decidable (∀ a ∈ xs, ∀ b ∈ xs, ∀ c ∈ xs, _ → _ → _))

/-- The elements `ys` are the elements `xs` in canvas order, and those that are equal in that order stand
    as they stood. -/
def StableSort (threshold : Binary64) (position : α → Position) (xs ys : List α) : Prop :=
  ∃ placed : List (α × Nat), placed.map Prod.fst = ys ∧ placed.Perm xs.zipIdx ∧
    placed.Pairwise fun a b =>
      (position a.1).compareWith threshold (position b.1) ≠ .gt ∧
        ((position a.1).compareWith threshold (position b.1) = .eq → a.2 < b.2)

theorem pairwise_of_isChain {R : α → α → Prop} (h : xs.IsChain R)
    (htrans : ∀ a ∈ xs, ∀ b ∈ xs, ∀ c ∈ xs, R a b → R b c → R a c) : xs.Pairwise R := by
  induction xs with
  | nil => exact List.Pairwise.nil
  | cons a xs ih =>
      have hrest : xs.Pairwise R := ih h.tail fun b hb c hc d hd =>
        htrans b (List.mem_cons_of_mem a hb) c (List.mem_cons_of_mem a hc) d (List.mem_cons_of_mem a hd)
      refine List.Pairwise.cons (fun c hc => ?_) hrest
      cases xs with
      | nil => cases hc
      | cons b xs =>
          have hab : R a b := h.rel
          rcases List.mem_cons.mp hc with rfl | hc'
          · exact hab
          · exact htrans a (by simp) b (by simp) c (List.mem_cons_of_mem a hc) hab
              ((List.pairwise_cons.mp hrest).1 c hc')

/-- Among coherent elements the result is in canvas order as a whole. -/
theorem Coherent.pairwise (h : Coherent threshold position xs) :
    (sortByPosition threshold position xs).Pairwise fun a b =>
      (position a).compareWith threshold (position b) ≠ .gt := by
  have hmem : ∀ a ∈ sortByPosition threshold position xs, a ∈ xs :=
    fun a ha => (sortByPosition_perm threshold position xs).mem_iff.mp ha
  exact pairwise_of_isChain (insertionSort_isChain (fun _ _ => compareWith_ne_gt_of_gt) xs)
    fun a ha b hb c hc => h a (hmem a ha) b (hmem b hb) c (hmem c hc)

/-- **Among coherent elements canvas order is a stable sort.** -/
theorem Coherent.stableSort (h : Coherent threshold position xs) :
    StableSort threshold position xs (sortByPosition threshold position xs) := by
  obtain ⟨placed, hplaced, hperm, hexchanged⟩ := exists_placed threshold position xs
  refine ⟨placed, hplaced, hperm, ?_⟩
  have hordered := h.pairwise
  rw [← hplaced, List.pairwise_map] at hordered
  refine hordered.imp₂ (fun a b hne hnumber => ⟨hne, fun heq => ?_⟩) hexchanged
  refine hnumber.resolve_right fun hgt => ?_
  rw [← Position.compareWith_swap, heq] at hgt
  cases hgt

/-- There is only one stable sort. -/
theorem StableSort.unique {zs : List α} (hys : StableSort threshold position xs ys)
    (hzs : StableSort threshold position xs zs) : ys = zs := by
  obtain ⟨placed, rfl, hperm, hordered⟩ := hys
  obtain ⟨placed', rfl, hperm', hordered'⟩ := hzs
  rw [List.Perm.eq_of_pairwise (fun a b _ _ hab hba => ?_) hordered hordered' (hperm.trans hperm'.symm)]
  -- Two elements that may each stand before the other are equal in the order, so their numbers decide.
  have hnumber := hab.2 (eq_of_compareWith_ne_gt hab.1 hba.1)
  exact absurd hnumber (Nat.lt_asymm (hba.2 (eq_of_compareWith_ne_gt hba.1 hab.1)))

/-! ## Rows -/

/-- Elements in rows that are numbered from top to bottom: within a row heights differ by less than the
    threshold, and between two rows by at least that. -/
structure InRows (threshold : Binary64) (position : α → Position) (xs : List α) (row : α → Nat) : Prop where
  within : ∀ a ∈ xs, ∀ b ∈ xs, row a = row b →
    ((position a).y - (position b).y).abs.lt threshold = true
  between : ∀ a ∈ xs, ∀ b ∈ xs, row a < row b →
    ((position a).y - (position b).y).abs.lt threshold = false ∧
      (position a).y.totalOrder (position b).y = .lt

/-- Rows come one after another, and within a row the horizontal places count. -/
theorem InRows.compareWith_ne_gt_iff {row : α → Nat} (h : InRows threshold position xs row) {a b : α}
    (ha : a ∈ xs) (hb : b ∈ xs) : (position a).compareWith threshold (position b) ≠ .gt ↔
      row a < row b ∨ row a = row b ∧ (position a).x.rank ≤ (position b).x.rank := by
  rw [Position.compareWith]
  rcases Nat.lt_trichotomy (row a) (row b) with hlt | heq | hgt
  · obtain ⟨hfar, hy⟩ := h.between a ha b hb hlt
    rw [if_neg (by simp [hfar]), hy]
    simp [hlt]
  · rw [if_pos (h.within a ha b hb heq)]
    simp only [heq, Nat.lt_irrefl, false_or, true_and]
    exact Int.compare_ne_gt
  · obtain ⟨hfar, hy⟩ := h.between b hb a ha hgt
    rw [Binary64.abs_sub_comm, if_neg (by simp [hfar]), ← Binary64.totalOrder_swap, hy]
    simp [hgt.not_gt, hgt.ne']

/-- **Elements in rows are coherent.** -/
theorem InRows.coherent {row : α → Nat} (h : InRows threshold position xs row) :
    Coherent threshold position xs := by
  intro a ha b hb c hc hab hbc
  rw [h.compareWith_ne_gt_iff ha hb] at hab
  rw [h.compareWith_ne_gt_iff hb hc] at hbc
  rw [h.compareWith_ne_gt_iff ha hc]
  omega

/-! ## The stored order -/

/-- Coherent elements of which no two are equal in canvas order. -/
structure Determinate (threshold : Binary64) (position : α → Position) (xs : List α) : Prop where
  coherent : Coherent threshold position xs
  distinct : xs.Pairwise fun a b => (position a).compareWith threshold (position b) ≠ .eq

instance (threshold : Binary64) (position : α → Position) (xs : List α) :
    Decidable (Determinate threshold position xs) :=
  decidable_of_iff (Coherent threshold position xs ∧
      xs.Pairwise fun a b => (position a).compareWith threshold (position b) ≠ .eq)
    ⟨fun h => ⟨h.1, h.2⟩, fun h => ⟨h.coherent, h.distinct⟩⟩

theorem Coherent.of_perm (h : Coherent threshold position xs) (hperm : ys.Perm xs) :
    Coherent threshold position ys :=
  fun a ha b hb c hc => h a (hperm.mem_iff.mp ha) b (hperm.mem_iff.mp hb) c (hperm.mem_iff.mp hc)

/-- **The canvas order of determinate elements does not depend on how they were stored.** -/
theorem Determinate.eq_of_perm (h : Determinate threshold position xs) (hperm : xs.Perm ys) :
    sortByPosition threshold position xs = sortByPosition threshold position ys := by
  have hsorted : (sortByPosition threshold position xs).Perm (sortByPosition threshold position ys) :=
    (sortByPosition_perm _ _ _).trans (hperm.trans (sortByPosition_perm _ _ _).symm)
  refine List.Perm.eq_of_pairwise (fun a b ha hb hab hba => ?_) h.coherent.pairwise
    (h.coherent.of_perm hperm.symm).pairwise hsorted
  have : Std.Symm fun a b : α => (position a).compareWith threshold (position b) ≠ .eq :=
    ⟨fun a b hne heq => hne (by rw [← Position.compareWith_swap, heq]; rfl)⟩
  have ha' : a ∈ xs := (sortByPosition_perm _ _ _).mem_iff.mp ha
  have hb' : b ∈ xs := hperm.mem_iff.mpr ((sortByPosition_perm _ _ _).mem_iff.mp hb)
  refine Classical.byContradiction fun hne => ?_
  exact h.distinct.forall ha' hb' hne (eq_of_compareWith_ne_gt hab hba)

end Source

end Blockwork
