import Blockwork.Source.Order
import Mathlib.Data.List.Chain
import Mathlib.Data.List.Forall2
import Mathlib.Data.List.Perm.Basic

/-!
# `Blockwork.Proofs.Source.Order`: sorting keeps the blocks

Whatever the comparison is, settling puts an element somewhere among the others, so the sort is a
rearrangement. And it looks at nothing but the comparison: sorting things by the place of something
that belongs to them, or sorting those somethings, comes to the same. An element that comes after
none of its predecessors stays behind them, so a list in which all do is left alone.

## Contents
- `settle_perm`, `insertionSort_perm`, `sortByPosition_perm`.
- `forall₂_insertionSort`, `sortByPosition_map`.
- `insertionSort_eq_self`, `sortByPosition_eq_self`: what is in order stays as it is.
- `insertionSort_pairwise`: what has been exchanged; `insertionSort_isChain`: what stands side by side.
-/

namespace Blockwork.Source

variable {α β : Type}

/-! ## Nothing is lost -/

theorem settle_perm (compare : α → α → Ordering) (x : α) (ys : List α) :
    (settle compare x ys).Perm (x :: ys) := by
  induction ys with
  | nil => exact List.Perm.refl [x]
  | cons y ys ih =>
      unfold settle
      by_cases hgt : compare y x = .gt
      · rw [if_pos hgt]
        exact (ih.cons y).trans (List.Perm.swap x y ys)
      · rw [if_neg hgt]

theorem foldl_settle_perm (compare : α → α → Ordering) (xs sorted : List α) :
    (xs.foldl (fun sorted x => settle compare x sorted) sorted).Perm (xs ++ sorted) := by
  induction xs generalizing sorted with
  | nil => exact List.Perm.refl sorted
  | cons x xs ih =>
      have hsettled : (xs ++ settle compare x sorted).Perm (xs ++ x :: sorted) :=
        (settle_perm compare x sorted).append_left xs
      exact (ih _).trans (hsettled.trans List.perm_middle)

theorem insertionSort_perm (compare : α → α → Ordering) (xs : List α) :
    (insertionSort compare xs).Perm xs := by
  unfold insertionSort
  have h := foldl_settle_perm compare xs []
  rw [List.append_nil] at h
  exact (List.reverse_perm _).trans h

/-- **Canvas order is a rearrangement**, for every threshold. -/
theorem sortByPosition_perm (threshold : Binary64) (position : α → Position) (xs : List α) :
    (sortByPosition threshold position xs).Perm xs :=
  insertionSort_perm _ xs

/-! ## Only the comparison counts -/

section Related

variable {R : α → β → Prop} {compare : α → α → Ordering} {compare' : β → β → Ordering}

theorem forall₂_settle (hcompare : ∀ a b a' b', R a b → R a' b' → compare a a' = compare' b b') {x : α}
    {y : β} (hxy : R x y) {xs : List α} {ys : List β} (h : List.Forall₂ R xs ys) :
    List.Forall₂ R (settle compare x xs) (settle compare' y ys) := by
  induction h with
  | nil => exact .cons hxy .nil
  | @cons a b xs ys hab hrest ih =>
      rw [settle, settle, hcompare a b x y hab hxy]
      by_cases hgt : compare' b y = .gt
      · rw [if_pos hgt, if_pos hgt]
        exact .cons hab ih
      · rw [if_neg hgt, if_neg hgt]
        exact .cons hxy (.cons hab hrest)

/-- **Lists whose elements compare alike are sorted alike.** -/
theorem forall₂_insertionSort (hcompare : ∀ a b a' b', R a b → R a' b' → compare a a' = compare' b b')
    {xs : List α} {ys : List β} (h : List.Forall₂ R xs ys) :
    List.Forall₂ R (insertionSort compare xs) (insertionSort compare' ys) := by
  have hfold : ∀ {sorted sorted'}, List.Forall₂ R sorted sorted' →
      List.Forall₂ R (xs.foldl (fun sorted x => settle compare x sorted) sorted)
        (ys.foldl (fun sorted y => settle compare' y sorted) sorted') := by
    induction h with
    | nil => exact id
    | cons hxy _ ih => exact fun hsorted => ih (forall₂_settle hcompare hxy hsorted)
  exact List.rel_reverse (hfold .nil)

end Related

/-- Sorting what belongs to some things by its place is sorting the things by that place. -/
theorem sortByPosition_map (f : α → β) (threshold : Binary64) (position : β → Position) (xs : List α) :
    sortByPosition threshold position (xs.map f)
      = (sortByPosition threshold (fun a => position (f a)) xs).map f := by
  have hmap : List.Forall₂ (fun b a => b = f a) (xs.map f) xs :=
    List.forall₂_map_left_iff.mpr (List.forall₂_same.mpr fun _ _ => rfl)
  have hsorted : List.Forall₂ (fun b a => b = f a) (sortByPosition threshold position (xs.map f))
      (sortByPosition threshold (fun a => position (f a)) xs) := by
    refine forall₂_insertionSort ?_ hmap
    rintro _ a _ a' rfl rfl
    rfl
  exact List.forall₂_eq_eq_eq ▸ List.forall₂_map_right_iff.mpr hsorted

/-! ## What is in order already -/

theorem foldl_settle_of_inOrder (compare : α → α → Ordering) {xs sorted : List α}
    (h : (sorted.reverse ++ xs).Pairwise fun a b => compare a b ≠ .gt) :
    xs.foldl (fun sorted x => settle compare x sorted) sorted = xs.reverse ++ sorted := by
  induction xs generalizing sorted with
  | nil => rfl
  | cons x xs ih =>
      have hsettled : settle compare x sorted = x :: sorted := by
        cases sorted with
        | nil => rfl
        | cons y ys =>
            have hyx : compare y x ≠ .gt :=
              (List.pairwise_append.mp h).2.2 y (by simp) x List.mem_cons_self
            rw [settle, if_neg hyx]
      have hnext : ((x :: sorted).reverse ++ xs).Pairwise fun a b => compare a b ≠ .gt := by
        rwa [List.reverse_cons, List.append_assoc, List.singleton_append]
      rw [List.foldl_cons, hsettled, ih hnext, List.reverse_cons, List.append_assoc,
        List.singleton_append]

theorem insertionSort_eq_self (compare : α → α → Ordering) {xs : List α}
    (h : xs.Pairwise fun a b => compare a b ≠ .gt) : insertionSort compare xs = xs := by
  rw [insertionSort, foldl_settle_of_inOrder compare (by simpa using h), List.append_nil,
    List.reverse_reverse]

/-- **What is in canvas order stays as it is**, although the comparison is not transitive. -/
theorem sortByPosition_eq_self {threshold : Binary64} {position : α → Position} {xs : List α}
    (h : xs.Pairwise fun a b => (position a).compareWith threshold (position b) ≠ .gt) :
    sortByPosition threshold position xs = xs :=
  insertionSort_eq_self _ h

/-! ## What has been exchanged -/

variable {compare : α → α → Ordering}

/-- Of two elements of the result, the first stood first before, or it was moved ahead of the second,
    which then comes after it. -/
theorem settle_pairwise {P : α → α → Prop} {x : α} {ys : List α} (hx : ∀ y ∈ ys, P y x)
    (h : ys.Pairwise fun b a => P a b ∨ compare b a = .gt) :
    (settle compare x ys).Pairwise fun b a => P a b ∨ compare b a = .gt := by
  induction ys with
  | nil => exact List.pairwise_singleton _ x
  | cons y ys ih =>
      obtain ⟨hy, hys⟩ := List.forall_mem_cons.mp hx
      rw [settle]
      by_cases hgt : compare y x = .gt
      · rw [if_pos hgt]
        rw [List.pairwise_cons] at h ⊢
        refine ⟨fun a ha => ?_, ih hys h.2⟩
        rcases List.mem_cons.mp ((settle_perm compare x ys).mem_iff.mp ha) with rfl | ha
        · exact Or.inr hgt
        · exact h.1 a ha
      · rw [if_neg hgt, List.pairwise_cons]
        exact ⟨fun a ha => Or.inl (hx a ha), h⟩

theorem foldl_settle_pairwise {P : α → α → Prop} {xs sorted : List α} (hxs : xs.Pairwise P)
    (hbetween : ∀ y ∈ sorted, ∀ x ∈ xs, P y x)
    (h : sorted.Pairwise fun b a => P a b ∨ compare b a = .gt) :
    (xs.foldl (fun sorted x => settle compare x sorted) sorted).Pairwise
      fun b a => P a b ∨ compare b a = .gt := by
  induction xs generalizing sorted with
  | nil => exact h
  | cons x xs ih =>
      rw [List.pairwise_cons] at hxs
      refine ih hxs.2 (fun y hy x' hx' => ?_)
        (settle_pairwise (fun y hy => hbetween y hy x List.mem_cons_self) h)
      rcases List.mem_cons.mp ((settle_perm compare x sorted).mem_iff.mp hy) with rfl | hy
      · exact hxs.1 x' hx'
      · exact hbetween y hy x' (List.mem_cons_of_mem _ hx')

/-- **Sorting keeps what held between an element and the elements after it**, except where the later one
    was moved ahead. -/
theorem insertionSort_pairwise {P : α → α → Prop} {xs : List α} (h : xs.Pairwise P) :
    (insertionSort compare xs).Pairwise fun a b => P a b ∨ compare b a = .gt := by
  rw [insertionSort, List.pairwise_reverse]
  exact foldl_settle_pairwise h (by simp) List.Pairwise.nil

/-! ## Neighbours -/

/-- Where at most one of two elements comes after the other, settling leaves no element after its
    successor. -/
theorem settle_isChain (hasymm : ∀ a b, compare a b = .gt → compare b a ≠ .gt) (x : α) {ys : List α}
    (h : ys.IsChain fun b a => compare a b ≠ .gt) :
    (settle compare x ys).IsChain fun b a => compare a b ≠ .gt := by
  induction ys with
  | nil => exact List.IsChain.singleton x
  | cons y ys ih =>
      rw [settle]
      by_cases hgt : compare y x = .gt
      · rw [if_pos hgt]
        have hsettled := ih h.tail
        cases ys with
        | nil => exact .cons_cons (hasymm y x hgt) hsettled
        | cons z ys =>
            rw [settle] at hsettled ⊢
            -- The next element is the one before or the settled one.
            by_cases hgt' : compare z x = .gt
            · rw [if_pos hgt'] at hsettled ⊢
              exact .cons_cons h.rel hsettled
            · rw [if_neg hgt'] at hsettled ⊢
              exact .cons_cons (hasymm y x hgt) hsettled
      · rw [if_neg hgt]
        exact .cons_cons hgt h

/-- **No element of the result comes after its successor**, although the comparison need not be
    transitive. -/
theorem insertionSort_isChain (hasymm : ∀ a b, compare a b = .gt → compare b a ≠ .gt) (xs : List α) :
    (insertionSort compare xs).IsChain fun a b => compare a b ≠ .gt := by
  rw [insertionSort, List.isChain_reverse]
  have hfold : ∀ sorted : List α, (sorted.IsChain fun b a => compare a b ≠ .gt) →
      (xs.foldl (fun sorted x => settle compare x sorted) sorted).IsChain
        fun b a => compare a b ≠ .gt := by
    induction xs with
    | nil => exact fun _ h => h
    | cons x xs ih => exact fun sorted h => ih _ (settle_isChain hasymm x h)
  exact hfold [] .nil

end Blockwork.Source
