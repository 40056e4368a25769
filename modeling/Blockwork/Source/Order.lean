import Blockwork.Forest.Block

/-!
# `Blockwork.Source.Order`: the order of blocks on the canvas

Blocks are read from top to bottom, and blocks in the same row from left to right. Two blocks are in
the same row if their heights differ by less than a threshold, so the comparison is not transitive,
and the order is that of an insertion sort: each block in turn moves ahead of the blocks before it
until one of them does not come after it.

## Contents
- `Position.compareWith`.
- `settle`, one step of the sort, and `sortByPosition`.
-/

namespace Blockwork

/-- By height, or by horizontal place in the same row. -/
def Position.compareWith (threshold : Binary64) (p q : Position) : Ordering :=
  if (p.y - q.y).abs.lt threshold then p.x.totalOrder q.x else p.y.totalOrder q.y

namespace Source

/-- `x` moved ahead of the sorted elements that come after it; the list has the last one first. -/
def settle {α : Type} (compare : α → α → Ordering) (x : α) : List α → List α
  | [] => [x]
  | y :: ys => if compare y x = .gt then y :: settle compare x ys else x :: y :: ys

/-- The elements settled one after another. -/
def insertionSort {α : Type} (compare : α → α → Ordering) (xs : List α) : List α :=
  (xs.foldl (fun sorted x => settle compare x sorted) []).reverse

/-- The elements in canvas order. -/
def sortByPosition {α : Type} (threshold : Binary64) (position : α → Position) (xs : List α) :
    List α :=
  insertionSort (fun a b => (position a).compareWith threshold (position b)) xs

end Source

end Blockwork
