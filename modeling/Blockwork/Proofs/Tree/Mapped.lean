import Blockwork.Proofs.Tree.Splice

/-!
# `Blockwork.Proofs.Tree.Mapped`: searches do not look into blocks

Every search goes by ids. So if all blocks are changed and keep their ids, each search finds the same
place as before, and what is found, cut out or left there is what it was, changed.

## Contents
- `mapAll_eq_map`, with `mapAll_append` and `mapAll_mapAll`; `subtreesAll_mapAll`, `preorderAll_mapAll`.
- `findAll?_mapAll`, `cut?_mapAll` and `modifyIn?_mapAll`, for a change that keeps ids.
-/

namespace Blockwork.Tree

variable {u v : Block → Block}

theorem mapAll_eq_map (u : Block → Block) (ts : List Tree) : mapAll u ts = ts.map (map u) := by
  induction ts with
  | nil => rfl
  | cons t ts ih => rw [mapAll, ih, List.map_cons]

theorem mapAll_append (u : Block → Block) (ts us : List Tree) :
    mapAll u (ts ++ us) = mapAll u ts ++ mapAll u us := by
  rw [mapAll_eq_map, List.map_append, ← mapAll_eq_map, ← mapAll_eq_map]

theorem mapAll_mapAll (u v : Block → Block) (ts : List Tree) :
    mapAll v (mapAll u ts) = mapAll (fun b => v (u b)) ts := by
  induction ts using siblingInduction with
  | nil => rfl
  | cons b us ts ihUs ihTs => rw [mapAll, map, mapAll, map, ihUs, ihTs, mapAll, map]

theorem subtreesAll_mapAll (u : Block → Block) (ts : List Tree) :
    subtreesAll (mapAll u ts) = (subtreesAll ts).map (map u) := by
  induction ts using siblingInduction with
  | nil => rfl
  | cons b us ts ihUs ihTs =>
      rw [mapAll, map, subtreesAll_cons, subtreesAll_cons, ihUs, ihTs, List.map_cons,
        List.map_append, map]

theorem preorderAll_mapAll (u : Block → Block) (depth : Nat) (ts : List Tree) :
    preorderAll depth (mapAll u ts) = (preorderAll depth ts).map fun e => (e.1, u e.2) := by
  induction ts using siblingInduction generalizing depth with
  | nil => rfl
  | cons b us ts ihUs ihTs =>
      rw [mapAll, map, preorderAll_cons, preorderAll_cons, ihUs, ihTs, List.map_cons, List.map_append]

section Searches

variable {id : BlockId} {ts : List Tree} (hu : ∀ b, (u b).id = b.id)

include hu

theorem id_map (t : Tree) : (map u t).id = t.id := by
  cases t with
  | node b us => exact hu b

theorem findAll?_mapAll : findAll? id (mapAll u ts) = (findAll? id ts).map (map u) := by
  rw [findAll?_eq_find?, findAll?_eq_find?, subtreesAll_mapAll, List.find?_map]
  congr 2
  funext t
  rw [Function.comp_apply, id_map hu]

theorem cutHere?_mapAll :
    cutHere? id (mapAll u ts) = (cutHere? id ts).map fun r => (map u r.1, mapAll u r.2) := by
  induction ts with
  | nil => rfl
  | cons t ts ih =>
      rw [mapAll, cutHere?, cutHere?, id_map hu]
      by_cases hid : t.id = id
      · rw [if_pos hid, if_pos hid, Option.map_some]
      · rw [if_neg hid, if_neg hid, ih]
        cases cutHere? id ts with
        | none => rfl
        | some r => rfl

theorem cut?_mapAll_of_below
    (below : cutBelow? id (mapAll u ts) = (cutBelow? id ts).map fun r => (map u r.1, mapAll u r.2)) :
    cut? id (mapAll u ts) = (cut? id ts).map fun r => (map u r.1, mapAll u r.2) := by
  rw [cut?, cut?, cutHere?_mapAll hu, below]
  cases cutHere? id ts with
  | none => rfl
  | some r => rfl

theorem cutBelow?_mapAll :
    cutBelow? id (mapAll u ts) = (cutBelow? id ts).map fun r => (map u r.1, mapAll u r.2) := by
  induction ts using siblingInduction with
  | nil => rfl
  | cons b us ts ihUs ihTs =>
      rw [mapAll, map, cutBelow?, cutBelow?, cutInside?_node, cutInside?_node,
        cut?_mapAll_of_below hu ihUs, ihTs]
      cases cut? id us with
      | some r => rfl
      | none =>
          cases cutBelow? id ts with
          | none => rfl
          | some r => rfl

/-- **What is cut out and what is left are what they were, changed.** -/
theorem cut?_mapAll : cut? id (mapAll u ts) = (cut? id ts).map fun r => (map u r.1, mapAll u r.2) :=
  cut?_mapAll_of_below hu (cutBelow?_mapAll hu)

/-- **A change at an id and a change of all blocks may change places** if they do so at one tree. -/
theorem modifyIn?_mapAll {f g : Tree → Tree} (hfg : ∀ t, g (map u t) = map u (f t)) :
    modifyIn? id g (mapAll u ts) = (modifyIn? id f ts).map (mapAll u) := by
  induction ts using siblingInduction with
  | nil => rfl
  | cons b us ts ihUs ihTs =>
      rw [mapAll, map, modifyIn?, modifyIn?, modify?, modify?, hu, ihUs, ihTs]
      by_cases hid : b.id = id
      · rw [if_pos hid, if_pos hid, ← map, hfg]
        rfl
      · rw [if_neg hid, if_neg hid]
        cases modifyIn? id f us with
        | some us' => rfl
        | none =>
            cases modifyIn? id f ts with
            | none => rfl
            | some ts' => rfl

end Searches

end Blockwork.Tree
