import Blockwork.Proofs.Edit.Sound
import Mathlib.Data.List.MinMax

/-!
# `Blockwork.Proofs.Edit.Numbering`: the counter runs ahead of every serial

Ids are free text, so any of them may happen to end in a serial. The counter starts after the largest
one and moves only when a block is inserted, by one: no id in the forest ends in a serial that is
still to come, and the next id is never in the way. That holds until the serials run out.

## Contents
- `Forest.topSerial`, the largest serial of a forest, with `toNat_largestSerial` and
  `toNat_nextSerial_ofTrees`.
- `Serial.Within`, an id that does not end in a serial above a bound.
- `Forest.Numbered`, with `ofTrees_numbered` and `empty_numbered`.
- `Outcome.created` and `Forest.Applied.created_cases`: what a command inserts, and what it does to
  the ids otherwise.
- `Forest.Numbered.insert` and `Forest.Numbered.keep`: one step.
-/

namespace Blockwork

/-! ## Serials of ids -/

namespace Serial

/-- The id does not end in a serial above `top`. -/
def Within (top : Nat) (id : BlockId) : Prop :=
  ∀ s, serial? id = some s → s.toNat ≤ top

theorem Within.mono {top top' : Nat} {id : BlockId} (h : Within top id) (hle : top ≤ top') :
    Within top' id :=
  fun s hs => Nat.le_trans (h s hs) hle

theorem toNat_max (s t : UInt64) : (max s t).toNat = max s.toNat t.toNat := by
  rcases Nat.le_total s.toNat t.toNat with h | h
  · rw [Nat.max_eq_right h, UInt64.max_def, if_pos (UInt64.le_iff_toNat_le.mpr h)]
  · rw [Nat.max_eq_left h, UInt64.max_def]
    by_cases hle : s ≤ t
    · rw [if_pos hle, Nat.le_antisymm (UInt64.le_iff_toNat_le.mp hle) h]
    · rw [if_neg hle]

theorem within_append_toString {name : String} {n top : Nat} (hfits : n < 2 ^ 64) :
    Within top (name ++ "-" ++ toString n) ↔ n ≤ top := by
  have hn : (UInt64.ofNat n).toNat = n := UInt64.toNat_ofNat_of_lt' hfits
  have hsize : n < UInt64.size := hfits
  unfold Within
  rw [serial?_append_toString, if_pos hsize]
  simp [hn]

theorem within_idOf {name : String} {s : UInt64} {top : Nat} :
    Within top (idOf name s) ↔ s.toNat ≤ top := by
  unfold Within
  rw [serial?_idOf]
  simp

end Serial

/-- The block that an insertion created: the name asked for and the id answered. -/
def Outcome.created (o : Outcome) : Command → Option (String × BlockId)
  | .insert name _ => o.inserted.map (name, ·)
  | _ => none

namespace Forest

variable {f g : Forest} {top : Nat}

/-! ## The largest serial -/

/-- The largest serial at the end of an id, zero if no id ends in one. -/
def topSerial (f : Forest) : Nat :=
  ((f.ids.filterMap Serial.serial?).map UInt64.toNat).foldr max 0

theorem within_topSerial {id : BlockId} (h : id ∈ f.ids) : Serial.Within f.topSerial id := by
  intro s hs
  have hmem : s.toNat ∈ (f.ids.filterMap Serial.serial?).map UInt64.toNat :=
    List.mem_map_of_mem (List.mem_filterMap.mpr ⟨id, h, hs⟩)
  exact List.le_max_of_le' 0 hmem (Nat.le_refl _)

/-- No bound on the serials lies below the largest one. -/
theorem topSerial_le {n : Nat} (h : ∀ id ∈ f.ids, Serial.Within n id) : f.topSerial ≤ n := by
  have hfold : ∀ ss : List Nat, (∀ s ∈ ss, s ≤ n) → ss.foldr max 0 ≤ n := by
    intro ss hss
    induction ss with
    | nil => exact Nat.zero_le n
    | cons s ss ih =>
        rw [List.forall_mem_cons] at hss
        exact Nat.max_le.mpr ⟨hss.1, ih hss.2⟩
  refine hfold _ fun s hs => ?_
  obtain ⟨serial, hserial, rfl⟩ := List.mem_map.mp hs
  obtain ⟨id, hid, hparse⟩ := List.mem_filterMap.mp hserial
  exact h id hid serial hparse

theorem toNat_foldl_max (ss : List UInt64) (s : UInt64) :
    (ss.foldl max s).toNat = max s.toNat ((ss.map UInt64.toNat).foldr max 0) := by
  induction ss generalizing s with
  | nil => simp
  | cons t ss ih =>
      rw [List.foldl_cons, ih, Serial.toNat_max, List.map_cons, List.foldr_cons, Nat.max_assoc]

/-- Loading looks at the ids in the order of the walk. -/
theorem largestSerial_eq (roots : List Tree) :
    largestSerial roots = ((Tree.idsAll roots).filterMap Serial.serial?).foldl max 0 := by
  have hids : (Cursor.ofRoots roots).toList.map (·.2.id) = Tree.idsAll roots :=
    map_id_walk ⟨roots, 0⟩
  rw [largestSerial, ← hids, List.filterMap_map]
  rfl

/-- Loading finds the largest serial. -/
theorem toNat_largestSerial (f : Forest) : (largestSerial f.roots).toNat = f.topSerial := by
  rw [largestSerial_eq, toNat_foldl_max]
  exact Nat.zero_max _

/-- The counter of a loaded forest stands after the largest serial, or at it if none comes after. -/
theorem toNat_nextSerial_ofTrees (roots : List Tree) :
    (ofTrees roots).nextSerial.toNat = min ((ofTrees roots).topSerial + 1) (2 ^ 64 - 1) := by
  rw [← toNat_largestSerial]
  show (if largestSerial (ofTrees roots).roots = Serial.largest then
    largestSerial (ofTrees roots).roots else largestSerial (ofTrees roots).roots + 1).toNat = _
  by_cases hlargest : largestSerial (ofTrees roots).roots = Serial.largest
  · rw [if_pos hlargest, hlargest, Serial.toNat_largest]
    rfl
  · have hlt : (largestSerial (ofTrees roots).roots).toNat < 2 ^ 64 - 1 := by
      by_contra hle
      exact hlargest (Serial.eq_largest_of_le (Nat.le_of_not_lt hle))
    have hnext := Serial.toNat_nextSerial hlt
    rw [Serial.nextSerial, if_neg hlargest] at hnext
    rw [if_neg hlargest, hnext]
    omega

/-! ## The invariant -/

/-- Every id ends in a serial up to `top` if in any, and the next one is `top + 1`. -/
structure Numbered (f : Forest) (top : Nat) : Prop where
  distinct : f.ids.Nodup
  within : ∀ id ∈ f.ids, Serial.Within top id
  next : top < 2 ^ 64 - 1 → f.nextSerial.toNat = top + 1

theorem empty_numbered : empty.Numbered empty.topSerial where
  distinct := List.nodup_nil
  within := fun _ hid => absurd hid List.not_mem_nil
  next := fun _ => rfl

/-- **A loaded forest counts on from its largest serial.** -/
theorem ofTrees_numbered {roots : List Tree} (hvalid : (ofTrees roots).Valid) :
    (ofTrees roots).Numbered (ofTrees roots).topSerial where
  distinct := (valid_iff_sound.mp hvalid).distinct
  within := fun _ hid => within_topSerial hid
  next := by
    intro htop
    rw [toNat_nextSerial_ofTrees]
    omega

/-! ## One command -/

/-- **What commands do to ids and counter.** Either nothing is created; then the counter stays, and
    no id comes in or is doubled. Or the command was an insertion. -/
theorem Applied.created_cases {c : Command} {o : Outcome} (h : f.Applied c o) :
    (o.created c = none ∧ o.inserted = none ∧ o.forest.nextSerial = f.nextSerial ∧
      o.forest.ids.Subperm f.ids) ∨
    (∃ name position id, f.insert name position = .ok (id, o.forest) ∧
      o.created c = some (name, id) ∧ o.inserted = some id) := by
  cases h with
  | refused r =>
      refine Or.inl ⟨?_, rfl, rfl, List.Subperm.refl _⟩
      cases c <;> rfl
  | insert h => exact Or.inr ⟨_, _, _, h, rfl, rfl⟩
  | update h =>
      obtain ⟨-, -, -, -, -, -, hserial⟩ := update_ok h
      exact Or.inl ⟨rfl, rfl, hserial, ids_update h ▸ List.Subperm.refl _⟩
  | delete h =>
      obtain ⟨-, -, -, hserial⟩ := delete_ok h
      exact Or.inl ⟨rfl, rfl, hserial, (ids_delete h).subperm⟩
  | group h =>
      obtain ⟨-, -, -, -, -, -, -, -, -, -, -, -, -, -, hserial⟩ := group_ok h
      exact Or.inl ⟨rfl, rfl, hserial, (ids_group h).subperm⟩
  | ungroup h =>
      obtain ⟨-, -, -, -, -, -, hserial⟩ := ungroup_ok h
      exact Or.inl ⟨rfl, rfl, hserial, (ids_ungroup h).subperm⟩

theorem Numbered.keep (hf : f.Numbered top) (hserial : g.nextSerial = f.nextSerial)
    (hids : g.ids.Subperm f.ids) : g.Numbered top where
  distinct := by
    obtain ⟨ids, hperm, hsub⟩ := hids
    exact hperm.nodup_iff.mp (hsub.nodup hf.distinct)
  within := fun id hid => hf.within id (hids.subset hid)
  next := fun htop => hserial ▸ hf.next htop

/-- **An insertion takes the next serial.** -/
theorem Numbered.insert (hf : f.Numbered top) (htop : top < 2 ^ 64 - 1) {name : String}
    {position : Position} {id : BlockId} (h : f.insert name position = .ok (id, g)) :
    id = name ++ "-" ++ toString (top + 1) ∧ ¬Serial.Within top id ∧ g.Numbered (top + 1) := by
  have hnext := hf.next htop
  -- The next serial is above every serial present, so the search stops where it starts.
  have hnew : ¬Serial.Within top (Serial.idOf name f.nextSerial) := by
    rw [Serial.within_idOf]
    omega
  have hfree : Serial.idOf name f.nextSerial ∉ f.ids := fun hmem => hnew (hf.within _ hmem)
  have hids := ids_insert h
  obtain ⟨e, -, hid, -, hserial⟩ := insert_ok h
  rw [allocate_of_notMem hfree] at hid hserial
  simp only at hid hserial
  refine ⟨by rw [hid, Serial.idOf, hnext], hid ▸ hnew, ?_, ?_, ?_⟩
  · rw [hids, ← List.concat_eq_append]
    exact hf.distinct.concat (hid ▸ hfree)
  · intro i hi
    rw [hids, List.mem_append, List.mem_singleton] at hi
    rcases hi with hi | rfl
    · exact (hf.within i hi).mono (Nat.le_succ top)
    · rw [hid, Serial.within_idOf, hnext]
  · intro hroom
    rw [hserial]
    show (Serial.nextSerial f.nextSerial).toNat = _
    rw [Serial.toNat_nextSerial (by omega), hnext]

end Forest

end Blockwork
