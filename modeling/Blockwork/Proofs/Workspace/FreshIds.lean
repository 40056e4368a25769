import Blockwork.Proofs.Edit.Acceptance
import Blockwork.Proofs.Edit.Numbering
import Blockwork.Proofs.Workspace.Reachable

/-!
# `Blockwork.Proofs.Workspace.FreshIds`: a run of commands never uses an id twice

The ids that a run hands out are numbered on from the largest serial that was there at the start. So
each is new: it was in no earlier state of the run, whether loaded or inserted before, and whatever
has been deleted since. And what is deleted stays away.

## Contents
- `Forest.mem_ids_and_notMem_delete`: what a deletion takes out.
- `Workspace.insertions`, the blocks that a run creates, in order.
- `Workspace.numbered_applyAll`, the invariant along a run, and `getElem?_insertions`, the numbers.
- `Workspace.within_of_prefix` and `notMem_applyAll`: ids of earlier states, and ids that are gone.
- `Workspace.Started` and `Workspace.Started.fresh_ids`, for every run.
-/

namespace Blockwork

/-! ## Deletion -/

/-- What is in a tree is there before the tree is deleted and gone afterwards. -/
theorem Forest.mem_ids_and_notMem_delete {f : Forest} (hf : f.ids.Nodup) {id : BlockId} {t : Tree}
    (hfind : f.find? id = some t) {i : BlockId} (hi : i ∈ t.subtrees.map Tree.id) :
    i ∈ f.ids ∧ i ∉ (f.apply (.delete id)).forest.ids := by
  rw [apply]
  cases hresult : f.delete id with
  | error r =>
      have habsent : f.Refuses (.delete id) := refuses_of_not_changed hf (by rw [apply, hresult]; rfl)
      exact absurd (mem_ids_of_find? hfind) habsent
  | ok g =>
      obtain ⟨u, rfl, hcut, -⟩ := delete_ok hresult
      have hsame : u = t := Option.some.inj ((find?_of_cut hf hcut).symm.trans hfind)
      have hperm := hcut.perm_idsAll_cut
      have hdisjoint := (List.nodup_append.mp (hperm.nodup_iff.mp hf)).2.2
      rw [← Tree.subtreesAll_singleton, ← hsame] at hi
      exact ⟨hperm.symm.subset (List.mem_append_right _ hi), fun hmem => hdisjoint i hmem i hi rfl⟩

namespace Workspace

/-! ## Runs -/

/-- The blocks that a run creates: the names asked for and the ids answered. -/
def insertions (w : Workspace) : List Command → List (String × BlockId)
  | [] => []
  | c :: cs => ((w.apply c).2.created c).toList ++ insertions (w.apply c).1 cs

theorem applyAll_append (w : Workspace) (cs ds : List Command) :
    (w.applyAll (cs ++ ds)).1 = ((w.applyAll cs).1.applyAll ds).1 := by
  induction cs generalizing w with
  | nil => rfl
  | cons c cs ih => exact ih (w.apply c).1

theorem insertions_append (w : Workspace) (cs ds : List Command) :
    w.insertions (cs ++ ds) = w.insertions cs ++ (w.applyAll cs).1.insertions ds := by
  induction cs generalizing w with
  | nil => rfl
  | cons c cs ih =>
      rw [List.cons_append, insertions, insertions, ih, List.append_assoc]
      rfl

variable {w : Workspace} {top : Nat}

/-! ## The invariant along a run -/

/-- **One command.** It creates nothing and brings no id in, or it takes the next number. -/
theorem numbered_cases (hw : w.forest.Numbered top) (c : Command) :
    ((w.apply c).2.created c = none ∧ (w.apply c).2.inserted = none ∧
      (w.apply c).1.forest.Numbered top ∧ (w.apply c).1.forest.ids ⊆ w.forest.ids) ∨
    (∃ name id, (w.apply c).2.created c = some (name, id) ∧ (w.apply c).2.inserted = some id ∧
      (top < 2 ^ 64 - 1 → id = name ++ "-" ++ toString (top + 1) ∧ ¬Serial.Within top id ∧
        (w.apply c).1.forest.Numbered (top + 1) ∧
        (w.apply c).1.forest.ids = w.forest.ids ++ [id])) := by
  rcases (w.forest.applied_apply c).created_cases with
    ⟨hnone, hinserted, hserial, hids⟩ | ⟨name, position, id, hinsert, hsome, hinserted⟩
  · exact Or.inl ⟨hnone, hinserted, hw.keep hserial hids, hids.subset⟩
  · refine Or.inr ⟨name, id, hsome, hinserted, fun htop => ?_⟩
    obtain ⟨hid, hnew, hnumbered⟩ := hw.insert htop hinsert
    exact ⟨hid, hnew, hnumbered, Forest.ids_insert hinsert⟩

/-- **The invariant goes along a run**, one number for each block created. -/
theorem numbered_applyAll (hw : w.forest.Numbered top) (cs : List Command)
    (hroom : top + (w.insertions cs).length ≤ 2 ^ 64 - 1) :
    (w.applyAll cs).1.forest.Numbered (top + (w.insertions cs).length) := by
  induction cs generalizing w top with
  | nil => exact hw
  | cons c cs ih =>
      rw [insertions, List.length_append] at hroom ⊢
      rw [applyAll_cons]
      rcases numbered_cases hw c with ⟨hnone, -, hnext, -⟩ | ⟨name, id, hsome, -, hnext⟩
      · rw [hnone, Option.toList_none, List.length_nil, Nat.zero_add] at hroom ⊢
        exact ih hnext hroom
      · rw [hsome, Option.toList_some, List.length_singleton, ← Nat.add_assoc] at hroom ⊢
        obtain ⟨-, -, hnumbered, -⟩ := hnext (by omega)
        exact ih hnumbered hroom

/-- **The blocks that a run creates are numbered on.** -/
theorem getElem?_insertions (hw : w.forest.Numbered top) {cs : List Command}
    (hroom : top + (w.insertions cs).length ≤ 2 ^ 64 - 1) {k : Nat} {name : String} {id : BlockId}
    (h : (w.insertions cs)[k]? = some (name, id)) :
    id = name ++ "-" ++ toString (top + (k + 1)) := by
  induction cs generalizing w top k with
  | nil => exact absurd h (by simp [insertions])
  | cons c cs ih =>
      rw [insertions, List.length_append] at hroom
      rw [insertions] at h
      rcases numbered_cases hw c with ⟨hnone, -, hnext, -⟩ | ⟨name', id', hsome, -, hnext⟩
      · rw [hnone, Option.toList_none, List.length_nil, Nat.zero_add] at hroom
        rw [hnone, Option.toList_none, List.nil_append] at h
        exact ih hnext hroom h
      · rw [hsome, Option.toList_some, List.length_singleton, ← Nat.add_assoc] at hroom
        rw [hsome, Option.toList_some, List.singleton_append] at h
        obtain ⟨hid, -, hnumbered, -⟩ := hnext (by omega)
        cases k with
        | zero =>
            rw [List.getElem?_cons_zero, Option.some.injEq, Prod.mk.injEq] at h
            obtain ⟨rfl, rfl⟩ := h
            exact hid
        | succ k =>
            rw [List.getElem?_cons_succ] at h
            rw [ih hnumbered hroom h, Nat.add_assoc, Nat.add_comm 1]

/-- **An id that is gone stays away**, if its serial has been passed. -/
theorem notMem_applyAll (hw : w.forest.Numbered top) {cs : List Command}
    (hroom : top + (w.insertions cs).length ≤ 2 ^ 64 - 1) {id : BlockId}
    (hwithin : Serial.Within top id) (hgone : id ∉ w.forest.ids) :
    id ∉ (w.applyAll cs).1.forest.ids := by
  induction cs generalizing w top with
  | nil => exact hgone
  | cons c cs ih =>
      rw [insertions, List.length_append] at hroom
      rw [applyAll_cons]
      rcases numbered_cases hw c with ⟨hnone, -, hnext, hids⟩ | ⟨name, id', hsome, -, hnext⟩
      · rw [hnone, Option.toList_none, List.length_nil, Nat.zero_add] at hroom
        exact ih hnext hroom hwithin fun hid => hgone (hids hid)
      · rw [hsome, Option.toList_some, List.length_singleton, ← Nat.add_assoc] at hroom
        obtain ⟨-, hnew, hnumbered, hids⟩ := hnext (by omega)
        refine ih hnumbered hroom (hwithin.mono (Nat.le_succ top)) ?_
        rw [hids, List.mem_append, List.mem_singleton]
        rintro (hid | rfl)
        · exact hgone hid
        · exact hnew hwithin

/-- An id that was there earlier in a run does not end in a serial still to come. -/
theorem within_of_prefix (hw : w.forest.Numbered top) {done earlier : List Command}
    (hroom : top + (w.insertions done).length ≤ 2 ^ 64 - 1) (hle : earlier <+: done)
    {id : BlockId} (hid : id ∈ (w.applyAll earlier).1.forest.ids) :
    Serial.Within (top + (w.insertions done).length) id := by
  obtain ⟨later, rfl⟩ := hle
  rw [insertions_append, List.length_append] at hroom ⊢
  have hearlier := numbered_applyAll hw earlier (by omega)
  exact (hearlier.within id hid).mono (by omega)

/-! ## Runs from the start -/

/-- The workspaces that a run starts from: a new one, or one made from a loaded forest. -/
def Started (w : Workspace) : Prop :=
  w = .empty ∨ ∃ roots, ofForest (.ofTrees roots) = .ok w

theorem Started.kept (hw : w.Started) : w.Kept := by
  rcases hw with rfl | ⟨roots, h⟩
  · exact Reachable.empty.kept
  · exact Kept.ofForest (.ofTrees roots) h

theorem Started.numbered (hw : w.Started) : w.forest.Numbered w.forest.topSerial := by
  rcases hw with rfl | ⟨roots, h⟩
  · exact Forest.empty_numbered
  · obtain ⟨hforest, hvalid⟩ := forest_of_ofForest h
    rw [hforest]
    exact Forest.ofTrees_numbered hvalid

/-- **Ids are never used twice in a run.** As long as the serials last, the blocks that the run
    creates are numbered on from the largest serial at the start; a new id was in no state before;
    and nothing that was in a deleted tree is in a state after the deletion. -/
theorem Started.fresh_ids (hw : w.Started) {cs : List Command}
    (hroom : w.forest.topSerial + (w.insertions cs).length ≤ 2 ^ 64 - 1) :
    (∀ k name id, (w.insertions cs)[k]? = some (name, id) →
      id = name ++ "-" ++ toString (w.forest.topSerial + (k + 1))) ∧
    (∀ done c rest id, cs = done ++ c :: rest →
      ((w.applyAll done).1.apply c).2.inserted = some id →
      ∀ earlier, earlier <+: done → id ∉ (w.applyAll earlier).1.forest.ids) ∧
    (∀ done id rest t, cs = done ++ .delete id :: rest →
      (w.applyAll done).1.forest.find? id = some t →
      ∀ i ∈ t.subtrees.map Tree.id, ∀ more, more <+: rest →
        i ∉ (w.applyAll (done ++ .delete id :: more)).1.forest.ids) := by
  have hstart := hw.numbered
  refine ⟨fun k name id h => getElem?_insertions hstart hroom h, ?_, ?_⟩
  · rintro done c rest id rfl hinserted earlier hearlier hmem
    rw [insertions_append, List.length_append, insertions, List.length_append] at hroom
    have hdone := numbered_applyAll hstart done (by omega)
    rcases numbered_cases hdone c with ⟨-, hnone, -⟩ | ⟨name, id', hsome, hinserted', hnext⟩
    · rw [hnone] at hinserted
      exact absurd hinserted (by simp)
    · rw [hinserted', Option.some.injEq] at hinserted
      rw [hsome, Option.toList_some, List.length_singleton] at hroom
      obtain ⟨-, hnew, -⟩ := hnext (by omega)
      -- Every serial of an earlier state has been passed; the new one has not.
      exact hnew (hinserted ▸ within_of_prefix hstart (by omega) hearlier hmem)
  · rintro done id rest t rfl hfind i hi more ⟨rest', rfl⟩
    rw [insertions_append, List.length_append, insertions, List.length_append, insertions_append,
      List.length_append] at hroom
    have hdone := numbered_applyAll hstart done (by omega)
    obtain ⟨hpresent, hgone⟩ := Forest.mem_ids_and_notMem_delete hdone.distinct hfind hi
    rw [applyAll_append, applyAll_cons]
    -- The deletion creates nothing, so the deleted ids are still among the passed ones.
    rcases numbered_cases hdone (.delete id) with ⟨-, -, hdeleted, -⟩ | ⟨name, id', hsome, -⟩
    · exact notMem_applyAll hdeleted (by omega) (hdone.within i hpresent) hgone
    · exact absurd hsome (by simp [Outcome.created])

/-- A statement whose id ends in a serial with leading zeros. -/
def numberedStatement : List Tree :=
  (Workspace.empty.apply (.insert "print" .origin)).1.forest.roots.map
    (Tree.mapRoot fun b => { b with id := "print-007" })

/-- Two more statements; the first of them is deleted in between. -/
def insertDeleteInsert : List Command :=
  [.insert "print" .origin, .delete "print-8", .insert "print" .origin]

/-- The second insertion does not get the number of the deleted statement. -/
theorem fresh_ids_insertDeleteInsert :
    let w : Workspace := ⟨.ofTrees numberedStatement⟩
    w.Started ∧ w.insertions insertDeleteInsert = [("print", "print-8"), ("print", "print-9")] ∧
      "print-9" = "print" ++ "-" ++ toString (w.forest.topSerial + (1 + 1)) := by
  intro w
  have hstarted : w.Started := Or.inr ⟨numberedStatement, by rfl⟩
  have hforest : w.forest = ⟨Tree.mapAll Block.fill numberedStatement, 8⟩ := by
    show Forest.ofTrees numberedStatement = _
    rw [Forest.ofTrees, Forest.largestSerial_eq]
    rfl
  have hinsertions : w.insertions insertDeleteInsert
      = [("print", "print-8"), ("print", "print-9")] := by
    rw [show w = ⟨w.forest⟩ from rfl, hforest]
    rfl
  have hroom : w.forest.topSerial + (w.insertions insertDeleteInsert).length ≤ 2 ^ 64 - 1 := by
    rw [hinsertions]
    decide
  obtain ⟨hnumbers, -, -⟩ := hstarted.fresh_ids hroom
  exact ⟨hstarted, hinsertions, hnumbers 1 "print" "print-9" (by rw [hinsertions]; rfl)⟩

end Workspace

end Blockwork
