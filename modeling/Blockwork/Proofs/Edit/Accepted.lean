import Blockwork.Edit.Command
import Blockwork.Proofs.Forest.Walk
import Blockwork.Proofs.Tree.Splice

/-!
# `Blockwork.Proofs.Edit.Accepted`: what an accepted edit has done

One statement for each edit says what it found out before it changed anything and which splice it
made then. Nothing is assumed of the forest, so where ids are not distinct these statements leave
open which of the blocks with an id was met. What edits keep is proved from these statements and not
from the edits.

## Contents
- `Forest.insert_ok`, `update_ok`, `delete_ok`, `group_ok`, `ungroup_ok`.
- `Forest.Applied`, and `Forest.applied_apply`: what a command comes to.
- `Tree.blocksAll_mapRoot`, `Tree.blocksAll_addChild` and the like: what the changed trees contain.
-/

namespace Blockwork

namespace Forest

variable {f g : Forest}

/-! ## The five edits -/

theorem insert_ok {name : String} {position : Position} {id : BlockId}
    (h : f.insert name position = .ok (id, g)) :
    ∃ e, Catalog.lookup name = some e ∧ id = (f.allocate name).1 ∧
      g.roots = f.roots ++ [.node (Block.fresh id e position) []] ∧
      g.nextSerial = (f.allocate name).2.nextSerial := by
  unfold insert at h
  cases hlookup : Catalog.lookup name with
  | none =>
      rw [hlookup] at h
      exact absurd h (by simp)
  | some e =>
      rw [hlookup] at h
      simp only [Except.ok.injEq, Prod.mk.injEq] at h
      obtain ⟨rfl, rfl⟩ := h
      rw [Catalog.id_of_lookup hlookup]
      exact ⟨e, rfl, rfl, rfl, rfl⟩

theorem update_ok {id : BlockId} {p : Patch} {log : List LogEntry}
    (h : f.update id p = .ok (log, g)) :
    ∃ found t, f.find? id = some found ∧ log = found.block.skippedLog p ∧ t.id = id ∧
      Tree.Splice [t] [t.mapRoot (·.patch p)] f.roots g.roots ∧ g.nextSerial = f.nextSerial := by
  unfold update at h
  cases hfind : f.find? id with
  | none =>
      rw [hfind] at h
      exact absurd h (by simp)
  | some found =>
      rw [hfind] at h
      cases hmodify : Tree.modifyIn? id (Tree.mapRoot (·.patch p)) f.roots with
      | none =>
          rw [hmodify] at h
          exact absurd h (by simp)
      | some roots =>
          rw [hmodify] at h
          simp only [Except.ok.injEq, Prod.mk.injEq] at h
          obtain ⟨rfl, rfl⟩ := h
          obtain ⟨t, htid, hsplice⟩ := Tree.modifyIn?_splice hmodify
          exact ⟨found, t, rfl, rfl, htid, hsplice, rfl⟩

theorem delete_ok {id : BlockId} (h : f.delete id = .ok g) :
    ∃ t, t.id = id ∧ Tree.Splice [t] [] f.roots g.roots ∧ g.nextSerial = f.nextSerial := by
  unfold delete at h
  cases hcut : Tree.cut? id f.roots with
  | none =>
      rw [hcut] at h
      exact absurd h (by simp)
  | some r =>
      rw [hcut] at h
      simp only [Except.ok.injEq] at h
      subst h
      obtain ⟨htid, hsplice⟩ := Tree.cut?_splice hcut
      exact ⟨r.1, htid, hsplice, rfl⟩

/-- What grouping found out, what it cut, and where it put that. -/
theorem group_ok {parent child : BlockId} (h : f.group parent child = .ok g) :
    ∃ moving target moved rest t,
      parent ≠ child ∧ f.find? child = some moving ∧ moving.contains parent = false ∧
      f.find? parent = some target ∧ target.block.canOwnChildren = true ∧
      moved.id = child ∧ Tree.Splice [moved] [] f.roots rest ∧
      t.id = parent ∧
      Tree.Splice [t] [.addChild (moved.mapRoot (·.setParent (some parent))) t] rest g.roots ∧
      g.nextSerial = f.nextSerial := by
  unfold group at h
  by_cases hself : parent = child
  · rw [if_pos hself] at h
    exact absurd h (by simp)
  rw [if_neg hself] at h
  cases hmoving : f.find? child with
  | none =>
      rw [hmoving] at h
      exact absurd h (by simp)
  | some moving =>
  simp only [hmoving] at h
  by_cases hcycle : moving.contains parent = true
  · rw [if_pos hcycle] at h
    exact absurd h (by simp)
  rw [if_neg hcycle] at h
  cases htarget : f.find? parent with
  | none =>
      rw [htarget] at h
      exact absurd h (by simp)
  | some target =>
  simp only [htarget] at h
  by_cases hleaf : (!target.block.canOwnChildren) = true
  · rw [if_pos hleaf] at h
    exact absurd h (by simp)
  rw [if_neg hleaf] at h
  -- All checks have passed; from here on the forest is cut and put together again.
  cases hcut : Tree.cut? child f.roots with
  | none =>
      rw [hcut] at h
      exact absurd h (by simp)
  | some r =>
  obtain ⟨moved, rest⟩ := r
  simp only [hcut] at h
  cases hmodify : Tree.modifyIn? parent
      (Tree.addChild (moved.mapRoot (·.setParent (some parent)))) rest with
  | none =>
      rw [hmodify] at h
      exact absurd h (by simp)
  | some roots =>
  simp only [hmodify, Except.ok.injEq] at h
  subst h
  obtain ⟨hmovedId, hcutSplice⟩ := Tree.cut?_splice hcut
  obtain ⟨t, htid, hsplice⟩ := Tree.modifyIn?_splice hmodify
  exact ⟨moving, target, moved, rest, t, hself, rfl, by simpa using hcycle, rfl,
    by simpa using hleaf, hmovedId, hcutSplice, htid, hsplice, rfl⟩

theorem ungroup_ok {child : BlockId} (h : f.ungroup child = .ok g) :
    ∃ moved rest, child ∉ f.roots.map Tree.id ∧ moved.id = child ∧
      Tree.Splice [moved] [] f.roots rest ∧
      g.roots = rest ++ [moved.mapRoot (·.setParent none)] ∧ g.nextSerial = f.nextSerial := by
  unfold ungroup at h
  by_cases hroot : f.roots.any (·.id == child) = true
  · rw [if_pos hroot] at h
    exact absurd h (by simp)
  rw [if_neg hroot] at h
  cases hcut : Tree.cut? child f.roots with
  | none =>
      rw [hcut] at h
      exact absurd h (by simp)
  | some r =>
      obtain ⟨moved, rest⟩ := r
      simp only [hcut, Except.ok.injEq] at h
      subst h
      obtain ⟨htid, hsplice⟩ := Tree.cut?_splice hcut
      exact ⟨moved, rest, by simpa using hroot, htid, hsplice, rfl, rfl⟩

/-! ## Commands -/

/-- What a command can come to: it is refused, or it is one of the five edits, accepted. -/
inductive Applied (f : Forest) : Command → Outcome → Prop where
  | refused (c : Command) (r : Refusal) : Applied f c (.refused f r)
  | insert {name : String} {position : Position} {id : BlockId} {g : Forest}
      (h : f.insert name position = .ok (id, g)) :
      Applied f (.insert name position) ⟨g, true, some id, []⟩
  | update {id : BlockId} {p : Patch} {log : List LogEntry} {g : Forest}
      (h : f.update id p = .ok (log, g)) : Applied f (.update id p) ⟨g, true, none, log⟩
  | delete {id : BlockId} {g : Forest} (h : f.delete id = .ok g) :
      Applied f (.delete id) ⟨g, true, none, []⟩
  | group {parent child : BlockId} {g : Forest} (h : f.group parent child = .ok g) :
      Applied f (.group parent child) ⟨g, true, none, []⟩
  | ungroup {id : BlockId} {g : Forest} (h : f.ungroup id = .ok g) :
      Applied f (.ungroup id) ⟨g, true, none, []⟩

/-- Every command comes to one of these. -/
theorem applied_apply (f : Forest) (c : Command) : f.Applied c (f.apply c) := by
  cases c with
  | insert name position =>
      rw [apply]
      cases h : f.insert name position with
      | error r => exact .refused _ r
      | ok r => exact .insert h
  | update id p =>
      rw [apply]
      cases h : f.update id p with
      | error r => exact .refused _ r
      | ok r => exact .update h
  | delete id =>
      rw [apply]
      cases h : f.delete id with
      | error r => exact .refused _ r
      | ok g => exact .delete h
  | group parent child =>
      rw [apply]
      cases h : f.group parent child with
      | error r => exact .refused _ r
      | ok g => exact .group h
  | ungroup id =>
      rw [apply]
      cases h : f.ungroup id with
      | error r => exact .refused _ r
      | ok g => exact .ungroup h

end Forest

/-! ## The changed trees -/

theorem Block.id_patch (p : Patch) (b : Block) : (b.patch p).id = b.id := rfl

theorem Block.id_setParent (container : Option BlockId) (b : Block) :
    (b.setParent container).id = b.id := rfl

namespace Tree

@[simp] theorem id_node (b : Block) (us : List Tree) : (node b us).id = b.id := rfl

theorem idsAll_mapRoot {f : Block → Block} (hf : ∀ b, (f b).id = b.id) (t : Tree) :
    idsAll [t.mapRoot f] = idsAll [t] := by
  cases t with
  | node b us => rw [mapRoot, idsAll_cons, idsAll_cons, hf]

/-- Changing the root changes no other block. -/
theorem mem_blocksAll_mapRoot {f : Block → Block} {t : Tree} {b : Block}
    (h : b ∈ blocksAll [t.mapRoot f]) : b = f t.block ∨ b ∈ blocksAll [t] := by
  cases t with
  | node c us =>
      rw [mapRoot, blocksAll_cons, List.mem_cons] at h
      rw [blocksAll_cons, List.mem_cons]
      exact h.imp (fun h => h) Or.inr

theorem mem_blocksAll_addChild {t child : Tree} {b : Block} :
    b ∈ blocksAll [addChild child t] ↔ b ∈ blocksAll [t] ∨ b ∈ blocksAll [child] := by
  cases t with
  | node c us =>
      rw [addChild, blocksAll_cons, blocksAll_cons, blocksAll_append]
      simp [or_assoc]

end Tree

end Blockwork
