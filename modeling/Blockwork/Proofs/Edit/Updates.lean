import Blockwork.Proofs.Edit.Computed
import Blockwork.Proofs.Edit.Outline
import Blockwork.Proofs.Settings
import Blockwork.Proofs.Tree.Mapped

/-!
# `Blockwork.Proofs.Edit.Updates`: updates and the other edits do not get in each other's way

The edits that move or remove a block look at ids, at the shape and at the kinds of blocks, and they
write parents. A change of blocks that keeps ids and definitions and does not care for parents is
*superficial*: an edit made after it is the edit made before it, changed in the same way, whatever it
finds and whether or not it is accepted. An update is such a change, applied to all blocks and felt by
the one with its id, so nothing has to be said about where that block stands.

## Contents
- `Block.Updated`, what an update may make of a block, and `Block.updated_patch`.
- `Patch.andThen`, two patches in one, and `Block.patch_patch`.
- `Block.Superficial`, with `Forest.delete_mapBlocks`, `group_mapBlocks` and `ungroup_mapBlocks`.
- `Forest.after_mapBlocks`, for every edit of the shape.
- `Forest.update_laws`.
-/

namespace Blockwork

/-! ## Patches -/

/-- `p`, and where `q` gives something, `q` instead. -/
def Patch.andThen (p q : Patch) : Patch where
  parameters := p.parameters.override q.parameters.entries
  position := q.position.or p.position
  collapsed := q.collapsed.or p.collapsed

attribute [ext] Block

namespace Block

/-- What a patch makes of the block `b`: the position and the flag are those of the patch if it has
    some, a declared parameter has the value of the patch if that has one, and nothing else
    changes. -/
structure Updated (p : Patch) (b c : Block) : Prop where
  id : c.id = b.id
  definition : c.definition = b.definition
  parent : c.parent = b.parent
  position : c.position = p.position.getD b.position
  collapsed : c.collapsed = p.collapsed.getD b.collapsed
  declared : ∀ name, b.declares name = true →
    c.parameters.get? name = (p.parameters.get? name).or (b.parameters.get? name)
  undeclared : ∀ name, b.declares name = false →
    c.parameters.get? name = b.parameters.get? name

theorem get?_parameters_patch (b : Block) (p : Patch) (name : String) :
    (b.patch p).parameters.get? name =
      if b.declares name then (p.parameters.get? name).or (b.parameters.get? name)
      else b.parameters.get? name :=
  b.parameters.get?_override_filter p.parameters b.declares name

theorem updated_patch (b : Block) (p : Patch) : b.Updated p (b.patch p) where
  id := rfl
  definition := rfl
  parent := rfl
  position := rfl
  collapsed := rfl
  declared name h := by rw [get?_parameters_patch, if_pos h]
  undeclared name h := by rw [get?_parameters_patch, if_neg (by simp [h])]

/-- **Two patches in a row are one.** -/
theorem patch_patch (b : Block) (p q : Patch) : (b.patch p).patch q = b.patch (p.andThen q) := by
  have hparameters : ((b.patch p).patch q).parameters = (b.patch (p.andThen q)).parameters := by
    refine Settings.eq_of_get?_eq fun name => ?_
    have hdeclares : (b.patch p).declares name = b.declares name := rfl
    rw [get?_parameters_patch, get?_parameters_patch, get?_parameters_patch, hdeclares,
      Patch.andThen, Settings.get?_override_entries]
    by_cases h : b.declares name = true
    · rw [if_pos h, if_pos h, if_pos h, Option.or_assoc]
    · rw [if_neg h, if_neg h, if_neg h]
  have hposition : ((b.patch p).patch q).position = (b.patch (p.andThen q)).position := by
    show q.position.getD (p.position.getD b.position) = (q.position.or p.position).getD b.position
    rw [Option.getD_or]
  have hcollapsed : ((b.patch p).patch q).collapsed = (b.patch (p.andThen q)).collapsed := by
    show q.collapsed.getD (p.collapsed.getD b.collapsed) = (q.collapsed.or p.collapsed).getD b.collapsed
    rw [Option.getD_or]
  exact Block.ext rfl rfl hposition hparameters hcollapsed rfl

/-! ## Superficial changes -/

/-- A change of blocks that the edits of the shape cannot tell. -/
structure Superficial (u : Block → Block) : Prop where
  id : ∀ b, (u b).id = b.id
  definition : ∀ b, (u b).definition = b.definition
  setParent : ∀ container b, (u b).setParent container = u (b.setParent container)

theorem patchAt_superficial (id : BlockId) (p : Patch) : Superficial (patchAt id p) where
  id b := by
    unfold patchAt
    split <;> rfl
  definition b := by
    unfold patchAt
    split <;> rfl
  setParent container b := by
    unfold patchAt
    rw [id_setParent]
    split <;> rfl

/-- Patches at different ids do not meet. -/
theorem patchAt_comm {i j : BlockId} (h : i ≠ j) (p q : Patch) (b : Block) :
    patchAt i p (patchAt j q b) = patchAt j q (patchAt i p b) := by
  have hid : ∀ (k : BlockId) (r : Patch), (patchAt k r b).id = b.id :=
    fun k r => (patchAt_superficial k r).id b
  by_cases hi : b.id = i
  · have hj : b.id ≠ j := fun hj => h (hi.symm.trans hj)
    rw [patchAt, patchAt, if_neg hj, if_pos hi, patchAt, if_neg (hid i p ▸ hj), patchAt, if_pos hi]
  · rw [patchAt, if_neg (hid j q ▸ hi), patchAt, patchAt, patchAt, if_neg hi]

theorem patchAt_patchAt (id : BlockId) (p q : Patch) (b : Block) :
    patchAt id q (patchAt id p b) = patchAt id (p.andThen q) b := by
  by_cases h : b.id = id
  · have hpatched : (b.patch p).id = id := h
    rw [patchAt, patchAt, patchAt, if_pos h, if_pos hpatched, if_pos h, patch_patch]
  · rw [patchAt, patchAt, patchAt, if_neg h, if_neg h, if_neg h]

end Block

/-! ## Edits after a superficial change -/

namespace Tree

variable {u : Block → Block}

theorem addChild_map (child t : Tree) :
    addChild (child.map u) (t.map u) = (addChild child t).map u := by
  cases t with
  | node b us =>
      rw [map, addChild, addChild, map, mapAll_append, mapAll, mapAll]

section Superficial

variable (hu : Block.Superficial u)

include hu

theorem kind_map (t : Tree) : (t.map u).block.kind = t.block.kind := by
  cases t with
  | node b us => rw [map, block_node, Block.kind, hu.definition, block_node, Block.kind]

theorem contains_map (t : Tree) (id : BlockId) : (t.map u).contains id = t.contains id := by
  have hsubtrees : (t.map u).subtrees = t.subtrees.map (map u) := by
    rw [← subtreesAll_singleton, ← subtreesAll_singleton, ← subtreesAll_mapAll, mapAll, mapAll]
  have hids : t.subtrees.map (Tree.id ∘ map u) = t.subtrees.map Tree.id :=
    List.map_congr_left fun s _ => id_map hu.id s
  rw [Bool.eq_iff_iff, contains_iff, contains_iff, hsubtrees, List.map_map, hids]

theorem mapRoot_setParent_map (container : Option BlockId) (t : Tree) :
    (t.map u).mapRoot (·.setParent container) = (t.mapRoot (·.setParent container)).map u := by
  cases t with
  | node b us => rw [map, mapRoot, hu.setParent, mapRoot, map]

end Superficial

end Tree

namespace Forest

variable {f : Forest} {u : Block → Block}

section Superficial

variable (hu : Block.Superficial u) (f : Forest)

include hu

theorem find?_mapBlocks (id : BlockId) : (f.mapBlocks u).find? id = (f.find? id).map (Tree.map u) :=
  Tree.findAll?_mapAll hu.id

theorem any_roots_mapBlocks (id : BlockId) :
    (f.mapBlocks u).roots.any (·.id == id) = f.roots.any (·.id == id) := by
  rw [mapBlocks]
  induction f.roots with
  | nil => rfl
  | cons t ts ih => rw [Tree.mapAll, List.any_cons, List.any_cons, Tree.id_map hu.id, ih]

theorem delete_mapBlocks (id : BlockId) :
    (f.mapBlocks u).delete id = (f.delete id).map (mapBlocks u) := by
  rw [delete, delete, mapBlocks, Tree.cut?_mapAll hu.id]
  cases Tree.cut? id f.roots with
  | none => rfl
  | some r => rfl

theorem ungroup_mapBlocks (id : BlockId) :
    (f.mapBlocks u).ungroup id = (f.ungroup id).map (mapBlocks u) := by
  rw [ungroup, ungroup, any_roots_mapBlocks hu]
  by_cases hroot : f.roots.any (·.id == id) = true
  · rw [if_pos hroot, if_pos hroot]
    rfl
  rw [if_neg hroot, if_neg hroot, mapBlocks, Tree.cut?_mapAll hu.id]
  cases Tree.cut? id f.roots with
  | none => rfl
  | some r =>
      obtain ⟨moved, rest⟩ := r
      simp only [Option.map_some, Tree.mapRoot_setParent_map hu, Except.map, mapBlocks, Tree.mapAll_append,
        Tree.mapAll]

/-- Each check of a grouping asks for what a superficial change leaves. -/
theorem group_mapBlocks (parent child : BlockId) :
    (f.mapBlocks u).group parent child = (f.group parent child).map (mapBlocks u) := by
  rw [group, group, find?_mapBlocks hu, find?_mapBlocks hu]
  by_cases hself : parent = child
  · rw [if_pos hself, if_pos hself]
    rfl
  rw [if_neg hself, if_neg hself]
  cases f.find? child with
  | none => rfl
  | some moving =>
  simp only [Option.map_some, Tree.contains_map hu]
  by_cases hcycle : moving.contains parent = true
  · rw [if_pos hcycle, if_pos hcycle]
    rfl
  rw [if_neg hcycle, if_neg hcycle]
  cases f.find? parent with
  | none => rfl
  | some target =>
  have hown : (target.map u).block.canOwnChildren = target.block.canOwnChildren :=
    congrArg BlockKind.canOwnChildren (Tree.kind_map hu target)
  simp only [Option.map_some, hown, Tree.kind_map hu]
  by_cases hleaf : (!target.block.canOwnChildren) = true
  · rw [if_pos hleaf, if_pos hleaf]
    rfl
  rw [if_neg hleaf, if_neg hleaf, mapBlocks, Tree.cut?_mapAll hu.id]
  cases Tree.cut? child f.roots with
  | none => rfl
  | some r =>
  obtain ⟨moved, rest⟩ := r
  simp only [Option.map_some, Tree.mapRoot_setParent_map hu]
  rw [Tree.modifyIn?_mapAll hu.id (Tree.addChild_map _)]
  cases Tree.modifyIn? parent (Tree.addChild (moved.mapRoot (·.setParent (some parent)))) rest with
  | none => rfl
  | some roots => rfl

/-- **What an edit of the shape makes of changed blocks** is what it makes of the blocks, changed. -/
theorem after_mapBlocks {c : Command} (hc : c.Reshapes) :
    (f.mapBlocks u).after c = (f.after c).mapBlocks u := by
  have hresult : ∀ r : Except Refusal Forest,
      (Outcome.ofResult (f.mapBlocks u) (r.map (mapBlocks u))).forest
        = (Outcome.ofResult f r).forest.mapBlocks u := by
    intro r
    cases r with
    | error _ => rfl
    | ok _ => rfl
  cases hc with
  | delete id => rw [after, apply, delete_mapBlocks hu, hresult, after, apply]
  | group parent child => rw [after, apply, group_mapBlocks hu, hresult, after, apply]
  | ungroup id => rw [after, apply, ungroup_mapBlocks hu, hresult, after, apply]

end Superficial

theorem ids_mapBlocks (hu : ∀ b, (u b).id = b.id) (f : Forest) : (f.mapBlocks u).ids = f.ids := by
  rw [ids, mapBlocks, Tree.idsAll, Tree.subtreesAll_mapAll, List.map_map]
  exact List.map_congr_left fun t _ => Tree.id_map hu t

/-! ## Updates -/

/-- Updates may change places with edits of the shape. -/
theorem after_update_comm (hf : f.Sound) {c : Command} (hc : c.Reshapes) (a : BlockId) (p : Patch) :
    (f.after (.update a p)).after c = (f.after c).after (.update a p) := by
  rw [after_update hf.distinct, after_update (ids_after_nodup hf hc),
    after_mapBlocks (Block.patchAt_superficial a p) f hc]

/-- An update after an update, block by block. -/
theorem after_update_update (hf : f.ids.Nodup) (a b : BlockId) (p q : Patch) :
    (f.after (.update a p)).after (.update b q)
      = f.mapBlocks fun c => Block.patchAt b q (Block.patchAt a p c) := by
  have hids : (f.mapBlocks (Block.patchAt a p)).ids.Nodup :=
    (ids_mapBlocks (Block.patchAt_superficial a p).id f).symm ▸ hf
  rw [after_update hf, after_update hids, mapBlocks, mapBlocks, Tree.mapAll_mapAll, mapBlocks]

/-- **Updates are about one block and nothing else.** An update leaves the trees as they are with the
    one block changed as its patch says; it may change places with every deletion, grouping and
    ungrouping, accepted or not, and with every update of another block; two updates of one block
    are one. -/
theorem update_laws (hf : f.Valid) (a b parent child : BlockId) (p q : Patch) :
    (∃ u : Block → Block, f.after (.update a p) = ⟨Tree.mapAll u f.roots, f.nextSerial⟩ ∧
      (∀ c : Block, c.id = a → c.Updated p (u c)) ∧ ∀ c : Block, c.id ≠ a → u c = c) ∧
    ((f.after (.update a p)).after (.delete b) = (f.after (.delete b)).after (.update a p) ∧
      (f.after (.update a p)).after (.group parent child)
        = (f.after (.group parent child)).after (.update a p) ∧
      (f.after (.update a p)).after (.ungroup b) = (f.after (.ungroup b)).after (.update a p)) ∧
    (a ≠ b → (f.after (.update a p)).after (.update b q)
      = (f.after (.update b q)).after (.update a p)) ∧
    (f.after (.update a p)).after (.update a q) = f.after (.update a (p.andThen q)) := by
  have hsound : f.Sound := valid_iff_sound.mp hf
  refine ⟨⟨Block.patchAt a p, after_update hsound.distinct, ?_, ?_⟩, ⟨?_, ?_, ?_⟩, ?_, ?_⟩
  · intro c hid
    rw [Block.patchAt, if_pos hid]
    exact c.updated_patch p
  · exact fun c hid => if_neg hid
  · exact after_update_comm hsound (.delete b) a p
  · exact after_update_comm hsound (.group parent child) a p
  · exact after_update_comm hsound (.ungroup b) a p
  · intro hne
    rw [after_update_update hsound.distinct, after_update_update hsound.distinct]
    congr 1
    funext c
    exact Block.patchAt_comm hne.symm q p c
  · rw [after_update_update hsound.distinct, after_update hsound.distinct]
    congr 1
    funext c
    exact Block.patchAt_patchAt a p q c

/-- A new text for a statement; statements do not declare the second parameter. -/
def newMessage : Patch :=
  ⟨.ofList [("message", .text "Done"), ("colour", .text "red")], none, some true⟩

/-- A new condition for a loop, and its place. -/
def newCondition : Patch :=
  ⟨.ofList [("condition", .text "running")], some .origin, none⟩

/-- The statement is updated before and after the loop that holds it is deleted, moved and updated. -/
theorem update_laws_loops :
    let f := loopsAndStatements
    let g := f.after (.update "print-3" newMessage)
    f.Valid ∧ "print-3" ≠ "while-2" ∧
    g.blocks.map (fun b => (b.id, b.collapsed, b.parameters.get? "message"))
      = [("for-1", false, none), ("while-2", false, none), ("print-3", true, some (.text "Done")),
        ("for-4", false, none)] ∧
    g.after (.delete "while-2") = (f.after (.delete "while-2")).after (.update "print-3" newMessage) ∧
    (f.apply (.group "for-4" "while-2")).changed = true ∧
    g.after (.group "for-4" "while-2")
      = (f.after (.group "for-4" "while-2")).after (.update "print-3" newMessage) ∧
    g.after (.ungroup "while-2") = (f.after (.ungroup "while-2")).after (.update "print-3" newMessage) ∧
    g.after (.update "while-2" newCondition)
      = (f.after (.update "while-2" newCondition)).after (.update "print-3" newMessage) ∧
    g.after (.update "print-3" newCondition)
      = f.after (.update "print-3" (newMessage.andThen newCondition)) := by
  have hvalid : loopsAndStatements.Valid := by rfl
  have hne : "print-3" ≠ "while-2" := by decide
  obtain ⟨-, ⟨hdelete, hgroup, hungroup⟩, hupdate, htwice⟩ :=
    update_laws hvalid "print-3" "while-2" "for-4" "while-2" newMessage newCondition
  exact ⟨hvalid, hne, by rfl, hdelete, by rfl, hgroup, hungroup, hupdate hne, htwice⟩

end Forest

end Blockwork
