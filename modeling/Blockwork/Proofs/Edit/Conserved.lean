import Blockwork.Proofs.Edit.Accepted
import Mathlib.Data.List.Perm.Basic

/-!
# `Blockwork.Proofs.Edit.Conserved`: edits of the shape lose nothing, whatever the forest

Nothing is assumed of the forest here. Where an id occurs twice the searches of one edit may stop at
different blocks: grouping tests the first block that the walk meets and moves the first one that the
cut meets. Blocks are still neither lost nor copied, since all that an edit does is splices, and a
splice takes out exactly one run of trees and puts in exactly one other. Moving is two splices, and
what the first takes out the second puts in, up to the parent that its root names.

## Contents
- `Block.content`, a block without the parent that it names.
- `Tree.contentsAll`, with `Splice.perm_contentsAll`: a splice exchanges the contents of two runs.
- `Forest.contents_group` and `contents_ungroup`, and `Forest.walk_of_delete`.
- `Forest.edits_conserve`.
-/

namespace Blockwork

/-- What belongs to a block wherever it hangs: everything but the parent that it names. -/
def Block.content (b : Block) : BlockId × Entry × Position × Settings × Bool :=
  (b.id, b.definition, b.position, b.parameters, b.collapsed)

namespace Tree

/-! ## What splices do to contents -/

/-- The contents of the blocks inside a list of siblings. -/
def contentsAll (ts : List Tree) : List (BlockId × Entry × Position × Settings × Bool) :=
  (blocksAll ts).map Block.content

theorem contentsAll_nil : contentsAll [] = [] := by
  rw [contentsAll, blocksAll_nil, List.map_nil]

theorem contentsAll_append (ts us : List Tree) :
    contentsAll (ts ++ us) = contentsAll ts ++ contentsAll us := by
  rw [contentsAll, blocksAll_append, List.map_append]
  rfl

theorem map_fst_contentsAll (ts : List Tree) : (contentsAll ts).map Prod.fst = idsAll ts := by
  rw [← map_id_blocksAll, contentsAll, List.map_map]
  rfl

/-- Naming another parent leaves the content alone. -/
theorem contentsAll_mapRoot_setParent (container : Option BlockId) (t : Tree) :
    contentsAll [t.mapRoot (·.setParent container)] = contentsAll [t] := by
  cases t with
  | node b us =>
      rw [mapRoot, contentsAll, contentsAll, blocksAll_cons, blocksAll_cons]
      rfl

theorem contentsAll_addChild (t child : Tree) :
    contentsAll [addChild child t] = contentsAll [t] ++ contentsAll [child] := by
  cases t with
  | node b us => simp [addChild, contentsAll]

variable {old new ts ts' : List Tree}

/-- **A splice exchanges the contents of one run for those of the other.** -/
theorem Splice.perm_contentsAll (h : Splice old new ts ts') :
    (contentsAll ts ++ contentsAll new).Perm (contentsAll ts' ++ contentsAll old) := by
  obtain ⟨before, after, hts, hts'⟩ := h.exists_blocksAll
  simp only [contentsAll, hts, hts', List.map_append]
  rw [List.perm_iff_count]
  intro content
  simp only [List.count_append]
  omega

end Tree

namespace Forest

variable {f g : Forest}

/-- The contents of all blocks, in the order of the walk. -/
def contents (f : Forest) : List (BlockId × Entry × Position × Settings × Bool) :=
  f.blocks.map Block.content

theorem map_fst_contents (f : Forest) : f.contents.map Prod.fst = f.ids :=
  Tree.map_fst_contentsAll f.roots

/-! ## Edits -/

/-- **Grouping keeps the contents**, whichever blocks its searches meet. -/
theorem contents_group {parent child : BlockId} (h : f.group parent child = .ok g) :
    g.contents.Perm f.contents := by
  obtain ⟨-, -, moved, rest, t, -, -, -, -, -, -, hcut, -, hput, -⟩ := group_ok h
  have hcutContents := hcut.perm_contentsAll
  have hputContents := hput.perm_contentsAll
  rw [Tree.contentsAll_addChild, Tree.contentsAll_mapRoot_setParent] at hputContents
  -- What the cut took out comes back with the put: both are counted for one content.
  rw [List.perm_iff_count] at hcutContents hputContents ⊢
  intro content
  have hcutCount := hcutContents content
  have hputCount := hputContents content
  simp only [Tree.contentsAll_nil, List.append_nil, List.count_append] at hcutCount hputCount
  show (Tree.contentsAll g.roots).count content = (Tree.contentsAll f.roots).count content
  omega

theorem contents_ungroup {child : BlockId} (h : f.ungroup child = .ok g) :
    g.contents.Perm f.contents := by
  obtain ⟨moved, rest, -, -, hcut, hroots, -⟩ := ungroup_ok h
  have hcutContents := hcut.perm_contentsAll
  rw [Tree.contentsAll_nil, List.append_nil] at hcutContents
  show (Tree.contentsAll g.roots).Perm (Tree.contentsAll f.roots)
  rw [hroots, Tree.contentsAll_append, Tree.contentsAll_mapRoot_setParent]
  exact hcutContents.symm

/-- **Deleting takes one tree out of the walk**, at one place, and nothing else. -/
theorem walk_of_delete {id : BlockId} (h : f.delete id = .ok g) :
    ∃ t depth before after, t.id = id ∧ Tree.Splice [t] [] f.roots g.roots ∧
      f.walk = before ++ (t.preorder depth ++ after) ∧ g.walk = before ++ after := by
  obtain ⟨t, htid, hcut, -⟩ := delete_ok h
  obtain ⟨depth, before, after, hf, hg, -, -⟩ := hcut.exists_preorderAll 0
  rw [Tree.preorderAll_singleton] at hf
  exact ⟨t, depth, before, after, htid, hcut, f.walk_eq_preorder.trans hf,
    g.walk_eq_preorder.trans hg⟩

theorem delete_eq_error_iff {id : BlockId} :
    (∃ r, f.delete id = .error r) ↔ ∀ e ∈ f.walk, e.2.id ≠ id := by
  have habsent : (∀ e ∈ f.walk, e.2.id ≠ id) ↔ id ∉ f.ids := by
    rw [← map_id_walk]
    simp
  rw [habsent, ids, ← Tree.cut?_eq_none_iff, delete]
  cases Tree.cut? id f.roots with
  | none => simp
  | some r => simp

/-- A refused command leaves the forest as it is. -/
theorem forest_of_not_changed {c : Command} (h : (f.apply c).changed = false) :
    (f.apply c).forest = f := by
  have happlied := f.applied_apply c
  generalize f.apply c = o at h happlied
  cases happlied with
  | refused r => rfl
  | insert _ => cases h
  | update _ => cases h
  | delete _ => cases h
  | group _ => cases h
  | ungroup _ => cases h

/-- **Edits of the shape conserve blocks in every forest**, ids that occur twice, wrong parents and
    children below leaves included. A move keeps the contents of all blocks; a deletion takes one tree
    with the id out of its place and leaves the rest in order; it fails only if no block has the id;
    and what is refused changes nothing. -/
theorem edits_conserve (f : Forest) (id : BlockId) :
    (∀ parent g, f.group parent id = .ok g →
      g.contents.Perm f.contents ∧ g.nextSerial = f.nextSerial) ∧
    (∀ g, f.ungroup id = .ok g → g.contents.Perm f.contents ∧ g.nextSerial = f.nextSerial) ∧
    (∀ g, f.delete id = .ok g → g.nextSerial = f.nextSerial ∧
      ∃ t depth before after, t.id = id ∧ Tree.Splice [t] [] f.roots g.roots ∧
        f.walk = before ++ (t.preorder depth ++ after) ∧ g.walk = before ++ after) ∧
    ((∃ r, f.delete id = .error r) ↔ ∀ e ∈ f.walk, e.2.id ≠ id) ∧
    (∀ c : Command, (f.apply c).changed = false → (f.apply c).forest = f) := by
  refine ⟨?_, ?_, ?_, delete_eq_error_iff, fun c => forest_of_not_changed⟩
  · intro parent g h
    obtain ⟨-, -, -, -, -, -, -, -, -, -, -, -, -, -, hserial⟩ := group_ok h
    exact ⟨contents_group h, hserial⟩
  · intro g h
    obtain ⟨-, -, -, -, -, -, hserial⟩ := ungroup_ok h
    exact ⟨contents_ungroup h, hserial⟩
  · intro g h
    obtain ⟨-, -, -, hserial⟩ := delete_ok h
    exact ⟨hserial, walk_of_delete h⟩

/-- A new block that claims to be inside `parent`. -/
def strayBlock (id : BlockId) (name : String) (parent : Option BlockId) : Block :=
  (Block.fresh id ((Catalog.lookup name).getD Catalog.comment) .origin).setParent parent

/-- Two blocks with one id: a loop inside a loop, and after them a statement that holds another loop.
    The parents that they name are wrong. -/
def muddled : Forest :=
  ⟨[.node (strayBlock "outer" "for" (some "nobody"))
      [.node (strayBlock "twice" "while" none) []],
    .node (strayBlock "twice" "print" none)
      [.node (strayBlock "inner" "for" (some "outer")) []]], 1⟩

/-- Grouping looks at the loop with the id that occurs twice and moves the statement; if it is to go
    into what the statement holds, the parent is lost with it and the edit is refused. -/
theorem edits_conserve_muddled :
    let f := muddled
    (f.find? "twice").map (·.block.kind) = some .control ∧
    (∃ g, f.group "outer" "twice" = .ok g ∧
      (g.find? "outer").map (·.children.map (·.block.kind)) = some [.control, .output] ∧
      g.contents.Perm f.contents) ∧
    (∃ g, f.ungroup "inner" = .ok g ∧ g.contents.Perm f.contents) ∧
    (∃ g, f.delete "twice" = .ok g ∧ ∃ t depth before after, t.id = "twice" ∧
      Tree.Splice [t] [] f.roots g.roots ∧ f.walk = before ++ (t.preorder depth ++ after) ∧
      g.walk = before ++ after) ∧
    f.group "inner" "twice" = .error (.groupLostParent "inner") ∧
    (f.apply (.group "inner" "twice")).forest = f := by
  have hgrouped : muddled.group "outer" "twice"
      = .ok (muddled.apply (.group "outer" "twice")).forest := by rfl
  have hungrouped : muddled.ungroup "inner" = .ok (muddled.apply (.ungroup "inner")).forest := by rfl
  have hdeleted : muddled.delete "twice" = .ok (muddled.apply (.delete "twice")).forest := by rfl
  obtain ⟨hgroup, -, hdelete, -, hrefused⟩ := edits_conserve muddled "twice"
  obtain ⟨-, hungroup, -⟩ := edits_conserve muddled "inner"
  exact ⟨by rfl, ⟨_, hgrouped, by rfl, (hgroup _ _ hgrouped).1⟩,
    ⟨_, hungrouped, (hungroup _ hungrouped).1⟩, ⟨_, hdeleted, (hdelete _ hdeleted).2⟩, by rfl,
    hrefused _ (by rfl)⟩

end Forest

end Blockwork
