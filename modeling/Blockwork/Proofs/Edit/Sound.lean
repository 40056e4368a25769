import Blockwork.Proofs.Edit.Conserved
import Blockwork.Proofs.Forest.Allocation
import Blockwork.Proofs.Forest.Filled
import Blockwork.Proofs.Forest.Valid

/-!
# `Blockwork.Proofs.Edit.Sound`: edits keep forests well formed

A sound forest stays sound under every accepted edit, and a refused one changes nothing. Hanging is
kept because each edit is a splice that keeps to the rules where it cuts and where it puts. Ids stay
distinct because only insertion brings one, and that one is new; the others permute the ids or take
some away. Filled blocks stay filled without any of this.

## Contents
- `Forest.ids_insert`, `ids_update`, `ids_delete`, `ids_group`, `ids_ungroup`: where ids go.
- `Forest.Sound.insert` and its four companions, and `Forest.Sound.apply` for every command.
- `Forest.Filled.apply` and `Forest.apply_nextSerial_ne_zero`.
-/

namespace Blockwork

/-! ## What splices do to ids and blocks -/

namespace Tree

variable {old new ts ts' : List Tree} {container : Option BlockId}

/-- A cut takes the ids of the tree with it and leaves the others. -/
theorem Splice.perm_idsAll_cut {t : Tree} {rest : List Tree} (h : Splice [t] [] ts rest) :
    (idsAll ts).Perm (idsAll rest ++ idsAll [t]) := by
  have hperm := h.perm_contentsAll.map Prod.fst
  rwa [contentsAll_nil, List.append_nil, List.map_append, map_fst_contentsAll, map_fst_contentsAll,
    map_fst_contentsAll] at hperm

theorem Splice.mem_blocksAll (h : Splice old new ts ts') {b : Block} (hb : b ∈ blocksAll ts') :
    b ∈ blocksAll ts ∨ b ∈ blocksAll new := by
  obtain ⟨before, after, hts, hts'⟩ := h.exists_blocksAll
  rw [hts'] at hb
  rw [hts]
  simp only [List.mem_append] at hb ⊢
  rcases hb with hb | hb | hb
  · exact Or.inl (Or.inl hb)
  · exact Or.inr hb
  · exact Or.inl (Or.inr (Or.inr hb))

/-- The blocks that a splice takes out were there. -/
theorem Splice.subset_blocksAll (h : Splice old new ts ts') {b : Block} (hb : b ∈ blocksAll old) :
    b ∈ blocksAll ts := by
  obtain ⟨before, after, hts, -⟩ := h.exists_blocksAll
  rw [hts]
  exact List.mem_append_right _ (List.mem_append_left _ hb)

theorem mem_blocksAll_of_mem {t : Tree} (h : t ∈ subtreesAll ts) : t.block ∈ blocksAll ts :=
  List.mem_map_of_mem h

theorem hangs_mapRoot_setParent {t : Tree} (h : Hangs container t) (c : Option BlockId) :
    Hangs c (t.mapRoot (·.setParent c)) := by
  cases t with
  | node b us =>
      rw [Hangs] at h
      rw [mapRoot, Hangs]
      exact ⟨rfl, h.2⟩

theorem hangs_mapRoot_patch {t : Tree} (h : Hangs container t) (p : Patch) :
    Hangs container (t.mapRoot (·.patch p)) := by
  cases t with
  | node b us =>
      rw [Hangs] at h
      rw [mapRoot, Hangs]
      exact h

theorem hangs_addChild {t child : Tree} (h : Hangs container t)
    (hown : t.block.canOwnChildren = true) (hchild : Hangs (some t.id) child) :
    Hangs container (addChild child t) := by
  cases t with
  | node b us =>
      rw [Hangs] at h
      rw [addChild, Hangs, hangsAll_append, hangsAll_singleton]
      exact ⟨h.1, fun _ => hown, h.2.2, hchild⟩

end Tree

namespace Forest

variable {f g : Forest}

/-! ## Where ids go -/

theorem ids_insert {name : String} {position : Position} {id : BlockId}
    (h : f.insert name position = .ok (id, g)) : g.ids = f.ids ++ [id] := by
  obtain ⟨e, -, rfl, hroots, -⟩ := insert_ok h
  unfold ids
  rw [hroots, Tree.idsAll_append, Tree.idsAll_cons, Tree.idsAll_nil]
  rfl

theorem ids_update {id : BlockId} {p : Patch} {log : List LogEntry}
    (h : f.update id p = .ok (log, g)) : g.ids = f.ids := by
  obtain ⟨found, t, -, -, -, hsplice, -⟩ := update_ok h
  obtain ⟨before, after, hf, hg⟩ := hsplice.exists_idsAll
  unfold ids
  rw [hf, hg, Tree.idsAll_mapRoot (Block.id_patch p)]

theorem ids_delete {id : BlockId} (h : f.delete id = .ok g) : g.ids.Sublist f.ids := by
  obtain ⟨t, -, hsplice, -⟩ := delete_ok h
  obtain ⟨before, after, hf, hg⟩ := hsplice.exists_idsAll
  unfold ids
  rw [hf, hg, Tree.idsAll_nil, List.nil_append]
  exact (List.sublist_append_right _ _).append_left _

theorem ids_group {parent child : BlockId} (h : f.group parent child = .ok g) :
    g.ids.Perm f.ids := by
  rw [← map_fst_contents, ← map_fst_contents]
  exact (contents_group h).map Prod.fst

theorem ids_ungroup {child : BlockId} (h : f.ungroup child = .ok g) : g.ids.Perm f.ids := by
  rw [← map_fst_contents, ← map_fst_contents]
  exact (contents_ungroup h).map Prod.fst

/-! ## Soundness -/

/-- Where ids are distinct, blocks with the same id are the same block. -/
theorem block_eq_of_id_eq (hf : f.ids.Nodup) {b c : Block} (hb : b ∈ f.blocks) (hc : c ∈ f.blocks)
    (h : b.id = c.id) : b = c := by
  rw [← map_id_blocks] at hf
  exact List.inj_on_of_nodup_map hf hb hc h

/-- Where ids are distinct, what was cut out is what a search finds. -/
theorem find?_of_cut (hf : f.ids.Nodup) {t : Tree} {rest : List Tree}
    (hcut : Tree.Splice [t] [] f.roots rest) : f.find? t.id = some t :=
  (Tree.findAll?_eq_some_iff hf).mpr ⟨hcut.mem_subtreesAll List.mem_cons_self, rfl⟩

theorem Sound.insert (hf : f.Sound) (hserial : f.nextSerial ≠ 0) (hsize : f.size < 2 ^ 64 - 1)
    {name : String} {position : Position} {id : BlockId}
    (h : f.insert name position = .ok (id, g)) : g.Sound := by
  have hids := ids_insert h
  obtain ⟨e, -, hid, hroots, -⟩ := insert_ok h
  refine ⟨?_, ?_⟩
  · rw [hroots, Tree.hangsAll_append, Tree.hangsAll_singleton, Tree.Hangs]
    exact ⟨hf.hangs, rfl, fun hne => absurd rfl hne, trivial⟩
  · have hnew : id ∉ f.ids := hid ▸ allocate_notMem name hserial hsize
    rw [hids, ← List.concat_eq_append]
    exact hf.distinct.concat hnew

theorem Sound.update (hf : f.Sound) {id : BlockId} {p : Patch} {log : List LogEntry}
    (h : f.update id p = .ok (log, g)) : g.Sound := by
  have hids := ids_update h
  obtain ⟨found, t, -, -, -, hsplice, -⟩ := update_ok h
  refine ⟨?_, hids ▸ hf.distinct⟩
  refine hsplice.hangsAll (fun _ => List.cons_ne_nil _ _) ?_ hf.hangs
  intro c ht
  rw [Tree.hangsAll_singleton] at ht ⊢
  exact Tree.hangs_mapRoot_patch ht p

theorem Sound.delete (hf : f.Sound) {id : BlockId} (h : f.delete id = .ok g) : g.Sound := by
  have hids := ids_delete h
  obtain ⟨t, -, hsplice, -⟩ := delete_ok h
  refine ⟨?_, hids.nodup hf.distinct⟩
  exact hsplice.hangsAll (fun hne => absurd rfl hne) (fun _ _ => trivial) hf.hangs

/-- The parent that a group changes is the block that its check looked at. -/
theorem block_eq_of_find?_of_cut (hf : f.ids.Nodup) {parent : BlockId} {target moved t : Tree}
    {rest : List Tree} (htarget : f.find? parent = some target)
    (hcut : Tree.Splice [moved] [] f.roots rest) (htid : t.id = parent)
    (ht : t ∈ Tree.subtreesAll rest) : t.block = target.block := by
  obtain ⟨hmem, hid⟩ := Tree.mem_of_findAll?_eq_some htarget
  have htblock : t.block ∈ f.blocks := by
    rcases hcut.mem_blocksAll (Tree.mem_blocksAll_of_mem ht) with h | h
    · exact h
    · exact absurd h (by simp)
  exact block_eq_of_id_eq hf htblock (Tree.mem_blocksAll_of_mem hmem) (htid.trans hid.symm)

theorem Sound.group (hf : f.Sound) {parent child : BlockId} (h : f.group parent child = .ok g) :
    g.Sound := by
  have hids := ids_group h
  obtain ⟨moving, target, moved, rest, t, -, -, -, htarget, hown, -, hcut, htid, hput, -⟩ :=
    group_ok h
  refine ⟨?_, hids.nodup_iff.mpr hf.distinct⟩
  have hrest : Tree.HangsAll none rest :=
    hcut.hangsAll (fun hne => absurd rfl hne) (fun _ _ => trivial) hf.hangs
  obtain ⟨c, hmoved⟩ := hcut.exists_hangsAll hf.hangs
  -- The block that gets a child is the one whose kind was checked before the cut.
  have hblock : t.block = target.block :=
    block_eq_of_find?_of_cut hf.distinct htarget hcut htid
      (hput.mem_subtreesAll List.mem_cons_self)
  refine hput.hangsAll (fun _ => List.cons_ne_nil _ _) ?_ hrest
  intro d ht
  rw [Tree.hangsAll_singleton] at hmoved ht ⊢
  refine Tree.hangs_addChild ht (hblock ▸ hown) ?_
  rw [htid]
  exact Tree.hangs_mapRoot_setParent hmoved _

theorem Sound.ungroup (hf : f.Sound) {child : BlockId} (h : f.ungroup child = .ok g) :
    g.Sound := by
  have hids := ids_ungroup h
  obtain ⟨moved, rest, -, -, hcut, hroots, -⟩ := ungroup_ok h
  refine ⟨?_, hids.nodup_iff.mpr hf.distinct⟩
  obtain ⟨c, hmoved⟩ := hcut.exists_hangsAll hf.hangs
  rw [Tree.hangsAll_singleton] at hmoved
  rw [hroots, Tree.hangsAll_append, Tree.hangsAll_singleton]
  refine ⟨?_, Tree.hangs_mapRoot_setParent hmoved _⟩
  exact hcut.hangsAll (fun hne => absurd rfl hne) (fun _ _ => trivial) hf.hangs

/-! ## Filled blocks -/

theorem Filled.insert (hf : f.Filled) {name : String} {position : Position} {id : BlockId}
    (h : f.insert name position = .ok (id, g)) : g.Filled := by
  obtain ⟨e, -, -, hroots, -⟩ := insert_ok h
  intro b hb
  unfold blocks at hb
  rw [hroots, Tree.blocksAll_append, List.mem_append] at hb
  rcases hb with hb | hb
  · exact hf b hb
  · rw [Tree.blocksAll_cons, Tree.blocksAll_nil, List.append_nil, List.mem_singleton] at hb
    rw [hb]
    exact Block.fill_filled _

theorem Filled.update (hf : f.Filled) {id : BlockId} {p : Patch} {log : List LogEntry}
    (h : f.update id p = .ok (log, g)) : g.Filled := by
  obtain ⟨found, t, -, -, -, hsplice, -⟩ := update_ok h
  intro b hb
  rcases hsplice.mem_blocksAll hb with hb | hb
  · exact hf b hb
  · rcases Tree.mem_blocksAll_mapRoot hb with rfl | hb
    · exact (hf t.block (Tree.mem_blocksAll_of_mem
        (hsplice.mem_subtreesAll List.mem_cons_self))).patch p
    · exact hf b (hsplice.subset_blocksAll hb)

theorem Filled.delete (hf : f.Filled) {id : BlockId} (h : f.delete id = .ok g) : g.Filled := by
  obtain ⟨t, -, hsplice, -⟩ := delete_ok h
  intro b hb
  rcases hsplice.mem_blocksAll hb with hb | hb
  · exact hf b hb
  · exact absurd hb (by simp)

/-- The blocks of a tree that was cut out stay filled when its root gets another parent. -/
theorem Filled.moved (hf : f.Filled) {moved : Tree} {rest : List Tree}
    (hcut : Tree.Splice [moved] [] f.roots rest) (container : Option BlockId) {b : Block}
    (hb : b ∈ Tree.blocksAll [moved.mapRoot (·.setParent container)]) : b.Filled := by
  rcases Tree.mem_blocksAll_mapRoot hb with rfl | hb
  · exact hf moved.block (Tree.mem_blocksAll_of_mem (hcut.mem_subtreesAll List.mem_cons_self))
  · exact hf b (hcut.subset_blocksAll hb)

theorem Filled.group (hf : f.Filled) {parent child : BlockId} (h : f.group parent child = .ok g) :
    g.Filled := by
  obtain ⟨-, -, moved, rest, t, -, -, -, -, -, -, hcut, -, hput, -⟩ := group_ok h
  have hrest : ∀ b ∈ Tree.blocksAll rest, b.Filled := by
    intro b hb
    rcases hcut.mem_blocksAll hb with hb | hb
    · exact hf b hb
    · exact absurd hb (by simp)
  intro b hb
  rcases hput.mem_blocksAll hb with hb | hb
  · exact hrest b hb
  · rcases Tree.mem_blocksAll_addChild.mp hb with hb | hb
    · exact hrest b (hput.subset_blocksAll hb)
    · exact hf.moved hcut _ hb

theorem Filled.ungroup (hf : f.Filled) {child : BlockId} (h : f.ungroup child = .ok g) :
    g.Filled := by
  obtain ⟨moved, rest, -, -, hcut, hroots, -⟩ := ungroup_ok h
  intro b hb
  unfold blocks at hb
  rw [hroots, Tree.blocksAll_append, List.mem_append] at hb
  rcases hb with hb | hb
  · rcases hcut.mem_blocksAll hb with hb | hb
    · exact hf b hb
    · exact absurd hb (by simp)
  · exact hf.moved hcut _ hb

/-! ## Commands -/

/-- **A command keeps a forest sound.** Only insertion needs room among the serials. -/
theorem Sound.apply (hf : f.Sound) (hserial : f.nextSerial ≠ 0) (hsize : f.size < 2 ^ 64 - 1)
    (c : Command) : (f.apply c).forest.Sound := by
  have h := f.applied_apply c
  generalize f.apply c = o at h
  cases h with
  | refused r => exact hf
  | insert h => exact hf.insert hserial hsize h
  | update h => exact hf.update h
  | delete h => exact hf.delete h
  | group h => exact hf.group h
  | ungroup h => exact hf.ungroup h

/-- **A command keeps blocks filled.** -/
theorem Filled.apply (hf : f.Filled) (c : Command) : (f.apply c).forest.Filled := by
  have h := f.applied_apply c
  generalize f.apply c = o at h
  cases h with
  | refused r => exact hf
  | insert h => exact hf.insert h
  | update h => exact hf.update h
  | delete h => exact hf.delete h
  | group h => exact hf.group h
  | ungroup h => exact hf.ungroup h

/-- Insertion counts on; the other edits leave the counter alone. -/
theorem apply_nextSerial_ne_zero (hf : f.nextSerial ≠ 0) (c : Command) :
    (f.apply c).forest.nextSerial ≠ 0 := by
  have h := f.applied_apply c
  generalize f.apply c = o at h
  cases h with
  | refused r => exact hf
  | insert h =>
      obtain ⟨e, -, -, -, hserial⟩ := insert_ok h
      rw [hserial]
      exact Serial.nextSerial_ne_zero
  | update h =>
      obtain ⟨-, -, -, -, -, -, hserial⟩ := update_ok h
      exact hserial ▸ hf
  | delete h =>
      obtain ⟨-, -, -, hserial⟩ := delete_ok h
      exact hserial ▸ hf
  | group h =>
      obtain ⟨-, -, -, -, -, -, -, -, -, -, -, -, -, -, hserial⟩ := group_ok h
      exact hserial ▸ hf
  | ungroup h =>
      obtain ⟨-, -, -, -, -, -, hserial⟩ := ungroup_ok h
      exact hserial ▸ hf

end Forest

end Blockwork
