import Blockwork.Edit.Splice
import Blockwork.Proofs.Tree.Subtrees

/-!
# `Blockwork.Proofs.Tree.Splice`: what cutting and changing do to siblings

Cutting and changing search differently: changing goes depth first, cutting looks through a whole
list of siblings before it goes deeper. What they do where they stop is the same: somewhere in the
tree a run of siblings is replaced by another. `Splice` says that and nothing about the search, so
what follows from it holds whether or not ids are distinct.

## Contents
- `Splice`, the replacement of a run of siblings at any depth, with `Splice.symm`.
- `Splice.exists_preorderAll`, with `exists_blocksAll` and `exists_idsAll`: a splice of the trees is a
  splice of the walk.
- `cut?_splice` and `modifyIn?_splice`: cutting and changing are splices at the given id.
- `cut?_eq_none_iff` and `modifyIn?_eq_none_iff`: they fail exactly if the id is absent.
-/

namespace Blockwork.Tree

/-! ## Splices -/

/-- The second list of siblings is the first one with the run `old`, somewhere in it, replaced by
    `new`. -/
inductive Splice (old new : List Tree) : List Tree → List Tree → Prop where
  | here (after : List Tree) : Splice old new (old ++ after) (new ++ after)
  | next (t : Tree) {ts ts' : List Tree} : Splice old new ts ts' → Splice old new (t :: ts) (t :: ts')
  | inside (b : Block) (after : List Tree) {us us' : List Tree} :
      Splice old new us us' → Splice old new (node b us :: after) (node b us' :: after)

variable {old new ts ts' : List Tree}

/-- A splice is taken back by the splice the other way. -/
theorem Splice.symm (h : Splice old new ts ts') : Splice new old ts' ts := by
  induction h with
  | here after => exact .here after
  | next t _ ih => exact ih.next t
  | inside b after _ ih => exact ih.inside b after

/-- A walk over siblings starts at the depth of the siblings. -/
theorem depth_of_head?_preorderAll {depth : Nat} {ts : List Tree} {e : Nat × Block}
    (h : e ∈ (preorderAll depth ts).head?) : e.1 = depth := by
  cases ts with
  | nil => exact absurd h (by simp [preorderAll])
  | cons t ts =>
      cases t with
      | node b us =>
          rw [preorderAll_cons, List.head?_cons, Option.mem_some_iff] at h
          exact h ▸ rfl

/-- **A splice of the trees is a splice of the walk.** The two runs stand at the same place, and what
    follows them does not lie below that place. -/
theorem Splice.exists_preorderAll (h : Splice old new ts ts') (depth : Nat) :
    ∃ k before after,
      preorderAll depth ts = before ++ (preorderAll k old ++ after) ∧
      preorderAll depth ts' = before ++ (preorderAll k new ++ after) ∧
      depth ≤ k ∧ ∀ e ∈ after.head?, e.1 ≤ k := by
  induction h generalizing depth with
  | here rest =>
      refine ⟨depth, [], preorderAll depth rest, ?_, ?_, Nat.le_refl depth, ?_⟩
      · exact preorderAll_append depth old rest
      · exact preorderAll_append depth new rest
      · exact fun e he => Nat.le_of_eq (depth_of_head?_preorderAll he)
  | next t _ ih =>
      obtain ⟨k, before, after, hts, hts', hk, hafter⟩ := ih depth
      refine ⟨k, t.preorder depth ++ before, after, ?_, ?_, hk, hafter⟩
      · rw [preorderAll, hts, List.append_assoc]
      · rw [preorderAll, hts', List.append_assoc]
  | inside b rest _ ih =>
      obtain ⟨k, before, after, hus, hus', hk, hafter⟩ := ih (depth + 1)
      refine ⟨k, (depth, b) :: before, after ++ preorderAll depth rest, ?_, ?_,
        Nat.le_of_succ_le hk, ?_⟩
      · rw [preorderAll_cons, hus]
        simp only [List.append_assoc, List.cons_append]
      · rw [preorderAll_cons, hus']
        simp only [List.append_assoc, List.cons_append]
      · intro e he
        rw [List.head?_append, Option.mem_def, Option.or_eq_some_iff] at he
        rcases he with he | ⟨-, he⟩
        · exact hafter e he
        -- Nothing follows inside the block, so the next entry is a sibling of the block.
        · rw [depth_of_head?_preorderAll he]
          exact Nat.le_of_succ_le hk

theorem Splice.exists_blocksAll (h : Splice old new ts ts') :
    ∃ before after, blocksAll ts = before ++ (blocksAll old ++ after) ∧
      blocksAll ts' = before ++ (blocksAll new ++ after) := by
  obtain ⟨k, before, after, hts, hts', -, -⟩ := h.exists_preorderAll 0
  refine ⟨before.map Prod.snd, after.map Prod.snd, ?_, ?_⟩
  · rw [← map_snd_preorderAll 0, hts, List.map_append, List.map_append, map_snd_preorderAll]
  · rw [← map_snd_preorderAll 0, hts', List.map_append, List.map_append, map_snd_preorderAll]

theorem Splice.exists_idsAll (h : Splice old new ts ts') :
    ∃ before after, idsAll ts = before ++ (idsAll old ++ after) ∧
      idsAll ts' = before ++ (idsAll new ++ after) := by
  obtain ⟨before, after, hts, hts'⟩ := h.exists_blocksAll
  refine ⟨before.map Block.id, after.map Block.id, ?_, ?_⟩
  · rw [← map_id_blocksAll, hts, List.map_append, List.map_append, map_id_blocksAll]
  · rw [← map_id_blocksAll, hts', List.map_append, List.map_append, map_id_blocksAll]

/-- The trees that a splice takes out were subtrees. -/
theorem Splice.mem_subtreesAll (h : Splice old new ts ts') {t : Tree} (ht : t ∈ old) :
    t ∈ subtreesAll ts := by
  induction h with
  | here after =>
      rw [subtreesAll_append]
      exact List.mem_append_left _ (mem_subtreesAll_of_mem ht)
  | next u _ ih =>
      rw [subtreesAll]
      exact List.mem_append_right _ ih
  | inside b after _ ih =>
      rw [subtreesAll_cons]
      exact List.mem_cons_of_mem _ (List.mem_append_left _ ih)

/-! ## Cutting -/

variable {id : BlockId}

theorem cutHere?_splice {t : Tree} {rest : List Tree} (h : cutHere? id ts = some (t, rest)) :
    t.id = id ∧ Splice [t] [] ts rest := by
  induction ts generalizing rest with
  | nil => exact absurd h (by simp [cutHere?])
  | cons u ts ih =>
      rw [cutHere?] at h
      by_cases hid : u.id = id
      · rw [if_pos hid, Option.some.injEq, Prod.mk.injEq] at h
        obtain ⟨rfl, rfl⟩ := h
        exact ⟨hid, Splice.here ts⟩
      · rw [if_neg hid] at h
        obtain ⟨⟨found, others⟩, hcut, heq⟩ := Option.map_eq_some_iff.mp h
        rw [Prod.mk.injEq] at heq
        obtain ⟨rfl, rfl⟩ := heq
        obtain ⟨htid, hsplice⟩ := ih hcut
        exact ⟨htid, hsplice.next u⟩

/-- Cutting below a block is cutting among its children. -/
theorem cutInside?_node (b : Block) (us : List Tree) :
    cutInside? id (node b us) = (cut? id us).map fun r => (r.1, node b r.2) := by
  rw [cutInside?, cut?]
  cases cutHere? id us with
  | none => rfl
  | some r => rfl

theorem cut?_of_cutBelow? (below : ∀ {t rest}, cutBelow? id ts = some (t, rest) →
      t.id = id ∧ Splice [t] [] ts rest) {t : Tree} {rest : List Tree}
    (h : cut? id ts = some (t, rest)) : t.id = id ∧ Splice [t] [] ts rest := by
  rw [cut?] at h
  cases hhere : cutHere? id ts with
  | some r =>
      rw [hhere, Option.some.injEq] at h
      exact cutHere?_splice (h ▸ hhere)
  | none =>
      rw [hhere] at h
      exact below h

theorem cutBelow?_splice {t : Tree} {rest : List Tree} (h : cutBelow? id ts = some (t, rest)) :
    t.id = id ∧ Splice [t] [] ts rest := by
  induction ts using siblingInduction generalizing t rest with
  | nil => exact absurd h (by simp [cutBelow?])
  | cons b us ts ihUs ihTs =>
      rw [cutBelow?, cutInside?_node] at h
      cases hcut : cut? id us with
      | some r =>
          rw [hcut, Option.map_some, Option.some.injEq, Prod.mk.injEq] at h
          obtain ⟨rfl, rfl⟩ := h
          -- Below a block the search starts over with siblings, so it is a whole cut again.
          obtain ⟨htid, hsplice⟩ := cut?_of_cutBelow? ihUs hcut
          exact ⟨htid, hsplice.inside b ts⟩
      | none =>
          rw [hcut, Option.map_none] at h
          obtain ⟨⟨found, others⟩, hbelow, heq⟩ := Option.map_eq_some_iff.mp h
          rw [Prod.mk.injEq] at heq
          obtain ⟨rfl, rfl⟩ := heq
          obtain ⟨htid, hsplice⟩ := ihTs hbelow
          exact ⟨htid, hsplice.next (node b us)⟩

/-- **Cutting takes out one tree with the id, and nothing else.** -/
theorem cut?_splice {t : Tree} {rest : List Tree} (h : cut? id ts = some (t, rest)) :
    t.id = id ∧ Splice [t] [] ts rest :=
  cut?_of_cutBelow? cutBelow?_splice h

theorem cutHere?_eq_none (h : cutHere? id ts = none) : id ∉ ts.map Tree.id := by
  induction ts with
  | nil => simp
  | cons u ts ih =>
      rw [cutHere?] at h
      by_cases hid : u.id = id
      · rw [if_pos hid] at h
        exact absurd h (by simp)
      · rw [if_neg hid, Option.map_eq_none_iff] at h
        rw [List.map_cons, List.mem_cons, not_or]
        exact ⟨fun he => hid he.symm, ih h⟩

/-- An id that no cut below the siblings finds belongs to a sibling or is absent. -/
theorem mem_map_id_of_cutBelow?_eq_none (h : cutBelow? id ts = none) (hid : id ∈ idsAll ts) :
    id ∈ ts.map Tree.id := by
  induction ts using siblingInduction with
  | nil => exact absurd hid (by simp)
  | cons b us ts ihUs ihTs =>
      rw [cutBelow?, cutInside?_node] at h
      cases hcut : cut? id us with
      | some r =>
          rw [hcut, Option.map_some] at h
          exact absurd h (by simp)
      | none =>
          rw [hcut, Option.map_none, Option.map_eq_none_iff] at h
          rw [cut?] at hcut
          cases hhere : cutHere? id us with
          | some r =>
              rw [hhere] at hcut
              exact absurd hcut (by simp)
          | none =>
              rw [hhere] at hcut
              rw [idsAll_cons, List.mem_cons, List.mem_append] at hid
              rw [List.map_cons, List.mem_cons]
              rcases hid with hid | hid | hid
              · exact Or.inl hid
              -- The siblings inside were searched before anything below them.
              · exact absurd (ihUs hcut hid) (cutHere?_eq_none hhere)
              · exact Or.inr (ihTs h hid)

/-- Cutting fails exactly if the id is absent. -/
theorem cut?_eq_none_iff : cut? id ts = none ↔ id ∉ idsAll ts := by
  constructor
  · intro h hid
    rw [cut?] at h
    cases hhere : cutHere? id ts with
    | some r =>
        rw [hhere] at h
        exact absurd h (by simp)
    | none =>
        rw [hhere] at h
        exact cutHere?_eq_none hhere (mem_map_id_of_cutBelow?_eq_none h hid)
  · intro hid
    cases hcut : cut? id ts with
    | none => rfl
    | some r =>
        obtain ⟨htid, hsplice⟩ := cut?_splice hcut
        have hmem : r.1 ∈ subtreesAll ts := hsplice.mem_subtreesAll List.mem_cons_self
        exact absurd (htid ▸ List.mem_map_of_mem hmem) hid

/-! ## Changing -/

variable {f : Tree → Tree}

/-- **Changing replaces one tree with the id by what the function makes of it.** -/
theorem modifyIn?_splice (h : modifyIn? id f ts = some ts') :
    ∃ t, t.id = id ∧ Splice [t] [f t] ts ts' := by
  induction ts using siblingInduction generalizing ts' with
  | nil => exact absurd h (by simp [modifyIn?])
  | cons b us ts ihUs ihTs =>
      rw [modifyIn?, modify?] at h
      by_cases hid : b.id = id
      · rw [if_pos hid, Option.some.injEq] at h
        subst h
        exact ⟨node b us, hid, Splice.here ts⟩
      · rw [if_neg hid] at h
        cases hus : modifyIn? id f us with
        | some us' =>
            rw [hus, Option.map_some, Option.some.injEq] at h
            subst h
            obtain ⟨t, htid, hsplice⟩ := ihUs hus
            exact ⟨t, htid, hsplice.inside b ts⟩
        | none =>
            rw [hus, Option.map_none] at h
            obtain ⟨others, hts, rfl⟩ := Option.map_eq_some_iff.mp h
            obtain ⟨t, htid, hsplice⟩ := ihTs hts
            exact ⟨t, htid, hsplice.next (node b us)⟩

/-- Changing fails exactly if the id is absent. -/
theorem modifyIn?_eq_none_iff : modifyIn? id f ts = none ↔ id ∉ idsAll ts := by
  induction ts using siblingInduction with
  | nil => simp [modifyIn?]
  | cons b us ts ihUs ihTs =>
      rw [modifyIn?, modify?, idsAll_cons, List.mem_cons, List.mem_append, not_or, not_or, ← ihUs,
        ← ihTs]
      by_cases hid : b.id = id
      · simp [hid]
      · rw [if_neg hid]
        have hne : ¬id = b.id := fun he => hid he.symm
        cases modifyIn? id f us with
        | some us' => simp
        | none => simp [hne]

end Blockwork.Tree
