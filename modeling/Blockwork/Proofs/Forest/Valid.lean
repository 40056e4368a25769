import Blockwork.Forest.Valid
import Blockwork.Proofs.Forest.Walk
import Blockwork.Proofs.Tree.Splice

/-!
# `Blockwork.Proofs.Forest.Valid`: what the check decides

The check walks the blocks with the ids seen so far and stops at the first violation. What it
accepts is said here without a walk: `Tree.HangsAll` is the part that looks at one block and its
container at a time, and next to it ids have to be distinct. Edits are followed through this form.

## Contents
- `Tree.HangsAll`, with its reading over all subtrees, `Tree.hangsAll_iff`.
- `Tree.Splice.hangsAll`: a splice that keeps to the rules locally keeps to them everywhere.
- `Tree.checkAll_cons`, one step of the check, and `Tree.checkAll_eq_ok_iff`.
- `Forest.Sound` and `Forest.valid_iff_sound`.
- `Forest.Sound.eq_of_mem_children`, `Forest.Sound.mem_below_of_child`: a block has one place.
-/

namespace Blockwork

namespace Tree

/-! ## Hanging -/

mutual

/-- The root names `container` as its parent, and below it every block names the block that holds it
    and only blocks that may hold others do. -/
def Hangs (container : Option BlockId) : Tree → Prop
  | node b us => b.parent = container ∧ (us ≠ [] → b.canOwnChildren = true) ∧ HangsAll (some b.id) us

/-- All siblings hang in `container`. -/
def HangsAll (container : Option BlockId) : List Tree → Prop
  | [] => True
  | t :: ts => Hangs container t ∧ HangsAll container ts

end

variable {container : Option BlockId} {old new ts ts' : List Tree}

theorem hangsAll_cons {b : Block} {us : List Tree} :
    HangsAll container (node b us :: ts) ↔
      b.parent = container ∧ (us ≠ [] → b.canOwnChildren = true) ∧ HangsAll (some b.id) us ∧
        HangsAll container ts := by
  rw [HangsAll, Hangs, and_assoc, and_assoc]

theorem hangsAll_append {us : List Tree} :
    HangsAll container (ts ++ us) ↔ HangsAll container ts ∧ HangsAll container us := by
  induction ts with
  | nil => simp [HangsAll]
  | cons t ts ih => rw [List.cons_append, HangsAll, HangsAll, ih, and_assoc]

theorem hangsAll_singleton {t : Tree} : HangsAll container [t] ↔ Hangs container t := by
  rw [HangsAll, HangsAll, and_true]

/-- **Hanging, read over all subtrees.** The siblings name the container, children name the block
    that holds them, and a block with children may have some. -/
theorem hangsAll_iff :
    HangsAll container ts ↔
      (∀ t ∈ ts, t.block.parent = container) ∧
      (∀ t ∈ subtreesAll ts, ∀ u ∈ t.children, u.block.parent = some t.id) ∧
      (∀ t ∈ subtreesAll ts, t.children ≠ [] → t.block.canOwnChildren = true) := by
  induction ts using siblingInduction generalizing container with
  | nil => simp [HangsAll, subtreesAll]
  | cons b us ts ihUs ihTs =>
      rw [hangsAll_cons, ihUs, ihTs, subtreesAll_cons]
      simp only [List.forall_mem_cons, List.forall_mem_append, block_node, children_node]
      constructor
      · rintro ⟨hb, hown, ⟨hus, husPar, husOwn⟩, hts, htsPar, htsOwn⟩
        exact ⟨⟨hb, hts⟩, ⟨hus, husPar, htsPar⟩, hown, husOwn, htsOwn⟩
      · rintro ⟨⟨hb, hts⟩, ⟨hus, husPar, htsPar⟩, hown, husOwn, htsOwn⟩
        exact ⟨hb, hown, ⟨hus, husPar, husOwn⟩, hts, htsPar, htsOwn⟩

theorem Splice.ne_nil (h : Splice old new ts ts') (hne : new ≠ [] → old ≠ []) (hts' : ts' ≠ []) :
    ts ≠ [] := by
  cases h with
  | here after =>
      intro hts
      rw [List.append_eq_nil_iff] at hts
      refine hts' ?_
      rw [hts.2, List.append_nil]
      exact Classical.byContradiction fun hnew => hne hnew hts.1
  | next t _ => exact List.cons_ne_nil _ _
  | inside b after _ => exact List.cons_ne_nil _ _

/-- **A splice that keeps to the rules locally keeps to them everywhere.** -/
theorem Splice.hangsAll (h : Splice old new ts ts') (hne : new ≠ [] → old ≠ [])
    (hnew : ∀ c, HangsAll c old → HangsAll c new) (hts : HangsAll container ts) :
    HangsAll container ts' := by
  induction h generalizing container with
  | here after =>
      rw [hangsAll_append] at hts ⊢
      exact ⟨hnew container hts.1, hts.2⟩
  | next t _ ih =>
      rw [HangsAll] at hts ⊢
      exact ⟨hts.1, ih hts.2⟩
  | inside b after hus ih =>
      rw [hangsAll_cons] at hts ⊢
      -- If the block has children now, it had some before, and its kind was asked for then.
      exact ⟨hts.1, fun h => hts.2.1 (hus.ne_nil hne h), ih hts.2.2.1, hts.2.2.2⟩

/-- What a splice takes out hung somewhere. -/
theorem Splice.exists_hangsAll (h : Splice old new ts ts') (hts : HangsAll container ts) :
    ∃ c, HangsAll c old := by
  induction h generalizing container with
  | here after => exact ⟨container, (hangsAll_append.mp hts).1⟩
  | next t _ ih =>
      rw [HangsAll] at hts
      exact ih hts.2
  | inside b after _ ih => exact ih (hangsAll_cons.mp hts).2.2.1

/-! ## The check -/

theorem checkParent_eq_ok_iff {b : Block} :
    b.checkParent container = .ok () ↔ b.parent = container := by
  unfold Block.checkParent
  cases container with
  | none => cases hp : b.parent <;> simp
  | some c =>
      by_cases hp : b.parent = some c
      · simp [hp]
      · simp [hp]

/-- One step of the check: the block's parent, its id, its right to hold others, then its children,
    then the siblings after it. -/
theorem checkAll_cons (b : Block) (us ts : List Tree) (seen : List BlockId) :
    checkAll container seen (node b us :: ts) =
      match b.checkParent container with
      | .error v => .error v
      | .ok () =>
        if b.id ∈ seen then .error (.duplicateId b.id)
        else if us ≠ [] ∧ b.canOwnChildren = false then .error (.leafWithContent b.id b.kind)
        else
          match checkAll (some b.id) (b.id :: seen) us with
          | .error v => .error v
          | .ok seen => checkAll container seen ts := by
  rw [checkAll, check, block_node]
  cases b.checkParent container with
  | error v => rfl
  | ok _ =>
      have hcond : ((!us.isEmpty && !b.canOwnChildren) = true) =
          (us ≠ [] ∧ b.canOwnChildren = false) := by simp
      simp only [hcond]
      by_cases hseen : b.id ∈ seen
      · rw [if_pos hseen, if_pos hseen]
      · rw [if_neg hseen, if_neg hseen]
        by_cases hleaf : us ≠ [] ∧ b.canOwnChildren = false
        · rw [if_pos hleaf, if_pos hleaf]
        · rw [if_neg hleaf]
          exact (if_neg hleaf).symm

/-- When one step of the check goes through. -/
theorem checkAll_cons_eq_ok_iff {b : Block} {us : List Tree} {seen seen' : List BlockId} :
    checkAll container seen (node b us :: ts) = .ok seen' ↔
      b.parent = container ∧ b.id ∉ seen ∧ (us ≠ [] → b.canOwnChildren = true) ∧
        ∃ s, checkAll (some b.id) (b.id :: seen) us = .ok s ∧ checkAll container s ts = .ok seen' := by
  rw [checkAll_cons, ← checkParent_eq_ok_iff (b := b)]
  cases b.checkParent container with
  | error v => simp
  | ok _ =>
      by_cases hseen : b.id ∈ seen
      · simp [hseen]
      · by_cases hleaf : us ≠ [] ∧ b.canOwnChildren = false
        · simp [hseen, hleaf]
        · have hown : us ≠ [] → b.canOwnChildren = true := fun hus =>
            (Bool.not_eq_false _).mp fun h => hleaf ⟨hus, h⟩
          rw [if_neg hseen, if_neg hleaf]
          cases checkAll (some b.id) (b.id :: seen) us with
          | error v => simp
          | ok s => simpa [hseen] using fun _ => hown

/-- **What the check accepts, and the ids it has seen then.** -/
theorem checkAll_eq_ok_iff {seen seen' : List BlockId} :
    checkAll container seen ts = .ok seen' ↔
      HangsAll container ts ∧ (idsAll ts).Nodup ∧ (∀ i ∈ idsAll ts, i ∉ seen) ∧
        seen' = (idsAll ts).reverse ++ seen := by
  -- The ids of the content are seen before the siblings that follow, so `seen` varies.
  induction ts using siblingInduction generalizing container seen seen' with
  | nil => simp [checkAll, HangsAll, eq_comm]
  | cons b us ts ihUs ihTs =>
      rw [checkAll_cons_eq_ok_iff, hangsAll_cons, idsAll_cons]
      simp only [ihUs, ihTs]
      constructor
      · rintro ⟨hb, hseen, hown, s, ⟨hus, husIds, husNew, rfl⟩, hts, htsIds, htsNew, rfl⟩
        refine ⟨⟨hb, hown, hus, hts⟩, ?_, ?_, by simp⟩
        · grind
        · grind
      · rintro ⟨⟨hb, hown, hus, hts⟩, hids, hnew, rfl⟩
        refine ⟨hb, ?_, hown, _, ⟨hus, ?_, ?_, rfl⟩, hts, ?_, ?_, by simp⟩
        all_goals grind

end Tree

/-! ## The forest -/

namespace Forest

/-- The two halves of being well formed: every block hangs where it says, and no id occurs twice. -/
structure Sound (f : Forest) : Prop where
  hangs : Tree.HangsAll none f.roots
  distinct : f.ids.Nodup

/-- **The check accepts exactly the sound forests.** -/
theorem valid_iff_sound {f : Forest} : f.Valid ↔ f.Sound := by
  unfold Valid validate
  constructor
  · intro h
    cases hcheck : Tree.checkAll none [] f.roots with
    | error v =>
        rw [hcheck] at h
        exact absurd h (by simp [Except.map])
    | ok seen =>
        obtain ⟨hhangs, hids, -, -⟩ := Tree.checkAll_eq_ok_iff.mp hcheck
        exact ⟨hhangs, hids⟩
  · intro h
    have hcheck : Tree.checkAll none [] f.roots = .ok ((Tree.idsAll f.roots).reverse ++ []) :=
      Tree.checkAll_eq_ok_iff.mpr ⟨h.hangs, h.distinct, by simp, rfl⟩
    rw [hcheck]
    rfl

/-! ## Places -/

namespace Sound

variable {f : Forest} {s t u : Tree}

/-- A tree stands right below one other tree at most. -/
theorem eq_of_mem_children (hf : f.Sound) (hs : s ∈ f.subtrees) (ht : t ∈ f.subtrees) (hus : u ∈ s.children)
    (hut : u ∈ t.children) : s = t := by
  obtain ⟨-, hparent, -⟩ := Tree.hangsAll_iff.mp hf.hangs
  have hid := (hparent s hs u hus).symm.trans (hparent t ht u hut)
  exact Tree.eq_of_id_eq hf.distinct hs ht (Option.some.inj hid)

/-- The one tree with an id that stands inside a tree. -/
theorem mem_below_of_id_mem (hf : f.Sound) (hs : s ∈ f.subtrees) (hu : u ∈ f.subtrees)
    (h : u.id ∈ Tree.idsAll s.children) : u ∈ Tree.subtreesAll s.children := by
  obtain ⟨v, hv, hid⟩ := List.mem_map.mp h
  obtain rfl : v = u :=
    Tree.eq_of_id_eq hf.distinct (Tree.mem_subtreesAll_of_mem_below hs hv) hu hid
  exact hv

/-- What stands inside a tree stands right below it, or right below a tree inside it. -/
theorem mem_below_of_child (hf : f.Sound) (hs : s ∈ f.subtrees) (ht : t ∈ f.subtrees) (hu : u ∈ t.children)
    (h : u.id ∈ Tree.idsAll s.children) : t = s ∨ t ∈ Tree.subtreesAll s.children := by
  have hu' : u ∈ f.subtrees := Tree.mem_subtreesAll_of_mem_below ht (Tree.mem_subtreesAll_of_mem hu)
  rcases Tree.mem_subtreesAll_cases (hf.mem_below_of_id_mem hs hu' h) with hus | ⟨v, hv, huv⟩
  · exact Or.inl (hf.eq_of_mem_children ht hs hu hus)
  · have hv' : v ∈ f.subtrees := Tree.mem_subtreesAll_of_mem_below hs hv
    exact Or.inr (hf.eq_of_mem_children ht hv' hu huv ▸ hv)

/-- No root stands inside a tree. -/
theorem root_id_notMem (hf : f.Sound) (hs : s ∈ f.subtrees) (ht : t ∈ f.roots) :
    t.id ∉ Tree.idsAll s.children := by
  intro h
  obtain ⟨hroots, hparent, -⟩ := Tree.hangsAll_iff.mp hf.hangs
  have hholder : ∃ v ∈ f.subtrees, t ∈ v.children := by
    have hbelow := hf.mem_below_of_id_mem hs (Tree.mem_subtreesAll_of_mem ht) h
    rcases Tree.mem_subtreesAll_cases hbelow with hts | ⟨v, hv, htv⟩
    · exact ⟨s, hs, hts⟩
    · exact ⟨v, Tree.mem_subtreesAll_of_mem_below hs hv, htv⟩
  obtain ⟨v, hv, htv⟩ := hholder
  have hnone := hroots t ht
  rw [hparent v hv t htv] at hnone
  cases hnone

end Sound

end Forest

end Blockwork
