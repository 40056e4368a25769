import Blockwork.Proofs.Forest.Valid

/-!
# `Blockwork.Proofs.Forest.FirstViolation`: which violation the check reports

The check recurses over the trees, looks at the parent of a block before it goes into the block, and
hands the ids seen so far from one part to the next. Seen from outside it does something simpler: it
goes along the walk and stops at the first block that breaks a rule. `Stop` is an entry of the walk
with the container that the walk does not show, and `Stop.Breaks` says what can be wrong there, in the
order in which it is looked at.

## Contents
- `Stop`, `Tree.stopsAll` and `Forest.stops`: the walk with containers, with
  `Tree.map_stopsAll` and `Tree.container_of_mem_stopsAll`.
- `Stop.Breaks`, what is wrong at a stop, and `Stop.check_eq_error_iff`.
- `Tree.checkAll_eq_checkEach`: the recursive check is a loop over the stops.
- `Stop.checkEach_eq_error_iff`: such a loop ends at the first stop that breaks a rule.
- `Forest.validate_reports_first`: **what the check accepts, and what it reports of the rest.**
-/

namespace Blockwork

/-! ## Stops -/

/-- Where a tree stands in a forest: how deep, and inside which block unless it is a root. -/
structure Stop where
  depth : Nat
  container : Option BlockId
  tree : Tree

/-- The id of the block at a stop. -/
def Stop.id (p : Stop) : BlockId :=
  p.tree.id

theorem Stop.id_node (depth : Nat) (container : Option BlockId) (b : Block) (us : List Tree) :
    Stop.id ⟨depth, container, .node b us⟩ = b.id := rfl

namespace Tree

mutual

/-- The stops inside a tree that stands in `container`, in the order of the walk. -/
def stops (depth : Nat) (container : Option BlockId) : Tree → List Stop
  | node b us => ⟨depth, container, node b us⟩ :: stopsAll (depth + 1) (some b.id) us

/-- The stops inside siblings that stand in `container`, in the order of the walk. -/
def stopsAll (depth : Nat) (container : Option BlockId) : List Tree → List Stop
  | [] => []
  | t :: ts => stops depth container t ++ stopsAll depth container ts

end

variable {depth : Nat} {container : Option BlockId}

theorem stopsAll_cons (b : Block) (us ts : List Tree) :
    stopsAll depth container (node b us :: ts) =
      ⟨depth, container, node b us⟩ ::
        (stopsAll (depth + 1) (some b.id) us ++ stopsAll depth container ts) := by
  rw [stopsAll, stops, List.cons_append]

/-- Without the containers the stops are the walk. -/
theorem map_stopsAll (depth : Nat) (container : Option BlockId) (ts : List Tree) :
    (stopsAll depth container ts).map (fun p => (p.depth, p.tree.block)) = preorderAll depth ts := by
  induction ts using siblingInduction generalizing depth container with
  | nil => rfl
  | cons b us ts ihUs ihTs =>
      rw [stopsAll_cons, preorderAll_cons, List.map_cons, List.map_append, ihUs, ihTs, block_node]

/-- **What the container of a stop is**: the one given for the siblings, or the block whose list of
    children the tree is in. -/
theorem container_of_mem_stopsAll {ts : List Tree} {p : Stop}
    (h : p ∈ stopsAll depth container ts) :
    (p.container = container ∧ p.tree ∈ ts) ∨
      ∃ q ∈ stopsAll depth container ts, p.container = some q.id ∧ p.tree ∈ q.tree.children := by
  induction ts using siblingInduction generalizing depth container with
  | nil => exact absurd h (by simp [stopsAll])
  | cons b us ts ihUs ihTs =>
      rw [stopsAll_cons, List.mem_cons, List.mem_append] at h
      rw [stopsAll_cons]
      rcases h with rfl | h | h
      · exact Or.inl ⟨rfl, List.mem_cons_self⟩
      · rcases ihUs h with ⟨hcontainer, hmem⟩ | ⟨q, hq, hcontainer, hmem⟩
        · exact Or.inr ⟨_, List.mem_cons_self, hcontainer, hmem⟩
        · exact Or.inr ⟨q, List.mem_cons_of_mem _ (List.mem_append_left _ hq), hcontainer, hmem⟩
      · rcases ihTs h with ⟨hcontainer, hmem⟩ | ⟨q, hq, hcontainer, hmem⟩
        · exact Or.inl ⟨hcontainer, List.mem_cons_of_mem _ hmem⟩
        · exact Or.inr ⟨q, List.mem_cons_of_mem _ (List.mem_append_right _ hq), hcontainer, hmem⟩

end Tree

/-- The stops of a forest, in the order of the walk. -/
def Forest.stops (f : Forest) : List Stop :=
  Tree.stopsAll 0 none f.roots

/-! ## What is wrong at a stop -/

namespace Stop

/-- What is wrong with the block at a stop, where `earlier` are the ids before it in the walk. Its
    parent is looked at first, then its id, then its children. -/
inductive Breaks (earlier : List BlockId) (p : Stop) : Violation → Prop where
  | rootWithParent {parent : BlockId} (hroot : p.container = none)
      (hparent : p.tree.block.parent = some parent) :
      Breaks earlier p (.rootWithParent p.id parent)
  | wrongParent {container : BlockId} (hnested : p.container = some container)
      (hparent : p.tree.block.parent ≠ some container) :
      Breaks earlier p (.wrongParent p.id container p.tree.block.parent)
  | duplicateId (hparent : p.tree.block.parent = p.container) (hearlier : p.id ∈ earlier) :
      Breaks earlier p (.duplicateId p.id)
  | leafWithContent (hparent : p.tree.block.parent = p.container) (hearlier : p.id ∉ earlier)
      (hcontent : p.tree.children ≠ []) (hleaf : p.tree.block.kind.canOwnChildren = false) :
      Breaks earlier p (.leafWithContent p.id p.tree.block.kind)

/-- The check of one stop, given the ids seen so far. -/
def check (seen : List BlockId) (p : Stop) : Except Violation Unit :=
  match p.tree.block.checkParent p.container with
  | .error v => .error v
  | .ok () =>
    if p.id ∈ seen then .error (.duplicateId p.id)
    else if p.tree.children ≠ [] ∧ p.tree.block.canOwnChildren = false then
      .error (.leafWithContent p.id p.tree.block.kind)
    else .ok ()

theorem check_node (depth : Nat) (container : Option BlockId) (seen : List BlockId) (b : Block)
    (us : List Tree) :
    check seen ⟨depth, container, .node b us⟩ =
      match b.checkParent container with
      | .error v => .error v
      | .ok () =>
        if b.id ∈ seen then .error (.duplicateId b.id)
        else if us ≠ [] ∧ b.canOwnChildren = false then .error (.leafWithContent b.id b.kind)
        else .ok () := rfl

variable {seen earlier : List BlockId} {p : Stop} {v : Violation}

/-- Only which ids came earlier counts, not their order. -/
theorem Breaks.of_mem_iff (hp : p.Breaks seen v) (h : ∀ i, i ∈ seen ↔ i ∈ earlier) :
    p.Breaks earlier v := by
  cases hp with
  | rootWithParent hroot hparent => exact .rootWithParent hroot hparent
  | wrongParent hnested hparent => exact .wrongParent hnested hparent
  | duplicateId hparent hseen => exact .duplicateId hparent ((h _).mp hseen)
  | leafWithContent hparent hseen hcontent hleaf =>
      exact .leafWithContent hparent (fun hmem => hseen ((h _).mpr hmem)) hcontent hleaf

/-- **The check of a stop finds what is wrong there.** -/
theorem check_eq_error_iff : p.check seen = .error v ↔ p.Breaks seen v := by
  constructor
  · intro h
    rw [check] at h
    cases hparent : p.tree.block.checkParent p.container with
    | error w =>
        rw [hparent, Except.error.injEq] at h
        subst h
        unfold Block.checkParent at hparent
        cases hcontainer : p.container with
        | none =>
            rw [hcontainer] at hparent
            cases hclaimed : p.tree.block.parent with
            | none => simp [hclaimed] at hparent
            | some parent =>
                simp only [hclaimed, Except.error.injEq] at hparent
                exact hparent ▸ .rootWithParent hcontainer hclaimed
        | some container =>
            rw [hcontainer] at hparent
            by_cases hclaimed : p.tree.block.parent = some container
            · simp [hclaimed] at hparent
            · simp only [if_neg hclaimed, Except.error.injEq] at hparent
              exact hparent ▸ .wrongParent hcontainer hclaimed
    | ok _ =>
        rw [hparent] at h
        rw [Tree.checkParent_eq_ok_iff] at hparent
        by_cases hseen : p.id ∈ seen
        · rw [if_pos hseen, Except.error.injEq] at h
          exact h ▸ .duplicateId hparent hseen
        · by_cases hleaf : p.tree.children ≠ [] ∧ p.tree.block.canOwnChildren = false
          · rw [if_neg hseen, if_pos hleaf, Except.error.injEq] at h
            exact h ▸ .leafWithContent hparent hseen hleaf.1 hleaf.2
          · rw [if_neg hseen, if_neg hleaf] at h
            exact absurd h (by simp)
  · intro h
    cases h with
    | rootWithParent hroot hparent => simp [check, Block.checkParent, hroot, hparent, Stop.id, Tree.id]
    | wrongParent hnested hparent => simp [check, Block.checkParent, hnested, hparent, Stop.id, Tree.id]
    | duplicateId hparent hseen =>
        rw [check, Tree.checkParent_eq_ok_iff.mpr hparent]
        exact if_pos hseen
    | leafWithContent hparent hseen hcontent hleaf =>
        rw [check, Tree.checkParent_eq_ok_iff.mpr hparent]
        exact (if_neg hseen).trans (if_pos ⟨hcontent, hleaf⟩)

theorem check_eq_ok_iff : p.check seen = .ok () ↔ ∀ v, ¬p.Breaks seen v := by
  simp only [← check_eq_error_iff]
  cases p.check seen with
  | error v => simp
  | ok _ => simp

/-! ## Going along the stops -/

/-- Checks stops in order, each with the ids of those before it, and answers all ids. -/
def checkEach (seen : List BlockId) : List Stop → Except Violation (List BlockId)
  | [] => .ok seen
  | p :: ps =>
    match p.check seen with
    | .error v => .error v
    | .ok () => checkEach (p.id :: seen) ps

theorem checkEach_append (seen : List BlockId) (ps qs : List Stop) :
    checkEach seen (ps ++ qs) =
      match checkEach seen ps with
      | .error v => .error v
      | .ok seen => checkEach seen qs := by
  induction ps generalizing seen with
  | nil => rfl
  | cons p ps ih =>
      rw [List.cons_append, checkEach, checkEach]
      cases p.check seen with
      | error v => rfl
      | ok _ => exact ih (p.id :: seen)

/-- **Such a loop ends at the first stop that breaks a rule.** -/
theorem checkEach_eq_error_iff {ps : List Stop} :
    checkEach seen ps = .error v ↔
      ∃ before p after, ps = before ++ p :: after ∧ p.Breaks ((before.map id).reverse ++ seen) v ∧
        ∀ first q rest w, before = first ++ q :: rest →
          ¬q.Breaks ((first.map id).reverse ++ seen) w := by
  induction ps generalizing seen with
  | nil => simp [checkEach]
  | cons p ps ih =>
      rw [checkEach]
      constructor
      · intro h
        cases hcheck : p.check seen with
        | error w =>
            rw [hcheck, Except.error.injEq] at h
            subst h
            exact ⟨[], p, ps, rfl, check_eq_error_iff.mp hcheck, by simp⟩
        | ok _ =>
            rw [hcheck] at h
            obtain ⟨before, q, after, rfl, hq, hbefore⟩ := ih.mp h
            refine ⟨p :: before, q, after, rfl, by simpa using hq, ?_⟩
            intro first r rest w heq
            rcases List.cons_eq_append_iff.mp heq with ⟨rfl, hhead⟩ | ⟨first, rfl, htail⟩
            · obtain ⟨rfl, -⟩ := List.cons.inj hhead
              exact check_eq_ok_iff.mp hcheck w
            · simpa using hbefore first r rest w htail
      · rintro ⟨before, q, after, heq, hq, hbefore⟩
        cases before with
        | nil =>
            obtain ⟨rfl, rfl⟩ := List.cons.inj heq
            have hcheck : p.check seen = .error v := check_eq_error_iff.mpr hq
            rw [hcheck]
        | cons r before =>
            obtain ⟨rfl, rfl⟩ := List.cons.inj heq
            have hcheck : p.check seen = .ok () :=
              check_eq_ok_iff.mpr fun w => hbefore [] p before w rfl
            rw [hcheck]
            refine ih.mpr ⟨before, q, after, rfl, by simpa using hq, ?_⟩
            intro first r rest w hsplit
            simpa using hbefore (p :: first) r rest w (by rw [hsplit, List.cons_append])

end Stop

/-- **The recursive check is a loop over the stops.** -/
theorem Tree.checkAll_eq_checkEach (depth : Nat) (container : Option BlockId) (seen : List BlockId)
    (ts : List Tree) :
    checkAll container seen ts = Stop.checkEach seen (stopsAll depth container ts) := by
  induction ts using siblingInduction generalizing depth container seen with
  | nil => rfl
  | cons b us ts ihUs ihTs =>
      rw [checkAll_cons, stopsAll_cons, Stop.checkEach, Stop.check_node, Stop.id_node]
      cases b.checkParent container with
      | error v => rfl
      | ok _ =>
          dsimp only
          by_cases hseen : b.id ∈ seen
          · rw [if_pos hseen, if_pos hseen]
          · by_cases hleaf : us ≠ [] ∧ b.canOwnChildren = false
            · rw [if_neg hseen, if_neg hseen, if_pos hleaf, if_pos hleaf]
            · rw [if_neg hseen, if_neg hseen, if_neg hleaf, if_neg hleaf, Stop.checkEach_append,
                ihUs (depth + 1)]
              cases Stop.checkEach (b.id :: seen) (stopsAll (depth + 1) (some b.id) us) with
              | error v => rfl
              | ok seen => exact ihTs depth container seen

/-! ## The forest -/

namespace Forest

theorem validate_eq_error_iff {f : Forest} {v : Violation} :
    f.validate = .error v ↔ Stop.checkEach [] f.stops = .error v := by
  rw [validate, Tree.checkAll_eq_checkEach 0, stops]
  cases Stop.checkEach [] (Tree.stopsAll 0 none f.roots) <;> simp [Except.map]

/-- **What the check accepts, and what it reports of the rest.** It accepts a forest exactly if the
    ids along the walk are distinct, roots name no parent, nested blocks name the block that holds
    them, and only blocks of a kind that may have children have some. Of any other forest it reports
    the first block of the walk at which something is wrong, and of that block what is wrong with the
    parent, or else with the id, or else with the children. -/
theorem validate_reports_first (f : Forest) :
    f.stops.map (fun p => (p.depth, p.tree.block)) = f.walk ∧
    (∀ p ∈ f.stops, (p.container = none ∧ p.tree ∈ f.roots) ∨
      ∃ q ∈ f.stops, p.container = some q.id ∧ p.tree ∈ q.tree.children) ∧
    (f.validate = .ok () ↔
      (f.walk.map (·.2.id)).Nodup ∧ (∀ t ∈ f.roots, t.block.parent = none) ∧
      (∀ t ∈ f.subtrees, ∀ u ∈ t.children, u.block.parent = some t.block.id) ∧
      (∀ t ∈ f.subtrees, t.children ≠ [] → t.block.kind.canOwnChildren = true)) ∧
    (∀ v, f.validate = .error v ↔
      ∃ before p after, f.stops = before ++ p :: after ∧ p.Breaks (before.map Stop.id) v ∧
        ∀ first q rest w, before = first ++ q :: rest → ¬q.Breaks (first.map Stop.id) w) := by
  refine ⟨?_, fun p hp => Tree.container_of_mem_stopsAll hp, ?_, fun v => ?_⟩
  · rw [stops, Tree.map_stopsAll, walk_eq_preorder, preorder]
  · show f.Valid ↔ _
    rw [valid_iff_sound, map_id_walk]
    constructor
    · rintro ⟨hhangs, hids⟩
      exact ⟨hids, Tree.hangsAll_iff.mp hhangs⟩
    · rintro ⟨hids, hhangs⟩
      exact ⟨Tree.hangsAll_iff.mpr hhangs, hids⟩
  · rw [validate_eq_error_iff, Stop.checkEach_eq_error_iff]
    -- The loop collects the ids last first; which they are is the same.
    have hsame : ∀ (qs : List Stop) i, i ∈ (qs.map Stop.id).reverse ++ [] ↔ i ∈ qs.map Stop.id := by
      simp
    constructor
    · rintro ⟨before, p, after, hstops, hp, hbefore⟩
      exact ⟨before, p, after, hstops, hp.of_mem_iff (hsame before), fun first q rest w heq hq =>
        hbefore first q rest w heq (hq.of_mem_iff fun i => (hsame first i).symm)⟩
    · rintro ⟨before, p, after, hstops, hp, hbefore⟩
      exact ⟨before, p, after, hstops, hp.of_mem_iff fun i => (hsame before i).symm,
        fun first q rest w heq hq => hbefore first q rest w heq (hq.of_mem_iff (hsame first))⟩

end Forest

end Blockwork
