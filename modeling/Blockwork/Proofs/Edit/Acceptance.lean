import Blockwork.Proofs.Edit.Sound
import Blockwork.Workspace

/-!
# `Blockwork.Proofs.Edit.Acceptance`: exactly which commands are accepted

A command is refused because of something that is true of the forest and named in the message; if
nothing of the kind is true, it is accepted. For grouping this takes distinct ids: the checks look at
the forest before anything is cut, and what is cut and where it is put is looked up again afterwards.

## Contents
- `Forest.Refuses`, when a forest has no use for a command, and `Forest.Objection`, in which words.
- `Forest.cut?_isSome` and `Forest.put_isSome`: grouping loses nothing between its searches.
- `Forest.refuses_iff_objection`, and `Forest.Objection.apply_eq`: the words are logged.
- `Forest.apply_group_of_checks`, and `Forest.changed_of_not_refuses`.
- `Forest.Reports`, what an accepted command logs.
- `Forest.acceptance`, for every command.
-/

namespace Blockwork

theorem Catalog.lookup_eq_none_iff {name : String} :
    lookup name = none ↔ name ∉ builtin.map Definition.id := by
  rw [lookup, List.find?_eq_none]
  simp [entries]

/-! ## Messages about patches -/

namespace Block

theorem mem_skippedLog_iff (b : Block) {p : Patch} {entry : LogEntry} :
    entry ∈ b.skippedLog p ↔
      ∃ name ∈ p.parameters.entries.map Prod.fst, b.definition.val.parameter? name = none ∧
        entry = ⟨.debug, "update of '" ++ b.id ++ "' skips undeclared parameter '" ++ name ++ "'"⟩ := by
  constructor
  · intro h
    obtain ⟨e, he, rfl⟩ := List.mem_map.mp h
    obtain ⟨hmem, hundeclared⟩ := List.mem_filter.mp he
    exact ⟨e.1, List.mem_map_of_mem hmem, by simpa [declares] using hundeclared, rfl⟩
  · rintro ⟨name, hname, hundeclared, rfl⟩
    obtain ⟨e, he, rfl⟩ := List.mem_map.mp hname
    refine List.mem_map.mpr ⟨e, List.mem_filter.mpr ⟨he, ?_⟩, rfl⟩
    simp [declares, hundeclared]

/-- Names in a patch are distinct, and so are the messages about them. -/
theorem skippedLog_nodup (b : Block) (p : Patch) : (b.skippedLog p).Nodup := by
  have hnames : p.parameters.entries.Pairwise fun e e' => e.1 ≠ e'.1 :=
    p.parameters.sorted.imp fun hlt => String.ne_of_lt hlt
  refine List.pairwise_map.mpr ((hnames.filter _).imp ?_)
  intro e e' hne heq
  rw [LogEntry.mk.injEq, String.append_left_inj, String.append_right_inj] at heq
  exact hne heq.2

end Block

namespace Forest

variable {f g : Forest}

/-! ## Reasons -/

/-- When a command is refused, in terms of what is in the forest. -/
def Refuses (f : Forest) : Command → Prop
  | .insert name _ => name ∉ Catalog.builtin.map Definition.id
  | .update id _ => id ∉ f.ids
  | .delete id => id ∉ f.ids
  | .group parent child =>
    parent = child ∨ child ∉ f.ids ∨ parent ∉ f.ids ∨
      (∃ t ∈ f.subtrees, t.id = child ∧ parent ∈ t.subtrees.map Tree.id) ∨
      (∃ b ∈ f.blocks, b.id = parent ∧ b.kind.canOwnChildren = false)
  | .ungroup id => id ∉ f.ids ∨ id ∈ f.roots.map Tree.id

/-- What there is to say against a command, word for word. Of several reasons it is the first one, in the
    order in which grouping is checked. -/
inductive Objection (f : Forest) : Command → String → Prop where
  | unknownBlock {name : String} {position : Position}
      (h : name ∉ Catalog.builtin.map Definition.id) :
      Objection f (.insert name position) ("insert ignored: unknown block '" ++ name ++ "'")
  | updateMissing {id : BlockId} {p : Patch} (h : id ∉ f.ids) :
      Objection f (.update id p) ("update ignored: no block '" ++ id ++ "'")
  | deleteMissing {id : BlockId} (h : id ∉ f.ids) :
      Objection f (.delete id) ("delete ignored: no block '" ++ id ++ "'")
  | groupSelf {id : BlockId} :
      Objection f (.group id id) ("group ignored: '" ++ id ++ "' cannot contain itself")
  | groupMissingChild {parent child : BlockId} (hne : parent ≠ child) (h : child ∉ f.ids) :
      Objection f (.group parent child) ("group ignored: no child block '" ++ child ++ "'")
  | groupCycle {parent : BlockId} {t : Tree} (hne : parent ≠ t.id) (ht : t ∈ f.subtrees)
      (h : parent ∈ t.subtrees.map Tree.id) :
      Objection f (.group parent t.id)
        ("group ignored: '" ++ parent ++ "' is nested inside '" ++ t.id ++ "'")
  | groupMissingParent {parent child : BlockId} (hne : parent ≠ child) (hchild : child ∈ f.ids)
      (h : parent ∉ f.ids) :
      Objection f (.group parent child) ("group ignored: no parent block '" ++ parent ++ "'")
  | groupLeaf {child : BlockId} {b : Block} (hne : b.id ≠ child) (hchild : child ∈ f.ids)
      (houtside : ∀ t ∈ f.subtrees, t.id = child → b.id ∉ t.subtrees.map Tree.id)
      (hb : b ∈ f.blocks) (h : b.kind.canOwnChildren = false) :
      Objection f (.group b.id child)
        ("group ignored: '" ++ b.id ++ "' (" ++ b.kind.name ++ ") cannot contain blocks")
  | ungroupRoot {id : BlockId} (h : id ∈ f.roots.map Tree.id) :
      Objection f (.ungroup id) ("ungroup ignored: '" ++ id ++ "' is already top-level")
  | ungroupMissing {id : BlockId} (h : id ∉ f.ids) :
      Objection f (.ungroup id) ("ungroup ignored: no block '" ++ id ++ "'")

/-- **A command is refused if there is something to say against it.** -/
theorem refuses_iff_objection {c : Command} : f.Refuses c ↔ ∃ m, f.Objection c m := by
  constructor
  · intro h
    cases c with
    | insert name position => exact ⟨_, .unknownBlock h⟩
    | update id p => exact ⟨_, .updateMissing h⟩
    | delete id => exact ⟨_, .deleteMissing h⟩
    | group parent child =>
        by_cases hself : parent = child
        · subst hself
          exact ⟨_, .groupSelf⟩
        by_cases hchild : child ∈ f.ids
        · by_cases hparent : parent ∈ f.ids
          · by_cases hcycle : ∃ t ∈ f.subtrees, t.id = child ∧ parent ∈ t.subtrees.map Tree.id
            · obtain ⟨t, ht, rfl, hinside⟩ := hcycle
              exact ⟨_, .groupCycle hself ht hinside⟩
            · -- Of the five reasons only the last one is left.
              rcases h with h | h | h | h | ⟨b, hb, rfl, hleaf⟩
              · exact absurd h hself
              · exact absurd hchild h
              · exact absurd hparent h
              · exact absurd h hcycle
              · exact ⟨_, .groupLeaf hself hchild
                  (fun t ht hid hinside => hcycle ⟨t, ht, hid, hinside⟩) hb hleaf⟩
          · exact ⟨_, .groupMissingParent hself hchild hparent⟩
        · exact ⟨_, .groupMissingChild hself hchild⟩
    | ungroup id =>
        rcases h with h | h
        · exact ⟨_, .ungroupMissing h⟩
        · exact ⟨_, .ungroupRoot h⟩
  · rintro ⟨m, h⟩
    cases h with
    | unknownBlock h => exact h
    | updateMissing h => exact h
    | deleteMissing h => exact h
    | groupSelf => exact Or.inl rfl
    | groupMissingChild _ h => exact Or.inr (Or.inl h)
    | groupCycle _ ht h => exact Or.inr (Or.inr (Or.inr (Or.inl ⟨_, ht, rfl, h⟩)))
    | groupMissingParent _ _ h => exact Or.inr (Or.inr (Or.inl h))
    | groupLeaf _ _ _ hb h => exact Or.inr (Or.inr (Or.inr (Or.inr ⟨_, hb, rfl, h⟩)))
    | ungroupRoot h => exact Or.inr h
    | ungroupMissing h => exact Or.inl h

/-! ## Searches -/

theorem mem_ids_of_find? {id : BlockId} {t : Tree} (h : f.find? id = some t) : id ∈ f.ids := by
  obtain ⟨hmem, hid⟩ := Tree.mem_of_findAll?_eq_some h
  exact hid ▸ mem_ids_of_mem_subtrees hmem

/-- The block that is found under an id is the only one with it. -/
theorem find?_eq_some_iff (hf : f.ids.Nodup) {id : BlockId} {t : Tree} :
    f.find? id = some t ↔ t ∈ f.subtrees ∧ t.id = id :=
  Tree.findAll?_eq_some_iff hf

theorem find?_isSome {id : BlockId} (h : id ∈ f.ids) : ∃ t, f.find? id = some t :=
  Option.ne_none_iff_exists'.mp fun hnone => find?_eq_none_iff.mp hnone h

/-- What was found can be cut out. -/
theorem cut?_isSome {id : BlockId} (h : id ∈ f.ids) :
    ∃ moved rest, Tree.cut? id f.roots = some (moved, rest) := by
  cases hcut : Tree.cut? id f.roots with
  | none => exact absurd h (Tree.cut?_eq_none_iff.mp hcut)
  | some r => exact ⟨r.1, r.2, rfl⟩

/-- **A block outside what was cut out is still found.** -/
theorem put_isSome (hf : f.ids.Nodup) {parent child : BlockId} {moving moved : Tree}
    {rest : List Tree} (hmoving : f.find? child = some moving)
    (hcycle : moving.contains parent = false) (hparent : parent ∈ f.ids)
    (hcut : Tree.cut? child f.roots = some (moved, rest)) (change : Tree → Tree) :
    ∃ roots, Tree.modifyIn? parent change rest = some roots := by
  obtain ⟨rfl, hsplice⟩ := Tree.cut?_splice hcut
  -- The check for cycles looked at the tree that is cut, so the parent is not in it.
  have hsame : moved = moving := Option.some.inj ((find?_of_cut hf hsplice).symm.trans hmoving)
  have hrest : parent ∈ Tree.idsAll rest := by
    rcases List.mem_append.mp (hsplice.perm_idsAll_cut.subset hparent) with h | h
    · exact h
    · refine absurd ?_ (Tree.contains_eq_false_iff.mp hcycle)
      rw [← hsame, ← Tree.subtreesAll_singleton]
      exact h
  cases hmodify : Tree.modifyIn? parent change rest with
  | none => exact absurd hrest (Tree.modifyIn?_eq_none_iff.mp hmodify)
  | some roots => exact ⟨roots, rfl⟩

/-! ## Refused edits -/

/-- **What there is to say against a command is logged**, and nothing else happens. -/
theorem Objection.apply_eq (hf : f.ids.Nodup) {c : Command} {m : String} (h : f.Objection c m) :
    f.apply c = ⟨f, false, none, [⟨.debug, m⟩]⟩ := by
  cases h with
  | unknownBlock h =>
      rw [apply, insert, Catalog.lookup_eq_none_iff.mpr h]
      rfl
  | updateMissing h =>
      rw [apply, update, find?_eq_none_iff.mpr h]
      rfl
  | deleteMissing h =>
      rw [apply, delete, Tree.cut?_eq_none_iff.mpr h]
      rfl
  | groupSelf =>
      rw [apply, group, if_pos rfl]
      rfl
  | groupMissingChild hne h =>
      rw [apply, group, if_neg hne, find?_eq_none_iff.mpr h]
      rfl
  | @groupCycle parent t hne ht h =>
      have hfind : f.find? t.id = some t := (find?_eq_some_iff hf).mpr ⟨ht, rfl⟩
      have hcycle : t.contains parent = true := Tree.contains_iff.mpr h
      rw [apply, group, if_neg hne, hfind]
      simp only [hcycle]
      rfl
  | @groupMissingParent parent child hne hchild h =>
      obtain ⟨moving, hmoving⟩ := find?_isSome hchild
      have hcycle : moving.contains parent = false := by
        refine Tree.contains_eq_false_iff.mpr fun hinside => ?_
        obtain ⟨u, hu, hid⟩ := List.mem_map.mp hinside
        have hmem : u ∈ f.subtrees :=
          Tree.mem_subtreesAll_of_mem_subtrees ((find?_eq_some_iff hf).mp hmoving).1 hu
        exact h (hid ▸ mem_ids_of_mem_subtrees hmem)
      rw [apply, group, if_neg hne, hmoving]
      simp only [hcycle, find?_eq_none_iff.mpr h]
      rfl
  | @groupLeaf child b hne hchild houtside hb h =>
      obtain ⟨moving, hmoving⟩ := find?_isSome hchild
      obtain ⟨target, htarget⟩ := find?_isSome (f.map_id_blocks ▸ List.mem_map_of_mem hb)
      obtain ⟨hmovingMem, hmovingId⟩ := (find?_eq_some_iff hf).mp hmoving
      obtain ⟨htargetMem, htargetId⟩ := (find?_eq_some_iff hf).mp htarget
      have hcycle : moving.contains b.id = false :=
        Tree.contains_eq_false_iff.mpr (houtside moving hmovingMem hmovingId)
      have hsame : target.block = b :=
        block_eq_of_id_eq hf (Tree.mem_blocksAll_of_mem htargetMem) hb htargetId
      have hleaf : b.canOwnChildren = false := h
      rw [apply, group, if_neg hne, hmoving]
      simp only [hcycle, htarget, hsame, hleaf]
      rfl
  | @ungroupRoot id h =>
      have hroot : f.roots.any (·.id == id) = true := by simpa using h
      rw [apply, ungroup, if_pos hroot]
      rfl
  | @ungroupMissing id h =>
      have hroot : ¬f.roots.any (·.id == id) = true := by
        intro hany
        obtain ⟨t, ht, hid⟩ := List.any_eq_true.mp hany
        exact h (eq_of_beq hid ▸ mem_ids_of_mem_subtrees (Tree.mem_subtreesAll_of_mem ht))
      rw [apply, ungroup, if_neg hroot, Tree.cut?_eq_none_iff.mpr h]
      rfl

/-! ## Accepted edits -/

/-- Once the checks of grouping have passed, cutting and putting back find what they look for. -/
theorem apply_group_of_checks (hf : f.ids.Nodup) {parent child : BlockId} {moving target : Tree}
    (hne : parent ≠ child) (hmoving : f.find? child = some moving)
    (hcycle : moving.contains parent = false) (htarget : f.find? parent = some target)
    (hown : target.block.canOwnChildren = true) :
    ∃ moved rest roots, Tree.cut? child f.roots = some (moved, rest) ∧
      Tree.modifyIn? parent (Tree.addChild (moved.mapRoot (·.setParent (some parent)))) rest
        = some roots ∧
      f.apply (.group parent child) = ⟨{ f with roots }, true, none, []⟩ := by
  obtain ⟨moved, rest, hcut⟩ := cut?_isSome (mem_ids_of_find? hmoving)
  obtain ⟨roots, hput⟩ := put_isSome hf hmoving hcycle (mem_ids_of_find? htarget) hcut
    (Tree.addChild (moved.mapRoot (·.setParent (some parent))))
  refine ⟨moved, rest, roots, hcut, hput, ?_⟩
  rw [apply, group]
  simp [hne, hmoving, hcycle, htarget, hown, hcut, hput, Outcome.ofResult]

/-- **A command that nothing is said against is accepted.** -/
theorem changed_of_not_refuses (hf : f.ids.Nodup) {c : Command} (h : ¬f.Refuses c) :
    (f.apply c).changed = true := by
  cases c with
  | insert name position =>
      obtain ⟨e, he⟩ := Option.ne_none_iff_exists'.mp fun hnone =>
        h (Catalog.lookup_eq_none_iff.mp hnone)
      rw [apply, insert, he]
  | update id p =>
      obtain ⟨t, ht⟩ := find?_isSome (Classical.not_not.mp h)
      obtain ⟨roots, hroots⟩ := Option.ne_none_iff_exists'.mp fun hnone =>
        h (Tree.modifyIn?_eq_none_iff (f := Tree.mapRoot (·.patch p)).mp hnone)
      rw [apply, update, ht]
      simp only [hroots]
  | delete id =>
      obtain ⟨t, rest, hcut⟩ := cut?_isSome (Classical.not_not.mp h)
      rw [apply, delete, hcut, Outcome.ofResult]
  | group parent child =>
      simp only [Refuses, not_or, Classical.not_not] at h
      obtain ⟨hne, hchild, hparent, houtside, hown⟩ := h
      obtain ⟨moving, hmoving⟩ := find?_isSome hchild
      obtain ⟨target, htarget⟩ := find?_isSome hparent
      obtain ⟨hmovingMem, hmovingId⟩ := Tree.mem_of_findAll?_eq_some hmoving
      obtain ⟨htargetMem, htargetId⟩ := Tree.mem_of_findAll?_eq_some htarget
      have hcycle : moving.contains parent = false :=
        Tree.contains_eq_false_iff.mpr fun hinside =>
          houtside ⟨moving, hmovingMem, hmovingId, hinside⟩
      have hown : target.block.canOwnChildren = true := by
        rw [← Bool.not_eq_false]
        exact fun hleaf => hown ⟨target.block, Tree.mem_blocksAll_of_mem htargetMem, htargetId, hleaf⟩
      obtain ⟨moved, rest, roots, -, -, happly⟩ :=
        apply_group_of_checks hf hne hmoving hcycle htarget hown
      rw [happly]
  | ungroup id =>
      simp only [Refuses, not_or, Classical.not_not] at h
      obtain ⟨moved, rest, hcut⟩ := cut?_isSome h.1
      have hroot : ¬f.roots.any (·.id == id) = true := by simpa using h.2
      rw [apply, ungroup, if_neg hroot, hcut, Outcome.ofResult]

theorem refuses_of_not_changed (hf : f.ids.Nodup) {c : Command} (h : (f.apply c).changed = false) :
    f.Refuses c := by
  by_contra hnot
  rw [changed_of_not_refuses hf hnot] at h
  exact absurd h (by simp)

/-- What an accepted command logs: an update one message for each parameter of its patch that the
    block does not declare, anything else nothing. -/
def Reports (f : Forest) (log : List LogEntry) : Command → Prop
  | .update id p =>
    ∃ b ∈ f.blocks, b.id = id ∧ log.Nodup ∧ ∀ entry, entry ∈ log ↔
      ∃ name ∈ p.parameters.entries.map Prod.fst, b.definition.val.parameter? name = none ∧
        entry = ⟨.debug, "update of '" ++ id ++ "' skips undeclared parameter '" ++ name ++ "'"⟩
  | _ => log = []

theorem reports_of_changed {c : Command} (h : (f.apply c).changed = true) :
    f.Reports (f.apply c).log c := by
  have happlied := f.applied_apply c
  generalize f.apply c = o at h happlied
  cases happlied with
  | refused r => exact absurd h (by simp [Outcome.refused])
  | update hupdate =>
      obtain ⟨found, -, hfind, rfl, -⟩ := update_ok hupdate
      obtain ⟨hmem, rfl⟩ := Tree.mem_of_findAll?_eq_some hfind
      exact ⟨found.block, Tree.mem_blocksAll_of_mem hmem, rfl, found.block.skippedLog_nodup _,
        fun _ => found.block.mem_skippedLog_iff⟩
  | insert _ => rfl
  | delete _ => rfl
  | group _ => rfl
  | ungroup _ => rfl

/-- **Which commands are accepted, and what is said about the others.** Exactly those that a forest
    refuses change nothing, and log one message: what there is to say against them, word for word. When
    the checks of grouping have passed, cutting and putting back find what they look for; accepted
    commands log what they have to report. -/
theorem acceptance (hf : f.Valid) (c : Command) :
    ((f.apply c).changed = false ↔ f.Refuses c) ∧
    (f.Refuses c ↔ ∃ m, f.Objection c m) ∧
    (∀ m, f.Objection c m → f.apply c = ⟨f, false, none, [⟨.debug, m⟩]⟩) ∧
    (∀ parent child moving target, c = .group parent child → parent ≠ child →
      f.find? child = some moving → moving.contains parent = false →
      f.find? parent = some target → target.block.canOwnChildren = true →
      ∃ moved rest roots, Tree.cut? child f.roots = some (moved, rest) ∧
        Tree.modifyIn? parent (Tree.addChild (moved.mapRoot (·.setParent (some parent)))) rest
          = some roots ∧
        f.apply c = ⟨{ f with roots }, true, none, []⟩) ∧
    (¬f.Refuses c → f.Reports (f.apply c).log c) := by
  have hids : f.ids.Nodup := (valid_iff_sound.mp hf).distinct
  refine ⟨⟨refuses_of_not_changed hids, fun h => ?_⟩, refuses_iff_objection, fun m hm => hm.apply_eq hids,
    ?_, fun h => reports_of_changed (changed_of_not_refuses hids h)⟩
  · obtain ⟨m, hm⟩ := refuses_iff_objection.mp h
    rw [hm.apply_eq hids]
  · rintro parent child moving target rfl hne hmoving hcycle htarget hown
    exact apply_group_of_checks hids hne hmoving hcycle htarget hown

/-- A loop with a statement in it. -/
def loopWithStatement : Forest :=
  (Workspace.empty.applyAll
    [.insert "for" .origin, .insert "print" .origin, .group "for-1" "print-2"]).1.forest

/-- The loop cannot go into its own statement, and this is what is said. -/
theorem acceptance_loopWithStatement :
    loopWithStatement.Valid ∧ loopWithStatement.Refuses (.group "print-2" "for-1") ∧
      loopWithStatement.Objection (.group "print-2" "for-1")
        "group ignored: 'print-2' is nested inside 'for-1'" ∧
      loopWithStatement.apply (.group "print-2" "for-1")
        = ⟨loopWithStatement, false, none,
            [⟨.debug, "group ignored: 'print-2' is nested inside 'for-1'"⟩]⟩ := by
  have hvalid : loopWithStatement.Valid := by rfl
  obtain ⟨-, hrefuses, hsaid, -, -⟩ := acceptance hvalid (.group "print-2" "for-1")
  have hfound : ∃ t ∈ loopWithStatement.subtrees, t.id = "for-1" ∧ "print-2" ∈ t.subtrees.map Tree.id :=
    ⟨_, List.mem_cons_self, by decide +kernel, by decide +kernel⟩
  obtain ⟨t, ht, hid, hinside⟩ := hfound
  have hcycle : loopWithStatement.Objection (.group "print-2" t.id)
      ("group ignored: 'print-2' is nested inside '" ++ t.id ++ "'") :=
    .groupCycle (by rw [hid]; decide) ht hinside
  rw [hid] at hcycle
  exact ⟨hvalid, hrefuses.mpr ⟨_, hcycle⟩, hcycle, hsaid _ hcycle⟩

end Forest

end Blockwork
