import Blockwork.Proofs.CommandLine.Effects
import Blockwork.Proofs.Edit.Moves
import Blockwork.Proofs.Edit.Updates
import Blockwork.Proofs.Workspace.Reachable

/-!
# `Blockwork.Proofs.Workspace.Changes`: what a workspace counts as a change

A workspace says of a command that it changed the forest whenever the command was accepted. Every
accepted insertion, deletion and ungrouping does change it. An update does not if its patch gives the
block what it has, and a grouping does not if the block is the last child of its new parent already:
such a command is *idle*, and it is counted with the others.

## Contents
- `Patch.Restates`, a patch with nothing new for a block.
- `Forest.Idles`, an accepted command that changes nothing, and `Forest.changed_iff`.
- `Workspace.steps`, with `alterations` and `idlings`: what the commands of a run do.
- `Workspace.Reachable.changes`: what is counted as changed, and what did change.
-/

namespace Blockwork

/-! ## Patches with nothing new -/

/-- Whatever the patch gives the block `b`, the block has it: the position, the flag, and the value of
    each parameter that the block declares. -/
structure Patch.Restates (p : Patch) (b : Block) : Prop where
  position : ∀ q, p.position = some q → b.position = q
  collapsed : ∀ c, p.collapsed = some c → b.collapsed = c
  parameters : ∀ name v, p.parameters.get? name = some v → b.declares name = true →
    b.parameters.get? name = some v

/-- A patch that gives nothing has nothing new for any block. -/
theorem Patch.restates_empty (b : Block) : Patch.empty.Restates b where
  position _ h := absurd h (by simp [Patch.empty])
  collapsed _ h := absurd h (by simp [Patch.empty])
  parameters _ _ h := absurd h (by simp [Patch.empty, Settings.empty, Settings.get?, lookupEntry])

theorem Patch.getD_eq_iff {α : Type} {o : Option α} {a : α} :
    o.getD a = a ↔ ∀ x, o = some x → a = x := by
  cases o with
  | none => simp
  | some x => simp [eq_comm]

/-- **Such a patch changes nothing, and every other one does.** -/
theorem Block.patch_eq_self_iff {b : Block} {p : Patch} : b.patch p = b ↔ p.Restates b := by
  constructor
  · intro h
    refine ⟨?_, ?_, ?_⟩
    · exact Patch.getD_eq_iff.mp (congrArg Block.position h)
    · exact Patch.getD_eq_iff.mp (congrArg Block.collapsed h)
    · intro name v hv hdeclares
      have hvalue := b.get?_parameters_patch p name
      rwa [h, if_pos hdeclares, hv, Option.some_or] at hvalue
  · intro h
    refine Block.ext rfl rfl ?_ ?_ ?_ rfl
    · exact Patch.getD_eq_iff.mpr h.position
    · refine Settings.eq_of_get?_eq fun name => ?_
      rw [get?_parameters_patch]
      by_cases hdeclares : b.declares name = true
      · rw [if_pos hdeclares]
        cases hv : p.parameters.get? name with
        | none => rw [Option.none_or]
        | some v => rw [Option.some_or, h.parameters name v hv hdeclares]
      · rw [if_neg hdeclares]
    · exact Patch.getD_eq_iff.mpr h.collapsed

/-! ## Idle commands -/

namespace Forest

variable {f g : Forest} {c : Command}

/-- Commands that are accepted although nothing is left to do: an update of a block with what it has,
    and a grouping of a block below its parent where it is the last one already. -/
def Idles (f : Forest) : Command → Prop
  | .update id p => ∃ b ∈ f.blocks, b.id = id ∧ p.Restates b
  | .group parent child =>
    ∃ b us t, .node b (us ++ [t]) ∈ f.subtrees ∧ b.id = parent ∧ t.id = child
  | .insert .. | .delete _ | .ungroup _ => False

/-- An update leaves the forest as it is exactly if its patch restates the block. -/
theorem after_update_eq_self_iff (hf : f.ids.Nodup) {id : BlockId} {p : Patch} {b : Block}
    (hb : b ∈ f.blocks) (hid : b.id = id) : f.after (.update id p) = f ↔ p.Restates b := by
  rw [after_update hf, ← Block.patch_eq_self_iff]
  constructor
  · intro h
    have hblocks : f.blocks.map (Block.patchAt id p) = f.blocks :=
      (Tree.blocksAll_mapAll _ _).symm.trans (congrArg blocks h)
    have hpatched : Block.patchAt id p b = b :=
      List.map_inj_left.mp (hblocks.trans (List.map_id _).symm) b hb
    rwa [Block.patchAt, if_pos hid] at hpatched
  · intro h
    have hroots : Tree.mapAll (Block.patchAt id p) f.roots = f.roots := by
      refine Tree.mapAll_eq_self fun c hc => ?_
      by_cases hc' : c.id = id
      · obtain rfl := block_eq_of_id_eq hf hc hb (hc'.trans hid.symm)
        rw [Block.patchAt, if_pos hid, h]
      · rw [Block.patchAt, if_neg hc']
    rw [mapBlocks, hroots]

/-- Idle commands are accepted and change nothing. -/
theorem Idles.accepted (hf : f.Sound) (h : f.Idles c) :
    (f.apply c).changed = true ∧ f.after c = f := by
  cases c with
  | insert name position => exact False.elim h
  | update id p =>
      obtain ⟨b, hb, hid, hrestates⟩ := h
      have hmem : b.id ∈ f.ids := f.map_id_blocks ▸ List.mem_map_of_mem hb
      exact ⟨changed_of_not_refuses hf.distinct fun habsent => habsent (hid ▸ hmem),
        (after_update_eq_self_iff hf.distinct hb hid).mpr hrestates⟩
  | delete id => exact False.elim h
  | group parent child =>
      obtain ⟨b, us, t, hlast, rfl, rfl⟩ := h
      rw [after, apply, group_of_last hf hlast]
      exact ⟨rfl, rfl⟩
  | ungroup id => exact False.elim h

/-! ## Accepted commands -/

/-- An insertion adds a root. -/
theorem ne_of_insert {name : String} {position : Position} {id : BlockId}
    (h : f.insert name position = .ok (id, g)) : g ≠ f := by
  rintro rfl
  obtain ⟨e, -, -, hroots, -⟩ := insert_ok h
  have hlength := congrArg List.length hroots
  rw [List.length_append, List.length_singleton] at hlength
  omega

/-- A deletion takes an id away. -/
theorem ne_of_delete (hf : f.ids.Nodup) {id : BlockId} (h : f.delete id = .ok g) : g ≠ f := by
  rintro rfl
  obtain ⟨t, rfl, hcut, -⟩ := delete_ok h
  have hrest : t.id ∉ g.ids := by
    rw [ids, (rest_eq_removeAll hf hcut).2]
    exact Tree.notMem_idsAll_removeAll t.id _
  exact hrest (mem_ids_of_mem_subtrees (hcut.mem_subtreesAll List.mem_cons_self))

/-- An ungrouping makes a root of a block that was none. -/
theorem ne_of_ungroup {id : BlockId} (h : f.ungroup id = .ok g) : g ≠ f := by
  rintro rfl
  obtain ⟨moved, rest, hnested, hid, -, hroots, -⟩ := ungroup_ok h
  have hroot : (moved.mapRoot (·.setParent none)).id ∈ g.roots.map Tree.id :=
    List.mem_map_of_mem (hroots ▸ List.mem_append_right _ List.mem_cons_self)
  rw [Tree.id_mapRoot (Block.id_setParent none), hid] at hroot
  exact hnested hroot

/-- An accepted command that changes nothing is idle. -/
theorem idles_of_changed (hf : f.Sound) (hchanged : (f.apply c).changed = true)
    (h : f.after c = f) : f.Idles c := by
  have happlied := f.applied_apply c
  have hsame := h
  rw [after] at hsame
  generalize f.apply c = o at hchanged hsame happlied
  cases happlied with
  | refused r => exact absurd hchanged (by simp [Outcome.refused])
  | insert hinsert => exact absurd hsame (ne_of_insert hinsert)
  | delete hdelete => exact absurd hsame (ne_of_delete hf.distinct hdelete)
  | ungroup hungroup => exact absurd hsame (ne_of_ungroup hungroup)
  | update hupdate =>
      obtain ⟨found, -, hfind, -⟩ := update_ok hupdate
      obtain ⟨hmem, hid⟩ := Tree.mem_of_findAll?_eq_some hfind
      have hblock : found.block ∈ f.blocks := Tree.mem_blocksAll_of_mem hmem
      exact ⟨found.block, hblock, hid, (after_update_eq_self_iff hf.distinct hblock hid).mp h⟩
  | @group parent child g hgroup =>
      obtain ⟨moved, b, us, hfind, hid, hlast⟩ := exists_last_of_group hf.distinct hgroup
      have hgf : g = f := hsame
      exact ⟨b, us, _, hgf ▸ hlast, hid, id_moved hfind _⟩

/-- **A command is said to change the forest if it changes it or is idle.** -/
theorem changed_iff (hf : f.Sound) :
    (f.apply c).changed = true ↔ f.after c ≠ f ∨ f.Idles c := by
  constructor
  · intro hchanged
    by_cases h : f.after c = f
    · exact Or.inr (idles_of_changed hf hchanged h)
    · exact Or.inl h
  · rintro (h | h)
    · rw [← Bool.not_eq_false]
      intro hrefused
      obtain ⟨m, hm⟩ := refuses_iff_objection.mp (refuses_of_not_changed hf.distinct hrefused)
      rw [after, hm.apply_eq hf.distinct] at h
      exact h rfl
    · exact (h.accepted hf).1

end Forest

/-! ## Runs of commands -/

namespace Workspace

variable {w : Workspace}

/-- The commands, each with the workspace that it is applied to. -/
def steps (w : Workspace) : List Command → List (Workspace × Command)
  | [] => []
  | c :: cs => (w, c) :: (w.apply c).1.steps cs

open Classical in
/-- How many of the commands leave another forest than they find. -/
noncomputable def alterations (w : Workspace) (cs : List Command) : Nat :=
  (w.steps cs).countP fun s => (s.1.apply s.2).1.forest ≠ s.1.forest

open Classical in
/-- How many of the commands are idle where they are applied. -/
noncomputable def idlings (w : Workspace) (cs : List Command) : Nat :=
  (w.steps cs).countP fun s => s.1.forest.Idles s.2

open Classical in
theorem alterations_cons (w : Workspace) (c : Command) (cs : List Command) :
    w.alterations (c :: cs)
      = (w.apply c).1.alterations cs + if (w.apply c).1.forest = w.forest then 0 else 1 := by
  rw [alterations, steps, List.countP_cons, alterations]
  by_cases h : (w.apply c).1.forest = w.forest
  · simp [h]
  · simp [h]

open Classical in
theorem idlings_cons (w : Workspace) (c : Command) (cs : List Command) :
    w.idlings (c :: cs) = (w.apply c).1.idlings cs + if w.forest.Idles c then 1 else 0 := by
  rw [idlings, steps, List.countP_cons, idlings]
  by_cases h : w.forest.Idles c
  · simp [h]
  · simp [h]

/-- **The count of a run** counts the commands that change the forest and the idle ones. -/
theorem applyAll_count (hw : w.Kept) {cs : List Command} (hcs : w.Admits (.applyAll cs)) :
    (w.applyAll cs).2.1 = w.alterations cs + w.idlings cs := by
  induction cs generalizing w with
  | nil => rfl
  | cons c cs ih =>
      obtain ⟨hsize, hrest⟩ := admits_applyAll_cons hcs
      have hcount : (w.applyAll (c :: cs)).2.1
          = (if (w.apply c).2.changed then 1 else 0) + ((w.apply c).1.applyAll cs).2.1 := rfl
      have hchanged : (w.apply c).2.changed = true ↔
          (w.apply c).1.forest ≠ w.forest ∨ w.forest.Idles c := Forest.changed_iff hw.sound
      have hidle : w.forest.Idles c → (w.apply c).1.forest = w.forest :=
        fun h => (h.accepted hw.sound).2
      rw [hcount, ih (hw.apply hsize c) hrest, alterations_cons, idlings_cons]
      -- What is counted for this command is counted on one side of the sum only.
      by_cases h : (w.apply c).1.forest = w.forest
      · rw [if_pos h]
        by_cases hi : w.forest.Idles c
        · rw [if_pos (hchanged.mpr (Or.inr hi)), if_pos hi]
          omega
        · rw [if_neg fun hc => (hchanged.mp hc).elim (absurd h) hi, if_neg hi]
          omega
      · rw [if_pos (hchanged.mpr (Or.inl h)), if_neg h, if_neg fun hi => h (hidle hi)]
        omega

/-- The line for the user repeats the count. -/
theorem notes_applyCommands {now : Timestamp} {path text : String} {p : Project} {cs : List Command}
    (hp : ofForest p.forest = .ok w) (s : CommandLine.Session)
    (htext : CommandLine.readText s.disk path = .ok text) (hcs : Command.parseList text = .ok cs) :
    ((CommandLine.applyCommands now path p).run.run s).2.notes
      = s.notes ++ [toString (w.applyAll cs).2.1 ++ " of " ++ toString cs.length
          ++ " commands changed the forest."] := by
  have hload : (CommandLine.loadCommands path).run.run s = (.ok cs, s) := by
    rw [CommandLine.loadCommands, CommandLine.run_get_bind]
    simp only [htext, hcs]
    rfl
  rw [CommandLine.applyCommands, CommandLine.run_bind, hload, hp]
  rfl

/-- **What counts as a change.** A command is said to have changed the forest if it did or if it was
    idle, which leaves the forest as it was; the count of a run, and the line for the user that repeats
    it, counts both. -/
theorem Reachable.changes (hw : w.Reachable) (c : Command) :
    ((w.apply c).2.changed = true ↔ (w.apply c).1.forest ≠ w.forest ∨ w.forest.Idles c) ∧
    (w.forest.Idles c → (w.apply c).1.forest = w.forest) ∧
    ∀ cs, w.Admits (.applyAll cs) →
      (w.applyAll cs).2.1 = w.alterations cs + w.idlings cs ∧
      ∀ (now : Timestamp) (path text : String) (p : Project) (s : CommandLine.Session),
        Workspace.ofForest p.forest = .ok w →
        CommandLine.readText s.disk path = .ok text → Command.parseList text = .ok cs →
        ((CommandLine.applyCommands now path p).run.run s).2.notes
          = s.notes ++ [toString (w.alterations cs + w.idlings cs) ++ " of " ++ toString cs.length
              ++ " commands changed the forest."] := by
  have hkept := hw.kept
  refine ⟨Forest.changed_iff hkept.sound, fun h => (h.accepted hkept.sound).2, ?_⟩
  intro cs hcs
  have hcount := applyAll_count hkept hcs
  refine ⟨hcount, ?_⟩
  intro now path text p s hp htext hparse
  rw [← hcount]
  exact notes_applyCommands hp s htext hparse

theorem ok_of_toOption {ε α : Type} {r : Except ε α} {a : α} (h : r.toOption = some a) :
    r = .ok a := by
  cases r with
  | error e => cases h
  | ok b => exact congrArg Except.ok (Option.some.inj h)

/-- A single statement. -/
def oneStatement : Workspace :=
  empty.call (.apply (.insert "print" .origin))

theorem oneStatement_reachable : oneStatement.Reachable := by
  refine Reachable.empty.call _ ?_
  show Workspace.empty.forest.size < 2 ^ 64 - 1
  decide

/-- A file with an update that gives nothing, and a deletion. -/
def idleAndDeletion : String :=
  "[\x7b\"op\": \"update\", \"id\": \"print-1\"\x7d, \x7b\"op\": \"delete\", \"id\": \"print-1\"\x7d]"

/-- The disk with that file. -/
def idleDisk : Disk where
  nodes := [(["edits.json"], .file (Utf8.encode idleAndDeletion))]
  current := []

/-- Both commands are counted, though only the second one changes anything. -/
theorem changes_oneStatement :
    let w := oneStatement
    let cs : List Command := [.update "print-1" .empty, .delete "print-1"]
    w.Reachable ∧ w.forest.Idles (.update "print-1" .empty) ∧
    (w.apply (.update "print-1" .empty)).2.changed = true ∧
    (w.apply (.update "print-1" .empty)).1.forest = w.forest ∧
    w.Admits (.applyAll cs) ∧ w.alterations cs + w.idlings cs = 2 ∧
    ((CommandLine.applyCommands (.sinceEpoch 0 0) "edits.json"
        (.create (.sinceEpoch 0 0) "sketch" "" w.forest)).run.run { disk := idleDisk }).2.notes
      = ["2 of 2 commands changed the forest."] := by
  have hidles : oneStatement.forest.Idles (.update "print-1" .empty) :=
    ⟨_, List.mem_cons_self, by rfl, Patch.restates_empty _⟩
  have hadmits : oneStatement.Admits (.applyAll [.update "print-1" .empty, .delete "print-1"]) := by
    intro done hdone
    rw [← List.mem_inits] at hdone
    revert done
    decide
  have htext : CommandLine.readText idleDisk "edits.json" = .ok idleAndDeletion :=
    ok_of_toOption (by decide +kernel)
  have hparse : Command.parseList idleAndDeletion
      = .ok [.update "print-1" .empty, .delete "print-1"] := ok_of_toOption (by decide +kernel)
  obtain ⟨hchanged, hsame, hruns⟩ := oneStatement_reachable.changes (.update "print-1" .empty)
  obtain ⟨hcount, hnotes⟩ := hruns _ hadmits
  have htwo : oneStatement.alterations [.update "print-1" .empty, .delete "print-1"]
      + oneStatement.idlings [.update "print-1" .empty, .delete "print-1"] = 2 :=
    hcount.symm.trans (by rfl)
  refine ⟨oneStatement_reachable, hidles, hchanged.mpr (Or.inr hidles), hsame hidles, hadmits, htwo, ?_⟩
  refine (hnotes _ _ _ _ { disk := idleDisk } ?_ htext hparse).trans ?_
  · rfl
  · rw [htwo]
    rfl

/-- **An update without values is said to change the forest**, and the forest is what it was. -/
theorem emptyPatch_said_to_change :
    let w := oneStatement
    let c : Command := .update "print-1" .empty
    w.Reachable ∧ (w.apply c).2.changed = true ∧ (w.apply c).1.forest = w.forest ∧
      (w.applyAll [c]).2.1 = 1 := by
  exact ⟨oneStatement_reachable, by rfl, by rfl, by rfl⟩

end Workspace

end Blockwork
