import Blockwork.Proofs.Edit.Sound
import Blockwork.Workspace
import Mathlib.Data.List.Infix

/-!
# `Blockwork.Proofs.Workspace.Reachable`: every forest that a workspace comes to is well formed

A caller can do three things to a workspace: apply one command, apply several in a row, or put
another forest in its place. The arguments are arbitrary; forests to start from or to put in place
are those that a caller can hold at all. One invariant goes through every call: the forest is sound,
its blocks are filled, and its counter has not stopped at zero.

## Contents
- `Forest.Built`, the forests a caller can hold.
- `Call`, `Workspace.call` and `Workspace.Reachable`.
- `Forest.WellFormed`, what the check stands for, written out.
- `Workspace.Kept`, the invariant, and `Workspace.Reachable.wellFormed`.
-/

namespace Blockwork

/-! ## Forests a caller can hold -/

/-- Forests are empty, loaded from trees, or made from such forests by edits. -/
inductive Forest.Built : Forest → Prop where
  | empty : Built .empty
  | ofTrees (roots : List Tree) : Built (.ofTrees roots)
  | apply {f : Forest} (hf : Built f) (c : Command) : Built (f.apply c).forest

theorem Forest.Built.filled {f : Forest} (h : f.Built) : f.Filled := by
  induction h with
  | empty => exact empty_filled
  | ofTrees roots => exact ofTrees_filled roots
  | apply _ c ih => exact ih.apply c

theorem Forest.Built.nextSerial_ne_zero {f : Forest} (h : f.Built) : f.nextSerial ≠ 0 := by
  induction h with
  | empty => decide
  | ofTrees roots => exact ofTrees_nextSerial_ne_zero roots
  | apply _ c ih => exact apply_nextSerial_ne_zero ih c

/-! ## Calls -/

/-- One call on a workspace. Each of the five edits is the call of its command. -/
inductive Call where
  | apply (c : Command)
  | applyAll (cs : List Command)
  | replace (f : Forest)

namespace Workspace

/-- The workspace after a call. A replacement that is not well formed leaves it as it was. -/
def call (w : Workspace) : Call → Workspace
  | .apply c => (w.apply c).1
  | .applyAll cs => (w.applyAll cs).1
  | .replace f =>
    match w.replace f with
    | .ok w' => w'
    | .error _ => w

/-- What is asked of a call: whenever it edits there are fewer blocks than serials, and a replacement
    is a forest that a caller can hold. -/
def Admits (w : Workspace) : Call → Prop
  | .apply _ => w.forest.size < 2 ^ 64 - 1
  | .applyAll cs => ∀ done, done <+: cs → (w.applyAll done).1.forest.size < 2 ^ 64 - 1
  | .replace f => f.Built

/-- The workspaces that a caller can come to: a new one, one made from a forest, and what any call
    makes of them. -/
inductive Reachable : Workspace → Prop where
  | empty : Reachable .empty
  | ofForest {f : Forest} {w : Workspace} (hf : f.Built) (h : ofForest f = .ok w) : Reachable w
  | call {w : Workspace} (hw : Reachable w) (c : Call) (hc : w.Admits c) : Reachable (w.call c)

/-! ## The invariant -/

/-- What every call keeps. -/
structure Kept (w : Workspace) : Prop where
  sound : w.forest.Sound
  filled : w.forest.Filled
  counting : w.forest.nextSerial ≠ 0

theorem forest_of_ofForest {f : Forest} {w : Workspace} (h : ofForest f = .ok w) :
    w.forest = f ∧ f.Valid := by
  unfold ofForest at h
  cases hvalid : f.validate with
  | error v =>
      rw [hvalid] at h
      exact absurd h (by simp [Except.map])
  | ok _ =>
      rw [hvalid] at h
      have hw : (⟨f⟩ : Workspace) = w := Except.ok.inj h
      exact ⟨hw ▸ rfl, hvalid⟩

theorem Kept.ofForest {f : Forest} (hf : f.Built) {w : Workspace} (h : ofForest f = .ok w) :
    w.Kept := by
  obtain ⟨hw, hvalid⟩ := forest_of_ofForest h
  refine ⟨?_, ?_, ?_⟩
  · exact hw ▸ Forest.valid_iff_sound.mp hvalid
  · exact hw ▸ hf.filled
  · exact hw ▸ hf.nextSerial_ne_zero

theorem Kept.apply {w : Workspace} (hw : w.Kept) (hsize : w.forest.size < 2 ^ 64 - 1) (c : Command) :
    (w.apply c).1.Kept :=
  ⟨hw.sound.apply hw.counting hsize c, hw.filled.apply c,
    Forest.apply_nextSerial_ne_zero hw.counting c⟩

theorem applyAll_cons (w : Workspace) (c : Command) (cs : List Command) :
    (w.applyAll (c :: cs)).1 = ((w.apply c).1.applyAll cs).1 := rfl

/-- The bound is asked for before each command: now, and again whenever a command has been applied. -/
theorem admits_applyAll_cons {w : Workspace} {c : Command} {cs : List Command}
    (h : w.Admits (.applyAll (c :: cs))) :
    w.forest.size < 2 ^ 64 - 1 ∧ (w.apply c).1.Admits (.applyAll cs) := by
  refine ⟨h [] List.nil_prefix, fun done hdone => ?_⟩
  rw [← applyAll_cons]
  exact h (c :: done) (List.cons_prefix_cons.mpr ⟨rfl, hdone⟩)

theorem Kept.applyAll {w : Workspace} (hw : w.Kept) {cs : List Command}
    (hcs : w.Admits (.applyAll cs)) : (w.applyAll cs).1.Kept := by
  induction cs generalizing w with
  | nil => exact hw
  | cons c cs ih =>
      obtain ⟨hsize, hrest⟩ := admits_applyAll_cons hcs
      rw [applyAll_cons]
      exact ih (hw.apply hsize c) hrest

/-- **One call keeps the invariant.** -/
theorem Kept.call {w : Workspace} (hw : w.Kept) {c : Call} (hc : w.Admits c) : (w.call c).Kept := by
  cases c with
  | apply c => exact hw.apply hc c
  | applyAll cs => exact hw.applyAll hc
  | replace f =>
      rw [Workspace.call]
      cases hreplace : w.replace f with
      | error v => exact hw
      | ok w' => exact Kept.ofForest hc hreplace

/-- **Every reachable workspace has the invariant.** -/
theorem Reachable.kept {w : Workspace} (h : w.Reachable) : w.Kept := by
  induction h with
  | empty =>
      refine ⟨⟨trivial, ?_⟩, Forest.empty_filled, by decide⟩
      simp [Forest.ids, Workspace.empty, Forest.empty]
  | ofForest hf h => exact Kept.ofForest hf h
  | call _ c hc ih => exact ih.call hc

end Workspace

/-! ## Well-formed forests -/

/-- A forest in order, written out: it passes the check, all ids over all depths differ, roots name
    no parent, a nested block names the block whose list of children it is in, only blocks of a kind
    that may hold others have children, and every declared parameter has a value. -/
structure Forest.WellFormed (f : Forest) : Prop where
  valid : f.validate = .ok ()
  distinct : (f.walk.map (·.2.id)).Nodup
  roots : ∀ t ∈ f.roots, t.block.parent = none
  nested : ∀ t ∈ f.subtrees, ∀ u ∈ t.children, u.block.parent = some t.block.id
  owners : ∀ t ∈ f.subtrees, t.children ≠ [] → t.block.kind.canOwnChildren = true
  filled : ∀ t ∈ f.subtrees, ∀ p ∈ t.block.definition.val.parameters,
    (t.block.parameters.get? p.name).isSome = true

/-- **Whatever calls come in whatever order, the forest is well formed after each.** -/
theorem Workspace.Reachable.wellFormed {w : Workspace} (h : w.Reachable) : w.forest.WellFormed := by
  have hkept := h.kept
  obtain ⟨hroots, hnested, howners⟩ := Tree.hangsAll_iff.mp hkept.sound.hangs
  exact
    { valid := Forest.valid_iff_sound.mpr hkept.sound
      distinct := w.forest.map_id_walk ▸ hkept.sound.distinct
      roots := hroots
      nested := hnested
      owners := howners
      filled := fun t ht => hkept.filled t.block (Tree.mem_blocksAll_of_mem ht) }

/-- Two loops and a statement, put into each other; the last command would close a cycle. -/
def nestedLoops : List Command :=
  [.insert "for" .origin, .insert "while" .origin, .insert "print" .origin,
    .group "while-2" "print-3", .group "for-1" "while-2", .group "print-3" "for-1"]

/-- A forest whose only root claims a parent. -/
def strayRoot : Forest :=
  .ofTrees ((Workspace.empty.apply (.insert "print" .origin)).1.forest.roots.map
    (Tree.mapRoot (·.setParent (some "for-1"))))

/-- A refused cycle and a refused replacement leave the nested loops in order. -/
theorem Workspace.nestedLoops_wellFormed :
    let w := (Workspace.empty.call (.applyAll nestedLoops)).call (.replace strayRoot)
    w.Reachable ∧ w.forest.WellFormed ∧
      w.forest.blocks.map (fun b => (b.id, b.parent)) =
        [("for-1", none), ("while-2", some "for-1"), ("print-3", some "while-2")] := by
  have hloops : Workspace.empty.Admits (.applyAll nestedLoops) := by
    intro done hdone
    rw [← List.mem_inits] at hdone
    revert done
    decide
  have hreach := (Reachable.empty.call _ hloops).call (.replace strayRoot) (.ofTrees _)
  exact ⟨hreach, hreach.wellFormed, by rfl⟩

end Blockwork
