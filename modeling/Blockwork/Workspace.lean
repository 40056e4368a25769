import Blockwork.Edit.Command
import Blockwork.Forest.Valid

/-!
# `Blockwork.Workspace`: the forest being edited

A workspace owns the current forest. It starts from nothing or from a well-formed forest, changes
only by commands, and takes over another forest only if that one is well formed.

## Contents
- `Workspace`, `empty`, `ofForest`, `replace`.
- `apply`, and `applyAll` with the number of accepted commands and all messages.
-/

namespace Blockwork

/-- The owner of the current forest. -/
structure Workspace where
  forest : Forest

namespace Workspace

/-- No blocks. -/
def empty : Workspace :=
  ⟨.empty⟩

/-- A workspace that starts from a well-formed forest. -/
def ofForest (f : Forest) : Except Violation Workspace :=
  f.validate.map fun _ => ⟨f⟩

/-- The workspace with another forest, if that one is well formed. -/
def replace (_w : Workspace) (f : Forest) : Except Violation Workspace :=
  ofForest f

/-- Applies one command. -/
def apply (w : Workspace) (c : Command) : Workspace × Outcome :=
  let outcome := w.forest.apply c
  (⟨outcome.forest⟩, outcome)

/-- Applies commands in order; answers how many were accepted, and all messages. -/
def applyAll (w : Workspace) : List Command → Workspace × Nat × List LogEntry
  | [] => (w, 0, [])
  | c :: cs =>
    let (w, outcome) := w.apply c
    let (w, count, log) := w.applyAll cs
    (w, (if outcome.changed then 1 else 0) + count, outcome.log ++ log)

end Workspace

end Blockwork
