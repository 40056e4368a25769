import Blockwork.Edit.Operations

/-!
# `Blockwork.Edit.Command`: edits as data

A command names one edit with its arguments. Applying a command never fails: a refused edit leaves
the forest as it is, and says so.

## Contents
- `Command` and its `name`.
- `Outcome`, the forest afterwards, the new block's id, whether the edit was accepted, the messages.
- `Forest.apply`.
-/

namespace Blockwork

/-- One edit. -/
inductive Command where
  | insert (block : String) (position : Position)
  | update (id : BlockId) (patch : Patch)
  | delete (id : BlockId)
  | group (parent child : BlockId)
  | ungroup (id : BlockId)
  deriving DecidableEq

/-- What applying a command gives. -/
structure Outcome where
  forest : Forest
  changed : Bool
  inserted : Option BlockId
  log : List LogEntry

namespace Outcome

/-- A refused edit. -/
def refused (f : Forest) (r : Refusal) : Outcome :=
  ⟨f, false, none, r.log⟩

/-- An accepted edit without messages, or a refused one. -/
def ofResult (f : Forest) : Except Refusal Forest → Outcome
  | .ok g => ⟨g, true, none, []⟩
  | .error r => refused f r

end Outcome

/-- Applies a command. -/
def Forest.apply (f : Forest) : Command → Outcome
  | .insert block position =>
    match f.insert block position with
    | .ok (id, g) => ⟨g, true, some id, []⟩
    | .error r => .refused f r
  | .update id patch =>
    match f.update id patch with
    | .ok (log, g) => ⟨g, true, none, log⟩
    | .error r => .refused f r
  | .delete id => .ofResult f (f.delete id)
  | .group parent child => .ofResult f (f.group parent child)
  | .ungroup id => .ofResult f (f.ungroup id)

end Blockwork
