import Blockwork.Forest.Basic
import Blockwork.Source.Order
import Blockwork.Source.BlockLine

/-!
# `Blockwork.Source.Generate`: the source of a forest

Imports come first, then classes, then functions, then everything else, with one blank line between
groups that are not empty. Within a group, and within a block, blocks come in canvas order. The
content of a collapsed block is left out.

## Contents
- `Options`.
- `Tree.emit`, the emitted blocks of a tree with their depths; `Source.linesText`, the lines they become.
- `Draft`, what has been written so far, and `Draft.write`, which adds a group.
- `Forest.bucketRoots`, `Forest.generate`.
-/

namespace Blockwork

/-- How source is written. -/
structure Options where
  /-- Spaces per level. -/
  indentWidth : Nat := 4
  /-- Heights that differ by less are one row. -/
  rowThreshold : Binary64 := 50
  /-- The source of a forest without blocks. -/
  placeholder : String := "# Your generated Python code will appear here"

instance : Inhabited Options := ⟨{}⟩

/-! ## Emitted blocks -/

namespace Tree

mutual

/-- The blocks that are written for a tree, with their depths, in the order of the source. -/
def emit (threshold : Binary64) (depth : Nat) : Tree → List (Nat × Block)
  | node b ts =>
    (depth, b) ::
      if b.collapsed then []
      else
        (Source.sortByPosition threshold Prod.fst (emitEach threshold (depth + 1) ts)).flatMap
          Prod.snd

/-- For each of some siblings its position and what is written for it. -/
def emitEach (threshold : Binary64) (depth : Nat) : List Tree → List (Position × List (Nat × Block))
  | [] => []
  | t :: ts => (t.block.position, emit threshold depth t) :: emitEach threshold depth ts

end

end Tree

namespace Source

/-- `n` spaces. -/
def spaces (n : Nat) : String :=
  String.ofList (List.replicate n ' ')

/-- The line of one emitted block. -/
def lineText (indentWidth : Nat) (e : Nat × Block) : String :=
  spaces (e.1 * indentWidth) ++ e.2.line ++ "\n"

/-- The lines of emitted blocks. -/
def linesText (indentWidth : Nat) (es : List (Nat × Block)) : String :=
  String.join (es.map (lineText indentWidth))

end Source

/-! ## The whole source -/

/-- What has been written so far, and whether a group is part of it. -/
structure Draft where
  text : String
  wroteBucket : Bool

namespace Draft

/-- Nothing written yet. -/
def empty : Draft :=
  ⟨"", false⟩

/-- Adds the top-level trees of a group, behind a blank line if another group was written before.
A group without trees adds nothing. -/
def write (options : Options) (d : Draft) (roots : List Tree) : Draft :=
  if roots.isEmpty then d
  else
    let text := if d.wroteBucket then d.text ++ "\n" else d.text
    { text := roots.foldl (fun text t =>
        text ++ Source.linesText options.indentWidth (t.emit options.rowThreshold 0)) text
      wroteBucket := true }

end Draft

namespace Forest

/-- The top-level trees of a group in canvas order. -/
def bucketRoots (threshold : Binary64) (f : Forest) (bucket : Bucket) : List Tree :=
  Source.sortByPosition threshold (·.block.position)
    (f.topLevel.filter (·.block.kind.bucket == bucket))

/-- The source. -/
def generate (options : Options) (f : Forest) : String :=
  let buckets := Bucket.all.map (f.bucketRoots options.rowThreshold)
  let draft := buckets.foldl (Draft.write options) .empty
  if draft.text.isEmpty then options.placeholder else draft.text

end Forest

end Blockwork
