import Blockwork.Forest.Basic
import Blockwork.Log
import Blockwork.Source.Indent
import Blockwork.Source.Recognition

/-!
# `Blockwork.Source.Convert`: blocks from source

Every line that is not blank becomes one block. Its type and parameters are what the line says; a
line that says nothing known becomes a comment and is reported. A function right inside a class is a
method. Blocks are laid out on the canvas by row and indentation.

The lines are read once, from the first to the last. The blocks that can still take in lines are kept
on a stack; a line finishes those that are indented at least as far as itself, and a block is put
where it belongs when it is finished, not when its line is read.

## Contents
- `Statement`, a line with what it says.
- `Issue`, a line that was not recognised, with its two messages.
- `Statement.freshBlock`, the block of a line before it has a parent.
- `Assembly`, the blocks made so far; `Assembly.attach`, `close`, `push` and `read`.
- `Conversion` and `Conversion.ofSource`.
-/

namespace Blockwork

namespace Source

/-! ## Statements -/

/-- A line together with what it says, if that is known. -/
structure Statement where
  line : Line
  reading : Option Reading

/-- Reads a line. -/
def Statement.ofLine (l : Line) : Statement :=
  ⟨l, recognise? l.text⟩

/-- The text under which an unknown line is kept. -/
def unparsedMark : String :=
  "Unparsed: "

/-- What the block of a statement says: an unknown line is kept as a comment. -/
def Statement.content (s : Statement) : Reading :=
  s.reading.getD
    ⟨Catalog.comment, [("text", unparsedMark.toList ++ s.line.text)]⟩

/-! ## Unknown lines -/

/-- A line that was not recognised. -/
structure Issue where
  /-- The number of the line, counted from one. -/
  line : Nat
  statement : String
  deriving DecidableEq, Repr

namespace Issue

/-- What is reported about the line. -/
def message (i : Issue) : String :=
  "Unrecognised statement kept as comment: " ++ i.statement

/-- The warning about the line. -/
def warning (i : Issue) : LogEntry :=
  ⟨.warn, "line " ++ toString i.line ++ " not recognised, kept as comment: " ++ i.statement⟩

end Issue

/-- The issue with a statement, if it was not recognised. -/
def Statement.issue? (s : Statement) : Option Issue :=
  match s.reading with
  | some _ => none
  | none => some ⟨s.line.number, String.ofList s.line.text⟩

/-! ## Blocks -/

/-- The place of the block of a line: one step down for each row, one step to the right for each
column of indentation. -/
def Line.position (l : Line) : Position :=
  { x := 50 + Binary64.ofNat l.indent * 30
    y := 50 + Binary64.ofNat (l.row - 1) * 80 }

/-- The type of the block of a statement: a function right inside a class is a method. -/
def Statement.entry (insideClass : Bool) (s : Statement) : Entry :=
  let block := s.content.block
  if block.val.kind = .function ∧ insideClass then Catalog.entry "method" else block

/-- The block of a statement, before it is put anywhere. -/
def Statement.freshBlock (insideClass : Bool) (s : Statement) : Block :=
  let definition := s.entry insideClass
  let id := definition.val.id ++ "-" ++ toString s.line.row
  let fresh := Block.fresh id definition s.line.position
  { fresh with
    parameters := fresh.parameters.override (s.content.values.map fun (name, value) =>
      (name, .text (String.ofList value))) }

/-! ## Reading the lines -/

/-- What has been made of the lines read so far. -/
structure Assembly where
  /-- the finished trees of the top level -/
  roots : List Tree
  /-- the blocks that may take in more, each with the indentation of its line, the innermost first -/
  opened : List (Nat × Tree)
  issues : List Issue

namespace Assembly

/-- Nothing read yet. -/
def empty : Assembly :=
  ⟨[], [], []⟩

/-- Whether the innermost open block is a class. -/
def insideClass (a : Assembly) : Bool :=
  a.opened.head?.any fun (_, outer) => outer.block.kind == .class

/-- Puts a finished tree at the end of the innermost open block, or of the top level if no block is
open. -/
def attach (t : Tree) (a : Assembly) : Assembly :=
  match a.opened with
  | [] => { a with roots := a.roots ++ [t.mapRoot (·.setParent none)] }
  | (indent, outer) :: rest =>
    let child := t.mapRoot (·.setParent (some outer.id))
    { a with opened := (indent, Tree.addChild child outer) :: rest }

theorem length_opened_attach (t : Tree) (a : Assembly) :
    (a.attach t).opened.length = a.opened.length := by
  obtain ⟨roots, opened, issues⟩ := a
  cases opened with
  | nil => rfl
  | cons outer rest => rfl

/-- Finishes the open blocks that are indented at least as far as `indent`, the innermost first. -/
def close (indent : Nat) (a : Assembly) : Assembly :=
  match _h : a.opened with
  | [] => a
  | (width, t) :: rest =>
    if width < indent then a else close indent (attach t { a with opened := rest })
termination_by a.opened.length
decreasing_by simp only [length_opened_attach, _h, List.length_cons, Nat.lt_add_one]

/-- Opens a block. -/
def push (indent : Nat) (b : Block) (a : Assembly) : Assembly :=
  { a with opened := (indent, .node b []) :: a.opened }

/-- Reads one more statement. What is open once the blocks that end before its line are finished
decides whether a function is a method. -/
def read (a : Assembly) (s : Statement) : Assembly :=
  let a := a.close s.line.indent
  let b := s.freshBlock a.insideClass
  let a := { a with issues := a.issues ++ s.issue?.toList }
  if b.canOwnChildren then a.push s.line.indent b else a.attach (.node b [])

/-- Reads all statements, and finishes what is open after the last one. -/
def ofStatements (statements : List Statement) : Assembly :=
  (statements.foldl read empty).close 0

end Assembly

end Source

/-! ## Conversion -/

/-- A forest made from source, and the lines that were not recognised. -/
structure Conversion where
  forest : Forest
  issues : List Source.Issue

namespace Conversion

/-- Converts a source. -/
def ofSource (source : String) : Conversion :=
  let statements := (Source.Line.ofSource source).map Source.Statement.ofLine
  let assembly := Source.Assembly.ofStatements statements
  { forest := Forest.ofTrees assembly.roots
    issues := assembly.issues }

/-- The warnings about the lines that were not recognised. -/
def log (c : Conversion) : List LogEntry :=
  c.issues.map Source.Issue.warning

end Conversion

end Blockwork
