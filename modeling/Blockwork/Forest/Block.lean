import Blockwork.Catalog.Builtin
import Blockwork.Settings

/-!
# `Blockwork.Forest.Block`: a single block

A block is one statement on the canvas: its id, its definition, where it stands, its parameter
values, whether its content is folded away, and the id of the block that holds it. The blocks it
holds are not part of it; they hang below it in a `Tree`.

## Contents
- `Position`, `BlockId`, `Block`.
- `Block.parameter?`, a value with the declared default behind it, and `Block.parameterText`.
- `Block.fill`, the block with every declared default written out.
- `Block.same`, equality up to numeric equality of numbers.
-/

namespace Blockwork

/-! ## Positions -/

/-- A place on the canvas. -/
structure Position where
  x : Binary64
  y : Binary64
  deriving DecidableEq

namespace Position

/-- The upper left corner. -/
def origin : Position :=
  ⟨0, 0⟩

/-- Whether both coordinates are numerically equal. -/
def same (p q : Position) : Bool :=
  p.x.eq q.x && p.y.eq q.y

end Position

/-! ## Blocks -/

/-- The identity of a block: any text. -/
abbrev BlockId := String

/-- A block without its content. -/
structure Block where
  id : BlockId
  definition : Entry
  position : Position
  parameters : Settings
  collapsed : Bool
  parent : Option BlockId
  deriving DecidableEq

namespace Block

/-- The definition's kind. -/
def kind (b : Block) : BlockKind :=
  b.definition.val.kind

/-- Whether the block may hold other blocks. -/
def canOwnChildren (b : Block) : Bool :=
  b.definition.val.canOwnChildren

/-- The value of a parameter: the block's own or else the declared default. -/
def parameter? (b : Block) (name : String) : Option Value :=
  (b.parameters.get? name).or ((b.definition.val.parameter? name).bind (·.defaultValue))

/-- The value of a parameter as text, nothing if it has none. -/
def parameterText (b : Block) (name : String) : String :=
  ((b.parameter? name).map Value.display).getD ""

/-- The block inside `container`. -/
def setParent (b : Block) (container : Option BlockId) : Block :=
  { b with parent := container }

/-! ## Defaults -/

/-- `values` with the default of `p` added if `p` has no value. -/
def fillParameter (values : Settings) (p : Parameter) : Settings :=
  if values.contains p.name then values
  else
    match p.defaultValue with
    | some v => values.insert p.name v
    | none => values

/-- The block with the default of every declared parameter that has no value. -/
def fill (b : Block) : Block :=
  { b with parameters := b.definition.val.parameters.foldl fillParameter b.parameters }

/-- A new top-level block with its defaults. -/
def fresh (id : BlockId) (definition : Entry) (position : Position) : Block :=
  fill
    { id, definition, position
      parameters := .empty
      collapsed := false
      parent := none }

/-! ## Equality -/

/-- Whether two blocks are equal, definitions being compared by id and numbers numerically. -/
def same (a b : Block) : Bool :=
  a.id == b.id && a.definition.val.id == b.definition.val.id && a.position.same b.position &&
    a.parameters.same b.parameters && a.collapsed == b.collapsed && a.parent == b.parent

end Block

end Blockwork
