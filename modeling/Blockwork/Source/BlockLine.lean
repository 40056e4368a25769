import Blockwork.Catalog.Formatter
import Blockwork.Forest.Block
import Blockwork.Source.Template

/-!
# `Blockwork.Source.BlockLine`: the line of source of one block

The line is the definition's template with every declared parameter replaced by its value, shaped
by the parameter's formatter if it has one.
-/

namespace Blockwork.Block

/-- The text that stands for a parameter in the template; none if it is not declared. -/
def parameterSource? (b : Block) (name : String) : Option String :=
  (b.definition.val.parameter? name).map fun p =>
    match b.parameter? p.name with
    | none => ""
    | some v =>
      match b.definition.val.formatter? p.name with
      | some formatter => formatter.apply v.display
      | none => v.display

/-- The block's line, without indentation. -/
def line (b : Block) : String :=
  Source.substitute b.parameterSource? b.definition.val.template

end Blockwork.Block
