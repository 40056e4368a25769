import Blockwork.Value

/-!
# `Blockwork.Catalog.Definition`: block definitions

A definition says how a type of block is shown, which parameters it has and which line of source it
stands for.

## Contents
- `Parameter` and its `defaultValue`.
- `Definition` and its `parameter?`.
-/

namespace Blockwork

/-- A declared parameter. -/
structure Parameter where
  name : String
  kind : ParameterKind
  default : Option String
  deriving DecidableEq, Repr

/-- The default, read by the parameter's kind. -/
def Parameter.defaultValue (p : Parameter) : Option Value :=
  p.default.map (Value.parse p.kind)

/-- A type of block. In the template, a declared parameter's name in braces stands for its value. -/
structure Definition where
  id : String
  kind : BlockKind
  category : String
  label : String
  template : String
  parameters : List Parameter
  deriving DecidableEq, Repr

namespace Definition

/-- The declared parameter with a given name. -/
def parameter? (d : Definition) (name : String) : Option Parameter :=
  d.parameters.find? (·.name == name)

/-- Whether blocks of this type may hold other blocks. -/
def canOwnChildren (d : Definition) : Bool :=
  d.kind.canOwnChildren

end Definition

end Blockwork
