import Blockwork.Catalog.Kind
import Blockwork.Number.Layout
import Blockwork.Number.Reader
import Blockwork.Text.Blank

/-!
# `Blockwork.Value`: values of block parameters

A parameter holds a truth value, a number or a text. Defaults and typed input come as text and are
read by the parameter's kind; a text that does not fit its kind stays a text.

## Contents
- `Value`, with `Value.parse` and `Value.display`.
- `Value.same`, equality that compares numbers numerically.
-/

namespace Blockwork

/-- The value of a parameter. -/
inductive Value where
  | bool (b : Bool)
  | number (x : Binary64)
  | text (s : String)
  deriving DecidableEq

namespace Value

/-- The truth value written by a text, in any case. -/
def parseBool? (s : String) : Option Bool :=
  match s.toLower with
  | "true" => some true
  | "false" => some false
  | _ => none

/-- The value that `raw` denotes for a parameter of the given kind. Blanks around a number or a
truth value do not count; what cannot be read is kept as it stands. -/
def parse (kind : ParameterKind) (raw : String) : Value :=
  match kind with
  | .text => text raw
  | .number => ((Binary64.parse? (Text.trim raw)).map number).getD (text raw)
  | .boolean => ((parseBool? (Text.trim raw)).map bool).getD (text raw)

/-- The value as it appears in generated code, before any formatting. -/
def display : Value → String
  | bool true => "True"
  | bool false => "False"
  | number x => Layout.shown.write x
  | text s => s

/-- Whether two values are equal, numbers being compared by `Binary64.eq`. -/
def same : Value → Value → Bool
  | bool a, bool b => a == b
  | number x, number y => x.eq y
  | text s, text t => s == t
  | _, _ => false

end Value

end Blockwork
