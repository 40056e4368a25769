import Blockwork.Catalog.Builtin

/-!
# `Blockwork.Catalog.Formatter`: shaping a value for its place in a template

Some parameters are not put into the template as they stand: an alias becomes an `as` clause, a base
class gets parentheses, a message gets quotes. A rule names the parameter and either a definition or
a kind; rules for a definition win.

## Contents
- `Formatter` and `Formatter.apply`.
- `Formatter.Rule`, the rules, and `Definition.formatter?`.
-/

namespace Blockwork

/-- The ways of shaping a value. -/
inductive Formatter where
  /-- ` as x`, or nothing for a blank value -/
  | asClause
  /-- `(x)`, or nothing for a blank value -/
  | baseClass
  /-- `"x"`, unless the value is quoted already or holds a call -/
  | quoted
  deriving DecidableEq, Repr

namespace Formatter

/-- `value` trimmed and put between `before` and `after`; nothing if it is blank. -/
def wrapUnlessBlank (before after value : String) : String :=
  let trimmed := Text.trim value
  if trimmed.isEmpty then "" else before ++ trimmed ++ after

/-- `value` in double quotes, unless it starts with a quote or holds an opening parenthesis. -/
def quoteUnlessExpression (value : String) : String :=
  let cs := value.toList
  if cs.head? = some '"' ∨ cs.head? = some '\'' ∨ '(' ∈ cs then value else "\"" ++ value ++ "\""

/-- The shaped value. -/
def apply : Formatter → String → String
  | asClause => wrapUnlessBlank " as " ""
  | baseClass => wrapUnlessBlank "(" ")"
  | quoted => quoteUnlessExpression

/-! ## Rules -/

/-- What a rule is about. -/
inductive Target where
  | definition (id : String)
  | kind (k : BlockKind)
  deriving DecidableEq

/-- A rule: one parameter of one definition or of all definitions of a kind. -/
structure Rule where
  target : Target
  parameter : String
  formatter : Formatter

/-- The rules. -/
def rules : List Rule :=
  [⟨.definition "import", "alias", asClause⟩,
    ⟨.kind .output, "message", quoted⟩,
    ⟨.definition "class", "parent", baseClass⟩,
    ⟨.definition "except", "variable", asClause⟩]

end Formatter

/-- The formatter of a parameter, if it has one. -/
def Definition.formatter? (d : Definition) (parameter : String) : Option Formatter :=
  let rule? (target : Formatter.Target) :=
    Formatter.rules.find? fun r => r.parameter == parameter && r.target == target
  ((rule? (.definition d.id)).or (rule? (.kind d.kind))).map (·.formatter)

end Blockwork
