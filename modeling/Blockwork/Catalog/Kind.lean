/-!
# `Blockwork.Catalog.Kind`: what sort of statement a block stands for

A block's kind decides two things: whether it may hold other blocks, and in which group of the
generated source its statement comes when it stands at the top level.

## Contents
- `BlockKind` with `name`, `ofName?`, `canOwnChildren`, `bucket`.
- `Bucket`, the groups of the source in their order.
- `ParameterKind`, what a parameter's default text is read as.
-/

namespace Blockwork

/-! ## Groups of the source -/

/-- The groups of top-level statements. -/
inductive Bucket where
  | imports | classes | functions | other
  deriving DecidableEq, Repr

/-- The groups in the order in which they are written. -/
def Bucket.all : List Bucket :=
  [.imports, .classes, .functions, .other]

/-- The group's name. -/
def Bucket.name : Bucket → String
  | .imports => "Imports"
  | .classes => "Classes"
  | .functions => "Functions"
  | .other => "Other"

/-! ## Kinds of blocks -/

/-- The kinds of blocks. -/
inductive BlockKind where
  | «import» | «variable» | output | control | function | «class» | method | «attribute»
  | instantiate | methodCall | input | data | documentation | builtin
  deriving DecidableEq, Repr

namespace BlockKind

/-- The kinds, in the order in which a message lists them. -/
def all : List BlockKind :=
  [.import, .variable, .output, .control, .function, .class, .method, .attribute, .instantiate,
    .methodCall, .input, .data, .documentation, .builtin]

/-- The kind's name in saved texts. -/
def name : BlockKind → String
  | .import => "import"
  | .variable => "variable"
  | .output => "output"
  | .control => "control"
  | .function => "function"
  | .class => "class"
  | .method => "method"
  | .attribute => "attribute"
  | .instantiate => "instantiate"
  | .methodCall => "method_call"
  | .input => "input"
  | .data => "data"
  | .documentation => "documentation"
  | .builtin => "builtin"

/-- The kind with a given name. -/
def ofName? (s : String) : Option BlockKind :=
  all.find? (·.name == s)

/-- Only statements that open a suite hold other blocks. -/
def canOwnChildren : BlockKind → Bool
  | .control | .function | .class | .method => true
  | _ => false

/-- The group in which a top-level statement of this kind is written. -/
def bucket : BlockKind → Bucket
  | .import => .imports
  | .class => .classes
  | .function => .functions
  | _ => .other

theorem ofName?_name (k : BlockKind) : ofName? k.name = some k := by
  cases k <;> decide

end BlockKind

/-! ## Kinds of parameters -/

/-- What a parameter's text is read as. -/
inductive ParameterKind where
  | text | number | boolean
  deriving DecidableEq, Repr

namespace ParameterKind

/-- The kinds, in the order in which a message lists them. -/
def all : List ParameterKind :=
  [.text, .number, .boolean]

/-- The kind's name in saved texts. -/
def name : ParameterKind → String
  | .text => "text"
  | .number => "number"
  | .boolean => "boolean"

/-- The kind with a given name. -/
def ofName? (s : String) : Option ParameterKind :=
  all.find? (·.name == s)

end ParameterKind

end Blockwork
