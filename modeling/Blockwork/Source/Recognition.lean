import Blockwork.Catalog.Builtin
import Blockwork.Source.Pattern
import Blockwork.Text.Word

/-!
# `Blockwork.Source.Recognition`: which block a line stands for

Each rule says how the lines of one type of block look and which of their parts are parameters of
the block. The first rule that a line fits decides, so the order of the rules matters: a special
assignment comes before the general one.

## Contents
- Classes of characters, and sequences that occur in several rules.
- `Rule` and `rules`.
- `recognise?`, the block and the parameter values of a line.
-/

namespace Blockwork.Source

/-! ## Classes of characters -/

/-- Every character but a line feed. -/
def isInline (c : Char) : Bool :=
  c != '\n'

/-- Every character but some. -/
def isNone (excluded : List Char) (c : Char) : Bool :=
  !excluded.contains c

/-- The characters of a dotted name. -/
def isDotted (c : Char) : Bool :=
  Text.isWord c || c == '.'

/-! ## Common sequences -/

namespace Pattern

/-- A fixed text. -/
def text (s : String) : Pattern :=
  [.word s.toList]

/-- Blanks, or none. -/
def gap : Pattern :=
  [.many Text.isBlank]

/-- At least one character of a class, as many as possible. -/
def run (p : Char → Bool) : Pattern :=
  [.one p, .many p]

/-- At least one character of a class, as few as possible. -/
def shortRun (p : Char → Bool) : Pattern :=
  [.one p, .few p]

/-- At least one blank. -/
def space : Pattern :=
  run Text.isBlank

/-- A parameter. -/
def parameter (name : String) (inner : Pattern) : Pattern :=
  [.named name inner]

/-- A parameter that is a single word. -/
def identifier (name : String) : Pattern :=
  parameter name (run Text.isWord)

/-- A parameter that is any text. -/
def anything (name : String) : Pattern :=
  parameter name [.many isInline]

/-- A parameter that is any text but an empty one. -/
def something (name : String) : Pattern :=
  parameter name (run isInline)

/-- A sequence that may be missing. -/
def perhaps (inner : Pattern) : Pattern :=
  [.optional inner]

/-- A word being assigned to, and the equals sign. -/
def assigned (name : String) : Pattern :=
  identifier name ++ gap ++ text "=" ++ gap

/-- A value after an equals sign; a second equals sign would make it a comparison. -/
def assignedValue (name : String) : Pattern :=
  parameter name [.one (isNone ['=']), .many isInline]

/-- One of several arguments: no commas and no parentheses. -/
def argument (name : String) : Pattern :=
  parameter name (run (isNone [',', '(', ')']))

/-- The comma between two arguments. -/
def comma : Pattern :=
  text "," ++ gap

/-- A second name after `as`. -/
def renamed (name : String) : Pattern :=
  space ++ text "as" ++ space ++ identifier name

/-- A keyword, something after it, and the colon that opens a suite. -/
def suite (keyword name : String) : Pattern :=
  text keyword ++ space ++ something name ++ text ":"

/-- A keyword on its own and the colon that opens a suite. -/
def bareSuite (keyword : String) : Pattern :=
  text keyword ++ gap ++ text ":"

end Pattern

/-! ## Rules -/

/-- How the lines of a type of block look. -/
structure Rule where
  block : Entry
  pattern : Pattern

open Pattern in
/-- The rules, the first that fits being the one that counts. -/
def rules : List Rule :=
  [
    ⟨Catalog.entry "import",
      text "import" ++ space ++ parameter "library" (run isDotted) ++ perhaps (renamed "alias")⟩,
    ⟨Catalog.entry "import",
      text "from" ++ space ++ parameter "library" (run isDotted) ++ space ++ text "import" ++
        space ++ run isInline⟩,
    ⟨Catalog.entry "class",
      text "class" ++ space ++ identifier "name" ++
        perhaps (text "(" ++ parameter "parent" [.many (isNone [')'])] ++ text ")") ++ gap ++
        text ":"⟩,
    ⟨Catalog.entry "function",
      text "def" ++ space ++ identifier "name" ++ gap ++ text "(" ++
        parameter "params" [.many (isNone [')'])] ++ text ")" ++ gap ++
        perhaps (text "->" ++ gap ++ run (isNone [':'])) ++ text ":"⟩,
    ⟨Catalog.entry "if", suite "if" "condition"⟩,
    ⟨Catalog.entry "elif", suite "elif" "condition"⟩,
    ⟨Catalog.entry "else", bareSuite "else"⟩,
    ⟨Catalog.entry "for",
      text "for" ++ space ++ parameter "variable" (shortRun isInline) ++ space ++ text "in" ++
        space ++ something "range" ++ text ":"⟩,
    ⟨Catalog.entry "while", suite "while" "condition"⟩,
    ⟨Catalog.entry "match", suite "match" "value"⟩,
    ⟨Catalog.entry "case_default", text "case" ++ space ++ text "_" ++ gap ++ text ":"⟩,
    ⟨Catalog.entry "case", suite "case" "pattern"⟩,
    ⟨Catalog.entry "try", bareSuite "try"⟩,
    ⟨Catalog.entry "except",
      text "except" ++ perhaps (space ++ parameter "exception" (shortRun (isNone [':']))) ++
        perhaps (renamed "variable") ++ gap ++ text ":"⟩,
    ⟨Catalog.entry "finally", bareSuite "finally"⟩,
    ⟨Catalog.entry "raise", text "raise" ++ space ++ something "exception"⟩,
    ⟨Catalog.entry "return", text "return" ++ perhaps (space ++ something "value")⟩,
    ⟨Catalog.entry "break", text "break"⟩,
    ⟨Catalog.entry "continue", text "continue"⟩,
    ⟨Catalog.entry "print", text "print(" ++ anything "message" ++ text ")"⟩,
    ⟨Catalog.comment, text "#" ++ perhaps [.one Text.isBlank] ++ anything "text"⟩,
    ⟨Catalog.entry "input",
      assigned "variable" ++ text "input(\"" ++ anything "prompt" ++ text "\")"⟩,
    ⟨Catalog.entry "len", assigned "variable" ++ text "len(" ++ something "object" ++ text ")"⟩,
    ⟨Catalog.entry "range",
      assigned "variable" ++ text "range(" ++ argument "start" ++ comma ++ argument "stop" ++
        comma ++ argument "step" ++ text ")"⟩,
    ⟨Catalog.entry "range",
      assigned "variable" ++ text "range(" ++ argument "start" ++ comma ++ argument "stop" ++
        text ")"⟩,
    ⟨Catalog.entry "list", assigned "name" ++ text "[" ++ anything "items" ++ text "]"⟩,
    ⟨Catalog.entry "dict", assigned "name" ++ text "\x7b" ++ anything "items" ++ text "\x7d"⟩,
    ⟨Catalog.entry "instantiate",
      assigned "variable" ++ parameter "class_name" [.one Char.isUpper, .many Text.isWord] ++
        text "(" ++ anything "args" ++ text ")"⟩,
    ⟨Catalog.entry "attribute",
      identifier "object" ++ text "." ++ assigned "name" ++ assignedValue "value"⟩,
    ⟨Catalog.entry "variable", assigned "name" ++ assignedValue "value"⟩,
    ⟨Catalog.entry "method_call",
      identifier "object" ++ text "." ++ identifier "method" ++ text "(" ++ anything "args" ++
        text ")"⟩
  ]

/-! ## Recognition -/

/-- What a line says: a type of block and the values of its parameters. -/
structure Reading where
  block : Entry
  values : List (String × List Char)

/-- What a line says by one rule. -/
def Rule.reading? (rule : Rule) (line : List Char) : Option Reading :=
  (rule.pattern.parts? line).map fun values => ⟨rule.block, values⟩

/-- What a line says by the first rule that it fits. -/
def recognise? (line : List Char) : Option Reading :=
  rules.findSome? (·.reading? line)

end Blockwork.Source
