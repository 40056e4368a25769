import Blockwork.Catalog.Definition

/-!
# `Blockwork.Catalog.Builtin`: the block library

The thirty types of blocks, in the order in which the library lists them. A block always refers to
an `Entry`, a definition together with the fact that it is in the library.

## Contents
- `Catalog.builtin`, and `Catalog.ids_nodup`: its ids are distinct.
- `Entry`, `Catalog.lookup` with `id_of_lookup`, `Catalog.entry`, `Catalog.comment`.
- `Catalog.categories` and `Catalog.inCategory`.
-/

namespace Blockwork

namespace Catalog

/-- A text parameter with a default. -/
def text (name default : String) : Parameter :=
  ⟨name, .text, some default⟩

/-- The library. A brace in a template is written by its code. -/
def builtin : List Definition :=
  [
    ⟨"import", .import, "Libraries", "Import Library",
      "import \x7blibrary\x7d\x7balias\x7d",
      [text "library" "math", text "alias" ""]⟩,
    ⟨"variable", .variable, "Variables", "Create Variable",
      "\x7bname\x7d = \x7bvalue\x7d",
      [text "name" "my_var", text "value" "0"]⟩,
    ⟨"print", .output, "Output", "Print",
      "print(\x7bmessage\x7d)",
      [text "message" "Hello, World!"]⟩,
    ⟨"if", .control, "Control", "If Statement",
      "if \x7bcondition\x7d:",
      [text "condition" "True"]⟩,
    ⟨"elif", .control, "Control", "Elif Statement",
      "elif \x7bcondition\x7d:",
      [text "condition" "True"]⟩,
    ⟨"else", .control, "Control", "Else Statement",
      "else:",
      []⟩,
    ⟨"for", .control, "Control", "For Loop",
      "for \x7bvariable\x7d in \x7brange\x7d:",
      [text "variable" "i", text "range" "range(5)"]⟩,
    ⟨"while", .control, "Control", "While Loop",
      "while \x7bcondition\x7d:",
      [text "condition" "True"]⟩,
    ⟨"function", .function, "Functions", "Define Function",
      "def \x7bname\x7d(\x7bparams\x7d):",
      [text "name" "my_function", text "params" ""]⟩,
    ⟨"class", .class, "Classes", "Define Class",
      "class \x7bname\x7d\x7bparent\x7d:",
      [text "name" "MyClass", text "parent" ""]⟩,
    ⟨"method", .method, "Classes", "Define Method",
      "def \x7bname\x7d(\x7bparams\x7d):",
      [text "name" "__init__", text "params" "self"]⟩,
    ⟨"attribute", .attribute, "Classes", "Set Attribute",
      "\x7bobject\x7d.\x7bname\x7d = \x7bvalue\x7d",
      [text "object" "self", text "name" "attribute", text "value" "None"]⟩,
    ⟨"instantiate", .instantiate, "Classes", "Create Instance",
      "\x7bvariable\x7d = \x7bclass_name\x7d(\x7bargs\x7d)",
      [text "variable" "obj", text "class_name" "MyClass", text "args" ""]⟩,
    ⟨"method_call", .methodCall, "Classes", "Call Method",
      "\x7bobject\x7d.\x7bmethod\x7d(\x7bargs\x7d)",
      [text "object" "obj", text "method" "method_name", text "args" ""]⟩,
    ⟨"match", .control, "Control", "Match Statement",
      "match \x7bvalue\x7d:",
      [text "value" "variable"]⟩,
    ⟨"case", .control, "Control", "Case",
      "case \x7bpattern\x7d:",
      [text "pattern" "1"]⟩,
    ⟨"case_default", .control, "Control", "Case Default",
      "case _:",
      []⟩,
    ⟨"try", .control, "Error Handling", "Try Block",
      "try:",
      []⟩,
    ⟨"except", .control, "Error Handling", "Except Block",
      "except \x7bexception\x7d\x7bvariable\x7d:",
      [text "exception" "Exception", text "variable" ""]⟩,
    ⟨"finally", .control, "Error Handling", "Finally Block",
      "finally:",
      []⟩,
    ⟨"raise", .control, "Error Handling", "Raise Exception",
      "raise \x7bexception\x7d",
      [text "exception" "ValueError(\"Error message\")"]⟩,
    ⟨"return", .control, "Functions", "Return Value",
      "return \x7bvalue\x7d",
      [text "value" "None"]⟩,
    ⟨"break", .control, "Control", "Break Loop",
      "break",
      []⟩,
    ⟨"continue", .control, "Control", "Continue Loop",
      "continue",
      []⟩,
    ⟨"input", .input, "Input/Output", "Get Input",
      "\x7bvariable\x7d = input(\"\x7bprompt\x7d\")",
      [text "variable" "user_input", text "prompt" "Enter value: "]⟩,
    ⟨"list", .data, "Data Structures", "Create List",
      "\x7bname\x7d = [\x7bitems\x7d]",
      [text "name" "my_list", text "items" "1, 2, 3"]⟩,
    ⟨"dict", .data, "Data Structures", "Create Dictionary",
      "\x7bname\x7d = \x7b\x7bitems\x7d\x7d",
      [text "name" "my_dict", text "items" "\"key\": \"value\""]⟩,
    ⟨"comment", .documentation, "Documentation", "Add Comment",
      "# \x7btext\x7d",
      [text "text" "This is a comment"]⟩,
    ⟨"len", .builtin, "Built-in Functions", "Get Length",
      "\x7bvariable\x7d = len(\x7bobject\x7d)",
      [text "variable" "result", text "object" "my_list"]⟩,
    ⟨"range", .builtin, "Built-in Functions", "Create Range",
      "\x7bvariable\x7d = range(\x7bstart\x7d, \x7bstop\x7d, \x7bstep\x7d)",
      [text "variable" "numbers", text "start" "0", text "stop" "10", text "step" "1"]⟩
  ]

/-- No two types share an id. -/
theorem ids_nodup : (builtin.map Definition.id).Nodup := by
  decide

end Catalog

/-! ## Entries -/

/-- A definition of the library. -/
abbrev Entry : Type :=
  { d : Definition // d ∈ Catalog.builtin }

namespace Catalog

/-- The library as entries. -/
def entries : List Entry :=
  builtin.attach

/-- The entry with a given id. -/
def lookup (id : String) : Option Entry :=
  entries.find? (·.val.id == id)

/-- The entry with an id that is in the library. -/
def entry (id : String) (present : (lookup id).isSome = true := by decide) : Entry :=
  (lookup id).get present

/-- The entry for a comment, under which a line that says nothing known is kept. -/
def comment : Entry :=
  entry "comment"

theorem id_of_lookup {id : String} {e : Entry} (h : lookup id = some e) : e.val.id = id := by
  have := List.find?_some h
  simpa using this

theorem id_entry {id : String} (present : (lookup id).isSome = true) :
    (entry id present).val.id = id :=
  id_of_lookup (Option.some_get present).symm

/-- The categories, each once, in the order in which they first appear. -/
def categories : List String :=
  builtin.foldl (fun seen d => if seen.contains d.category then seen else seen ++ [d.category]) []

/-- The entries of a category. -/
def inCategory (category : String) : List Entry :=
  entries.filter (·.val.category == category)

end Catalog

end Blockwork
