import Blockwork.Source.BlockLine

/-!
# `Blockwork.Source.Label`: the short text on a block

A block shows its line without the final colon. A print block always shows its message in double
quotes, and a range block leaves out a step of one.
-/

namespace Blockwork

namespace Source

/-- `cs` without a colon at its end. -/
def dropColon (cs : List Char) : List Char :=
  if cs.getLast? = some ':' then cs.dropLast else cs

/-- Whether a character is a quotation mark. -/
def isQuote (c : Char) : Bool :=
  c == '"' || c == '\''

/-- `cs` without one quotation mark at its beginning. -/
def dropQuote : List Char → List Char
  | [] => []
  | c :: cs => if isQuote c then cs else c :: cs

/-- `cs` without one quotation mark at its beginning and one at its end. -/
def unquote (cs : List Char) : List Char :=
  (dropQuote (dropQuote cs).reverse).reverse

end Source

namespace Block

/-- The label of a print block. -/
def printLabel (b : Block) : String :=
  "print(\"" ++ String.ofList (Source.unquote (b.parameterText "message").toList) ++ "\")"

/-- The label of a range block. -/
def rangeLabel (b : Block) : String :=
  let step := b.parameterText "step"
  b.parameterText "variable" ++ " = range(" ++ b.parameterText "start" ++ ", " ++
    b.parameterText "stop" ++ (if step = "1" then ")" else ", " ++ step ++ ")")

/-- The text shown on the block. -/
def label (b : Block) : String :=
  if b.definition.val.id = "print" then b.printLabel
  else if b.definition.val.id = "range" then b.rangeLabel
  else String.ofList (Source.dropColon b.line.toList)

end Block

end Blockwork
