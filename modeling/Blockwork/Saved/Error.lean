import Blockwork.Json.Basic
import Blockwork.Number.Layout
import Blockwork.Text.Quoted
import Blockwork.Time.Reader

/-!
# `Blockwork.Saved.Error`: why a saved text cannot be taken over

Either the text is no JSON, or it is JSON of the wrong shape. A wrong shape is named by what was
found and what was expected.

## Contents
- `Found`, what stands at a place, and `Json.found?`.
- `Mismatch` with its `message`.
- `DecodeError` with its `message`, `Decode` and `Json.refuse`.
-/

namespace Blockwork

/-! ## What was found -/

/-- What stands at a place of a tree. -/
inductive Found where
  | bool (b : Bool)
  | integer (n : Int)
  | real (x : Binary64)
  | text (s : String)
  | null
  | sequence
  | map

/-- The name of what was found. -/
def Found.describe : Found → String
  | bool b => "boolean `" ++ (if b then "true" else "false") ++ "`"
  | integer n => "integer `" ++ toString n ++ "`"
  | real x => "floating point `" ++ Layout.saved.write x ++ "`"
  | text s => "string " ++ Text.quote s
  | null => "null"
  | sequence => "sequence"
  | map => "map"

/-- What stands at the root of a tree; none if it cannot be read. -/
def Json.found? : Json → Option Found
  | null => some .null
  | bool b => some (.bool b)
  | number (.natural n) => some (.integer n)
  | number (.negative n) => some (.integer (-(n : Int)))
  | number (.real x) => some (.real x)
  | text s => some (.text s)
  | array _ => some .sequence
  | object _ => some .map
  | unreadable => none
  | broken => none

/-! ## Wrong shapes -/

/-- What is wrong with a tree. -/
inductive Mismatch where
  | wrongType (found : Found) (expected : String)
  | missingField (name : String)
  | duplicateField (name : String)
  | unknownVariant (name : String) (known : List String)
  | invalidLength (length : Nat) (expected : String)
  /-- an enumeration value given as an object that has not exactly one key -/
  | notSingleKey
  /-- a parameter value that is no truth value, number or text -/
  | noValue
  | unknownBlock (id : String)
  | badTimestamp (error : TimestampError)

/-- The text of a mismatch. -/
def Mismatch.message : Mismatch → String
  | wrongType found expected => "invalid type: " ++ found.describe ++ ", expected " ++ expected
  | missingField name => "missing field `" ++ name ++ "`"
  | duplicateField name => "duplicate field `" ++ name ++ "`"
  | unknownVariant name known =>
    "unknown variant `" ++ name ++ "`, expected one of " ++
      ", ".intercalate (known.map fun k => "`" ++ k ++ "`")
  | invalidLength length expected =>
    "invalid length " ++ toString length ++ ", expected " ++ expected
  | notSingleKey => "invalid value: map, expected map with a single key"
  | noValue => "data did not match any variant of untagged enum ParamValue"
  | unknownBlock id => "unknown block '" ++ id ++ "'"
  | badTimestamp error => error.message

/-! ## Decoding -/

/-- Why a text is refused. -/
inductive DecodeError where
  /-- the text is no JSON -/
  | malformed
  | mismatch (m : Mismatch)

/-- What is reported about a text that is refused. -/
def DecodeError.message : DecodeError → String
  | malformed => "Invalid JSON"
  | mismatch m => "Invalid JSON: " ++ m.message

/-- A value taken from a tree, or why there is none. -/
abbrev Decode := Except DecodeError

/-- Refuses a tree of the wrong type. -/
def Json.refuse {α : Type} (j : Json) (expected : String) : Decode α :=
  match j.found? with
  | some found => .error (.mismatch (.wrongType found expected))
  | none => .error .malformed

/-- Refuses for a given reason. -/
def Mismatch.fail {α : Type} (m : Mismatch) : Decode α :=
  .error (.mismatch m)

end Blockwork
