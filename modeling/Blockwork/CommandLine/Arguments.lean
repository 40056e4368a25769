import Blockwork.Forest.Serial

/-!
# `Blockwork.CommandLine.Arguments`: what the command line asks for

An argument that begins with two dashes names an option; an option's value follows it, or stands
behind an equals sign. All others are the input and the output. A value is only looked at once the
next option or position begins, so an unknown option is reported before a bad value in front of it.

## Contents
- `Arguments`.
- `UsageError`.
- `Slot` and `Flag`, the options by what they take.
- `Draft`, arguments read so far, with `settle`, `begin`, `give` and `finish`.
- `Arguments.parse`.
-/

namespace Blockwork

/-- What a run is to do. -/
structure Arguments where
  /-- The project, bundle or source to load. -/
  input : String
  /-- Where the source is written; it is printed if this is not given. -/
  output : Option String := none
  /-- Whether the input is source whatever its name. -/
  fromPython : Bool := false
  /-- Commands to be applied before anything is written. -/
  apply : Option String := none
  /-- Where the project is saved. -/
  emitProject : Option String := none
  /-- Whether the output is a bundle whatever its name. -/
  bundle : Bool := false
  /-- Whether statistics are printed. -/
  stats : Bool := false
  /-- Spaces per level of the source. -/
  indentWidth : Nat := 4
  deriving DecidableEq, Repr

/-- Why a command line is not understood; `help` is no error but ends the reading too. -/
inductive UsageError where
  | unknownArgument (argument : String)
  | missingInput
  | missingValue
  | badNumber (value : String)
  | repeated
  | unexpectedValue
  | help
  deriving DecidableEq, Repr

namespace CommandLine

/-! ## Options -/

/-- What takes a value. -/
inductive Slot where
  | input | output | apply | emitProject | indentWidth
  deriving DecidableEq, Repr

/-- What takes no value. -/
inductive Flag where
  | fromPython | bundle | stats | help
  deriving DecidableEq, Repr

/-- The option of a name without its dashes. -/
def option? : String → Option (Slot ⊕ Flag)
  | "apply" => some (.inl .apply)
  | "emit-project" => some (.inl .emitProject)
  | "indent-width" => some (.inl .indentWidth)
  | "from-python" => some (.inr .fromPython)
  | "bundle" => some (.inr .bundle)
  | "stats" => some (.inr .stats)
  | "help" => some (.inr .help)
  | _ => none

/-! ## Arguments read so far -/

/-- Arguments read so far. -/
structure Draft where
  values : List (Slot × String) := []
  flags : List Flag := []
  width : Nat := 4
  /-- What was begun and not looked at yet, with its value if that was given. -/
  pending : Option (Slot × Option String) := none
  /-- How many positions are taken. -/
  positions : Nat := 0

namespace Draft

/-- Takes a value. A number is digits with an optional plus sign and fits into 64 bits; a path is
not empty. -/
def accept (d : Draft) (slot : Slot) (value : String) : Except UsageError Draft :=
  if d.values.any (·.1 == slot) then .error .repeated
  else
    let d := { d with values := d.values ++ [(slot, value)] }
    if slot = .indentWidth then
      match Serial.parseSerial? value.toList with
      | some n => .ok { d with width := n.toNat }
      | none => .error (.badNumber value)
    else if value.isEmpty then .error .missingValue
    else .ok d

/-- Looks at what was begun. -/
def settle (d : Draft) : Except UsageError Draft :=
  match d.pending with
  | none => .ok d
  | some (_, none) => .error .missingValue
  | some (slot, some value) => { d with pending := none }.accept slot value

/-- Takes an option that has no value. -/
def raise (d : Draft) (flag : Flag) : Except UsageError Draft := do
  let d ← d.settle
  if flag = .help then throw .help
  else if flag ∈ d.flags then throw .repeated
  else return { d with flags := d.flags ++ [flag] }

/-- Takes an option by its name, with the value behind its equals sign. -/
def option (d : Draft) (argument name : String) (value : Option String) : Except UsageError Draft :=
  match option? name, value with
  | none, _ => .error (.unknownArgument argument)
  | some (.inl slot), some value => do (← d.settle).accept slot value
  | some (.inl slot), none => do return { ← d.settle with pending := some (slot, none) }
  | some (.inr _), some _ => .error .unexpectedValue
  | some (.inr flag), none => d.raise flag

/-- Takes the value of what was begun, or else the next position. -/
def give (d : Draft) (value : String) : Except UsageError Draft :=
  let place (slot : Slot) : Except UsageError Draft := do
    return { ← d.settle with pending := some (slot, some value), positions := d.positions + 1 }
  match d.positions with
  | 0 => place .input
  | 1 => place .output
  | _ => .error (.unknownArgument value)

/-- The value of a slot. -/
def value? (d : Draft) (slot : Slot) : Option String :=
  (d.values.find? (·.1 == slot)).map Prod.snd

/-- What all arguments ask for. -/
def finish (d : Draft) : Except UsageError Arguments := do
  let d ← d.settle
  match d.value? .input with
  | none => throw .missingInput
  | some input =>
    return {
      input
      output := d.value? .output
      fromPython := .fromPython ∈ d.flags
      apply := d.value? .apply
      emitProject := d.value? .emitProject
      bundle := .bundle ∈ d.flags
      stats := .stats ∈ d.flags
      indentWidth := d.width }

end Draft

/-! ## Reading -/

/-- How an argument is meant. -/
inductive Shape where
  /-- Two dashes: all that follows are positions. -/
  | divider
  | long (name : String) (value : Option String)
  /-- One dash and a letter. -/
  | short (first : Char)
  | plain

/-- The shape of an argument. -/
def shapeOf (argument : String) : Shape :=
  match argument.toList with
  | '-' :: '-' :: [] => .divider
  | '-' :: '-' :: cs =>
    let name := String.ofList (cs.takeWhile (· != '='))
    match cs.dropWhile (· != '=') with
    | [] => .long name none
    | _ :: value => .long name (some (String.ofList value))
  | '-' :: c :: _ => .short c
  | _ => .plain

/-- Takes one argument before a divider. -/
def takeArgument (d : Draft) (argument : String) : Except UsageError Draft :=
  match shapeOf argument with
  | .long name value => d.option argument name value
  | .short 'h' => d.raise .help
  | .short _ => .error (.unknownArgument argument)
  | _ =>
    match d.pending with
    | some (slot, none) => .ok { d with pending := some (slot, some argument) }
    | _ => d.give argument

/-- Takes all arguments. -/
def takeArguments (d : Draft) : List String → Except UsageError Draft
  | [] => .ok d
  | argument :: arguments => do
    match shapeOf argument with
    | .divider => arguments.foldlM Draft.give d
    | _ => takeArguments (← takeArgument d argument) arguments

end CommandLine

/-- What a command line asks for. -/
def Arguments.parse (arguments : List String) : Except UsageError Arguments := do
  (← CommandLine.takeArguments {} arguments).finish

end Blockwork
