/-!
# `Blockwork.CommandLine.Progress`: how far a run has come

Every stage of a run is announced by a line with a bar.
-/

namespace Blockwork.CommandLine

/-- The characters of the bar. -/
def barWidth : Nat := 14

/-- A bar for `step` of `total` steps; the filled part is rounded to the nearest character. -/
def bar (width step total : Nat) : String :=
  let filled := (step * width + total / 2) / total
  "[" ++ String.ofList ((List.range width).map fun i => if i < filled then '=' else '-') ++ "]"

example : bar 4 1 2 = "[==--]" ∧ bar 4 2 2 = "[====]" := by
  decide +kernel

/-- The line that announces a stage. -/
def progressLine (step total : Nat) (label : String) : String :=
  "[Generate] " ++ label ++ "... (" ++ toString step ++ "/" ++ toString total ++ ") " ++
    bar barWidth step total

end Blockwork.CommandLine
