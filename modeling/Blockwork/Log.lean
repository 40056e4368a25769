/-!
# `Blockwork.Log`: messages about what was done

Operations that have something to report answer the messages beside their result.
-/

namespace Blockwork

/-- How important a message is. -/
inductive Severity where
  | debug | info | warn
  deriving DecidableEq, Repr

/-- The name of a severity. -/
def Severity.name : Severity → String
  | .debug => "debug"
  | .info => "info"
  | .warn => "warn"

/-- A message. -/
structure LogEntry where
  severity : Severity
  message : String
  deriving DecidableEq, Repr

end Blockwork
