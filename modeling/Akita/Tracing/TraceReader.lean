import Akita.Tracing.TraceWriter
import Mathlib.Data.Rat.Init

/-!
# Trace readers

The queries of `tracing.TraceReader`.
-/

namespace Akita.Tracing

/-- A field that is empty selects nothing. -/
structure TaskQuery where
  id : String := ""
  parentID : String := ""
  kind : String := ""
  location : String := ""
  enableTimeRange : Bool := false
  startTime : ℚ := 0
  endTime : ℚ := 0
  enableParentTask : Bool := false

/-- A task of a trace, with its parent where that was asked for. -/
structure ListedTask extends Task ℚ where
  parentTask : Option (Task ℚ) := none
  deriving DecidableEq

end Akita.Tracing
