/-
# The first error of a run

The first report of an error decides how a run ends. Later reports are dropped.
-/

import Wavefront.Node

namespace Wavefront

/-- An error, and the node that was being expanded when it happened, if one was. -/
structure Report (σ : Type) where
  node : Option (Node σ)
  cause : Failure

namespace Report

variable {σ : Type}

/-- Publish a report. It is kept only if it is the first; the answer says whether it is. -/
def publish (kept : Option (Report σ)) (report : Report σ) : Bool × Option (Report σ) :=
  match kept with
  | none => (true, some report)
  | some _ => (false, kept)

end Report

end Wavefront
