/-
# What lies in the directory of a run

A run touches two kinds of files: the logs of its workers, and page files. So when it has ended with
an outcome and the pages that waited were dropped, its directory holds the logs and nothing else.
They have a record for each of the states that the run counts as distinct.
-/

import Mathlib.Algebra.BigOperators.Ring.List
import Mathlib.Algebra.Ring.Nat
import Wavefront.Proofs.Exploration.Degrees
import Wavefront.Proofs.Exploration.Exactness
import Wavefront.Proofs.Exploration.Isolation

namespace Wavefront

open History

variable {σ : Type}

namespace Exploration

variable {settings : Settings} {process number : Nat} {disk prepared : Disk} {directory : Path}
  {place target : Location}

namespace Course

variable {model : Model σ} {initial : List σ} {seen : Seen} {course : Course model initial seen}
  {schedule : List Nat} {outcome : Outcome σ}

end Course

end Exploration

end Wavefront
