/-
# Pages kept in memory

A finite map from page numbers to pages. A page is taken at most once, and its
number must not be present when it is put; putting it nevertheless is a fault, by
which time the new page has already replaced the old one.
-/

import Std.Data.ExtTreeMap
import Wavefront.Page

namespace Wavefront

/-- The pages that wait in memory. -/
structure Memory (σ : Type) where
  pages : Std.ExtTreeMap PageId (Page σ)

namespace Memory

variable {σ : Type}

/-- A memory without pages. -/
def empty : Memory σ := ⟨∅⟩

/-- Keep a page until it is taken. -/
def put (memory : Memory σ) (page : Page σ) : Except Fault Unit × Memory σ :=
  (if memory.pages.contains page.id then .error (.enqueuedTwice page.id) else .ok (),
    ⟨memory.pages.insert page.id page⟩)

/-- Take a page out, if it is there. -/
def take (memory : Memory σ) (id : PageId) : Option (Page σ) × Memory σ :=
  (memory.pages[id]?, ⟨memory.pages.erase id⟩)

/-- The number of pages. -/
def resident (memory : Memory σ) : Nat := memory.pages.size

/-- Drop every page; the answer is how many there were. -/
def clear (memory : Memory σ) : Nat × Memory σ := (memory.resident, empty)

end Memory

end Wavefront
