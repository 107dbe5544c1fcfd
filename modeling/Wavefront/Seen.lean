/-
# States seen before

The fingerprints that have been met so far. Of all who ask about a fingerprint
exactly the first is told that it is new.
-/

import Std.Data.ExtTreeSet
import Wavefront.Identity

namespace Wavefront

/-- The fingerprints met so far. -/
structure Seen where
  fingerprints : Std.ExtTreeSet Fingerprint

namespace Seen

/-- No fingerprint has been met. -/
def empty : Seen := ⟨∅⟩

/-- Whether a fingerprint has been met. -/
def contains (seen : Seen) (fingerprint : Fingerprint) : Bool :=
  seen.fingerprints.contains fingerprint

/-- Remember a fingerprint. -/
def insert (seen : Seen) (fingerprint : Fingerprint) : Seen :=
  ⟨seen.fingerprints.insert fingerprint⟩

/-- Remember a fingerprint, and tell whether it is new. -/
def meet (seen : Seen) (fingerprint : Fingerprint) : Bool × Seen :=
  (!seen.contains fingerprint, seen.insert fingerprint)

/-- The number of fingerprints met. -/
def size (seen : Seen) : Nat := seen.fingerprints.size

/-- The fingerprints of a list, and no others. -/
def ofList (fingerprints : List Fingerprint) : Seen := fingerprints.foldl insert empty

@[simp]
theorem contains_empty (fingerprint : Fingerprint) : empty.contains fingerprint = false := by
  simp [contains, empty]

@[simp]
theorem contains_insert (seen : Seen) (added fingerprint : Fingerprint) :
    (seen.insert added).contains fingerprint =
      (added == fingerprint || seen.contains fingerprint) := by
  simp only [contains, insert, Std.ExtTreeSet.contains_insert]
  congr 1
  rw [Bool.eq_iff_iff]
  simp

theorem size_insert (seen : Seen) (added : Fingerprint) :
    (seen.insert added).size = if seen.contains added then seen.size else seen.size + 1 := by
  cases known : seen.contains added with
  | true => simp_all [size, insert, contains, Std.ExtTreeSet.size_insert]
  | false => simp_all [size, insert, contains, Std.ExtTreeSet.size_insert]

end Seen

end Wavefront
