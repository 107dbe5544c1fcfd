/-
# Summary of a run

What a run counted, over all its workers.
-/

import Wavefront.Histogram

namespace Wavefront

/-- The number of buckets of a histogram of out-degrees. -/
def outDegreeBuckets : Nat := 32

/-- What a run counted. -/
structure Summary where
  /-- Successors computed and initial states, duplicates included. -/
  statesGenerated : Nat
  /-- Distinct states reached, initial states included. -/
  distinctStates : Nat
  /-- The deepest level reached. -/
  maxLevel : UInt32
  outDegree : Histogram
  workers : Nat

namespace Summary

/-- The summary of so many workers that have done nothing. -/
def empty (workers : Nat) : Summary := ⟨0, 0, 0, .empty "out-degree" outDegreeBuckets, workers⟩

/-- Two lines about a run. -/
def lines (summary : Summary) : Except Fault (List String) :=
  summary.outDegree.text.map fun degrees =>
    [toString summary.statesGenerated ++ " states generated, " ++
      toString summary.distinctStates ++ " distinct states found, depth " ++
      toString summary.maxLevel.toNat ++ " (" ++ toString summary.workers ++ " workers)", degrees]

/-- The lines as one text. -/
def text (summary : Summary) : Except Fault String := summary.lines.map ("\n".intercalate ·)

end Summary

end Wavefront
