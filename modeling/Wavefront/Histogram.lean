/-
# Histograms of small numbers

A histogram counts samples in buckets, one for each value from 0 on; the last
bucket also takes whatever is larger. Number, sum, least and greatest are kept
exactly besides, but all counters are 64-bit words: a count past the end of its
range is a fault, and the sum stays at the largest word.
-/

import Wavefront.Failure
import Wavefront.Text.Decimal
import Wavefront.Text.Quoted

namespace Wavefront

/-- Samples counted by value. -/
structure Histogram where
  name : String
  buckets : List Nat
  observations : Nat
  sum : Nat
  /-- The least sample; the largest word while there is none. -/
  least : Nat
  greatest : Nat
deriving DecidableEq, Repr

namespace Histogram

/-- The largest value of a counter. -/
def counterMax : Nat := 0xffffffffffffffff

/-- A sum of counters, if it is one. -/
def addCounters (a b : Nat) : Except Fault Nat :=
  if a + b ≤ counterMax then .ok (a + b) else .error .additionOverflow

/-- A sum that stays at the largest counter. -/
def addSaturating (a b : Nat) : Nat := min (a + b) counterMax

/-- A histogram without samples. There is always at least one bucket. -/
def empty (name : String) (buckets : Nat) : Histogram where
  name := name
  buckets := List.replicate (max buckets 1) 0
  observations := 0
  sum := 0
  least := counterMax
  greatest := 0

/-- Count one sample. -/
def add (histogram : Histogram) (sample : Nat) : Except Fault Unit × Histogram :=
  let index := min sample (histogram.buckets.length - 1)
  match addCounters (histogram.buckets.getD index 0) 1 with
  | .error fault => (.error fault, histogram)
  | .ok bucket =>
      let histogram := { histogram with buckets := histogram.buckets.set index bucket }
      match addCounters histogram.observations 1 with
      | .error fault => (.error fault, histogram)
      | .ok observations =>
          (.ok (), { histogram with
            observations := observations
            sum := addSaturating histogram.sum sample
            least := min histogram.least sample
            greatest := max histogram.greatest sample })

/-- Count samples in order, up to the first that is too many. -/
def addAll (histogram : Histogram) : List Nat → Except Fault Unit × Histogram
  | [] => (.ok (), histogram)
  | sample :: rest =>
      match histogram.add sample with
      | (.error fault, histogram) => (.error fault, histogram)
      | (.ok (), histogram) => histogram.addAll rest

/-- Add buckets to buckets, up to the first sum that is too large. -/
def addBuckets : (mine theirs : List Nat) → Except Fault Unit × List Nat
  | [], _ => (.ok (), [])
  | mine, [] => (.ok (), mine)
  | mine :: mores, theirs :: rest =>
      match addCounters mine theirs with
      | .error fault => (.error fault, mine :: mores)
      | .ok bucket =>
          let (result, buckets) := addBuckets mores rest
          (result, bucket :: buckets)

/-- Fold another histogram into this one. -/
def merge (histogram other : Histogram) : Except Fault Unit × Histogram :=
  let missing := other.buckets.length - histogram.buckets.length
  let widened := histogram.buckets ++ List.replicate missing 0
  match addBuckets widened other.buckets with
  | (.error fault, buckets) => (.error fault, { histogram with buckets := buckets })
  | (.ok (), buckets) =>
      let histogram := { histogram with buckets := buckets }
      match addCounters histogram.observations other.observations with
      | .error fault => (.error fault, histogram)
      | .ok observations =>
          (.ok (), { histogram with
            observations := observations
            sum := addSaturating histogram.sum other.sum
            least := min histogram.least other.least
            greatest := max histogram.greatest other.greatest })

/-- The least sample. -/
def least? (histogram : Histogram) : Option Nat :=
  if histogram.observations = 0 then none else some histogram.least

/-- The greatest sample. -/
def greatest? (histogram : Histogram) : Option Nat :=
  if histogram.observations = 0 then none else some histogram.greatest

/-- The mean of the samples. -/
def mean? (histogram : Histogram) : Option Float :=
  if histogram.observations = 0 then none
  else some ((UInt64.ofNat histogram.sum).toFloat / (UInt64.ofNat histogram.observations).toFloat)

/-- The number of samples that make up a fraction of all, at least one. -/
def quota (observations : Nat) (fraction : Float) : Nat :=
  let clamped := if fraction < 0.0 then 0.0 else if fraction > 1.0 then 1.0 else fraction
  let wanted := ((UInt64.ofNat observations).toFloat * clamped).ceil
  if wanted > 1.0 then wanted.toUInt64.toNat else 1

/-- The first bucket at or below which so many samples fall; the last if there are
fewer. The running count is a counter like any other. -/
def bucketOf (target : Nat) : (value below : Nat) → List Nat → Except Fault Nat
  | value, _, [] => .ok (value - 1)
  | value, below, count :: rest =>
      match addCounters below count with
      | .error fault => .error fault
      | .ok below => if target ≤ below then .ok value else bucketOf target (value + 1) below rest

/-- The least bucket at or below which a fraction of the samples falls. -/
def percentile (histogram : Histogram) (fraction : Float) : Except Fault (Option Nat) :=
  if histogram.observations = 0 then .ok none
  else (bucketOf (quota histogram.observations fraction) 0 0 histogram.buckets).map some

/-- The percentile of one half. -/
def median (histogram : Histogram) : Except Fault (Option Nat) := histogram.percentile 0.5

/-- One line about the samples. -/
def text (histogram : Histogram) : Except Fault String := do
  match histogram.least?, histogram.greatest?, histogram.mean?, ← histogram.median with
  | some least, some greatest, some mean, some median =>
      return histogram.name ++ ": min " ++ toString least ++ " max " ++ toString greatest ++
        " mean " ++ Text.twoPlaces mean ++ " median " ++ toString median ++ " (" ++
        toString histogram.observations ++ " samples)"
  | _, _, _, _ => return histogram.name ++ ": no samples"

/-- All that a histogram holds, under the names of a record. -/
def details (histogram : Histogram) : String :=
  "BucketStatistics \x7b name: " ++ Text.quote histogram.name ++ ", buckets: [" ++
    ", ".intercalate (histogram.buckets.map toString) ++ "], observations: " ++
    toString histogram.observations ++ ", sum: " ++ toString histogram.sum ++ ", min: " ++
    toString histogram.least ++ ", max: " ++ toString histogram.greatest ++ " \x7d"

end Histogram

end Wavefront
