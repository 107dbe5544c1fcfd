/-
# Counting with histograms

The buckets of a histogram hold as many samples as it says it has observed. Adding a sample
and merging two histograms preserve this, and neither fails before the largest counter is
reached.
-/

import Wavefront.Histogram
import Wavefront.Proofs.Parties

namespace Wavefront.Histogram

variable {histogram next other : Histogram} {sample : Nat} {fault : Fault}

/-- There is a bucket, and the buckets hold all samples. -/
structure Consistent (histogram : Histogram) : Prop where
  nonempty : histogram.buckets ≠ []
  sum : histogram.buckets.sum = histogram.observations

theorem consistent_empty (name : String) (buckets : Nat) : (empty name buckets).Consistent := by
  constructor
  · simp [empty]
  · simp [empty]

theorem addCounters_of_le {a b : Nat} (small : a + b ≤ counterMax) :
    addCounters a b = .ok (a + b) :=
  if_pos small

/-- Every sample has a bucket, which holds no more samples than all buckets together. -/
theorem Consistent.exists_bucket (consistent : histogram.Consistent) (sample : Nat) :
    ∃ bucket, histogram.buckets[min sample (histogram.buckets.length - 1)]? = some bucket ∧
      histogram.buckets.getD (min sample (histogram.buckets.length - 1)) 0 = bucket ∧
      bucket ≤ histogram.observations := by
  have some := List.length_pos_iff.mpr consistent.nonempty
  have within : min sample (histogram.buckets.length - 1) < histogram.buckets.length := by omega
  have found := List.getElem?_eq_getElem within
  have total := (perm_cons_others found).sum_eq
  rw [consistent.sum, List.sum_cons] at total
  refine ⟨_, found, ?_, by omega⟩
  rw [List.getD_eq_getElem?_getD, found, Option.getD_some]

/-- One more sample is counted once. -/
theorem add_eq_ok (consistent : histogram.Consistent)
    (added : histogram.add sample = (.ok (), next)) :
    next.Consistent ∧ next.observations = histogram.observations + 1 := by
  obtain ⟨bucket, found, slot, less⟩ := consistent.exists_bucket sample
  unfold add at added
  dsimp only at added
  rw [slot] at added
  by_cases room : histogram.observations + 1 ≤ counterMax
  · rw [addCounters_of_le room, addCounters_of_le (by omega)] at added
    simp only [Prod.mk.injEq, true_and] at added
    subst added
    have before := (perm_cons_others found).sum_eq
    have after := (@set_perm_cons_others _ _ _ _ (bucket + 1) found).sum_eq
    have same := consistent.sum
    rw [List.sum_cons] at before after
    refine ⟨⟨?_, ?_⟩, rfl⟩
    · simpa using consistent.nonempty
    · show (histogram.buckets.set _ (bucket + 1)).sum = histogram.observations + 1
      omega
  · have full : ∀ total, addCounters histogram.observations 1 ≠ .ok total := by
      intro total
      rw [addCounters, if_neg room]
      simp
    cases counted : addCounters bucket 1 with
    | error fault => simp [counted] at added
    | ok count =>
      cases total : addCounters histogram.observations 1 with
      | error fault => simp [counted, total] at added
      | ok observations => exact absurd total (full _)

/-- A sample is refused only by a histogram that has as many as can be counted. -/
theorem counterMax_le_of_add_eq_error (consistent : histogram.Consistent)
    (added : histogram.add sample = (.error fault, next)) :
    counterMax ≤ histogram.observations := by
  by_contra small
  obtain ⟨bucket, -, slot, less⟩ := consistent.exists_bucket sample
  unfold add at added
  dsimp only at added
  rw [slot, addCounters_of_le (by omega : histogram.observations + 1 ≤ counterMax),
    addCounters_of_le (by omega : bucket + 1 ≤ counterMax)] at added
  simp at added

/-! ## Merging -/

/-- Buckets are added one by one, as long as no sum is too large. -/
theorem addBuckets_of_le {mine theirs : List Nat} (short : theirs.length ≤ mine.length)
    (room : mine.sum + theirs.sum ≤ counterMax) :
    ∃ sums, addBuckets mine theirs = (.ok (), sums) ∧ sums.sum = mine.sum + theirs.sum ∧
      sums.length = mine.length := by
  induction mine generalizing theirs with
  | nil =>
    obtain rfl := List.length_eq_zero_iff.mp (Nat.le_zero.mp short)
    exact ⟨[], rfl, rfl, rfl⟩
  | cons first mores ih =>
    cases theirs with
    | nil => exact ⟨first :: mores, rfl, rfl, rfl⟩
    | cons second rest =>
      simp only [List.sum_cons] at room
      obtain ⟨sums, added, total, length⟩ :=
        @ih rest (by simpa using short) (by omega)
      have small : addCounters first second = .ok (first + second) := addCounters_of_le (by omega)
      refine ⟨(first + second) :: sums, ?_, ?_, ?_⟩
      · simp only [addBuckets, small, added]
      · simp only [List.sum_cons, total]
        omega
      · simp [length]

/-- Merging loses no sample, as long as they can all be counted. -/
theorem merge_of_le (consistent : histogram.Consistent) (alike : other.Consistent)
    (room : histogram.observations + other.observations ≤ counterMax) :
    ∃ merged, histogram.merge other = (.ok (), merged) ∧ merged.Consistent ∧
      merged.observations = histogram.observations + other.observations := by
  have widened : (histogram.buckets ++
      List.replicate (other.buckets.length - histogram.buckets.length) 0).sum =
      histogram.observations := by
    simp [consistent.sum]
  obtain ⟨sums, added, total, length⟩ := @addBuckets_of_le
    (histogram.buckets ++ List.replicate (other.buckets.length - histogram.buckets.length) 0)
    other.buckets (by simp; omega) (by rw [widened, alike.sum]; exact room)
  refine ⟨{ histogram with
    buckets := sums
    observations := histogram.observations + other.observations
    sum := addSaturating histogram.sum other.sum
    least := min histogram.least other.least
    greatest := max histogram.greatest other.greatest }, ?_, ⟨?_, ?_⟩, rfl⟩
  · simp only [merge, added, addCounters_of_le room]
  · intro (none : sums = [])
    have empty := List.length_pos_iff.mpr consistent.nonempty
    simp only [none, List.length_nil, List.length_append] at length
    omega
  · simp only [total, widened, alike.sum]

/-! ## Counting one sample after the other -/

/-- Samples are counted in order. -/
theorem addAll_append {samples : List Nat} (counted : histogram.addAll samples = (.ok (), next))
    (sample : Nat) : histogram.addAll (samples ++ [sample]) = next.add sample := by
  induction samples generalizing histogram with
  | nil =>
    obtain rfl : histogram = next := congrArg Prod.snd counted
    rcases added : histogram.add sample with ⟨fault | ⟨⟩, last⟩ <;> simp [addAll, added]
  | cons first rest ih =>
    rcases added : histogram.add first with ⟨fault | ⟨⟩, second⟩
    · simp [addAll, added] at counted
    · simp only [addAll, added] at counted
      simp only [List.cons_append, addAll, added]
      exact ih counted

/-- What is known of a histogram with so many buckets, and that counts up to the largest counter. -/
structure Regular (buckets : Nat) (histogram : Histogram) : Prop where
  consistent : histogram.Consistent
  length : histogram.buckets.length = buckets
  sum : histogram.sum ≤ counterMax
  least : histogram.least ≤ counterMax
  observations : histogram.observations ≤ counterMax

theorem regular_empty (name : String) (buckets : Nat) :
    (empty name buckets).Regular (max buckets 1) where
  consistent := consistent_empty name buckets
  length := List.length_replicate
  sum := Nat.zero_le _
  least := Nat.le_refl _
  observations := Nat.zero_le _

theorem Regular.add {buckets : Nat} (regular : histogram.Regular buckets)
    (added : histogram.add sample = (.ok (), next)) : next.Regular buckets := by
  have consistent := (add_eq_ok regular.consistent added).1
  unfold Histogram.add at added
  dsimp only at added
  split at added
  · cases added
  · split at added
    · cases added
    · rename_i total counted
      simp only [Prod.mk.injEq, true_and] at added
      subst added
      refine ⟨consistent, ?_, Nat.min_le_right _ _, ?_, ?_⟩
      · rw [List.length_set]
        exact regular.length
      · exact Nat.le_trans (Nat.min_le_left _ _) regular.least
      · unfold addCounters at counted
        split at counted
        · rename_i room
          obtain rfl := Except.ok.inj counted
          exact room
        · cases counted

/-- All samples are counted, and the histogram stays regular. -/
theorem Regular.addAll {buckets : Nat} {samples : List Nat} (regular : histogram.Regular buckets)
    (counted : histogram.addAll samples = (.ok (), next)) :
    next.Regular buckets ∧ next.observations = histogram.observations + samples.length := by
  induction samples generalizing histogram with
  | nil =>
    obtain rfl : histogram = next := congrArg Prod.snd counted
    exact ⟨regular, rfl⟩
  | cons first rest ih =>
    rcases added : histogram.add first with ⟨fault | ⟨⟩, second⟩
    · simp [Histogram.addAll, added] at counted
    · simp only [Histogram.addAll, added] at counted
      obtain ⟨later, total⟩ := ih (regular.add added) counted
      have one := (add_eq_ok regular.consistent added).2
      refine ⟨later, ?_⟩
      rw [total, one, List.length_cons]
      omega

/-- A histogram under another name. -/
def rename (histogram : Histogram) (name : String) : Histogram := { histogram with name := name }

/-- The name does not matter for what is counted. -/
theorem add_rename (histogram : Histogram) (name : String) (sample : Nat) :
    (histogram.rename name).add sample =
      ((histogram.add sample).1, (histogram.add sample).2.rename name) := by
  unfold Histogram.add rename
  dsimp only
  cases addCounters (histogram.buckets.getD (min sample (histogram.buckets.length - 1)) 0) 1 with
  | error fault => rfl
  | ok bucket => cases addCounters histogram.observations 1 <;> rfl

theorem addAll_rename (histogram : Histogram) (name : String) (samples : List Nat) :
    (histogram.rename name).addAll samples =
      ((histogram.addAll samples).1, (histogram.addAll samples).2.rename name) := by
  induction samples generalizing histogram with
  | nil => rfl
  | cons first rest ih =>
    rw [Histogram.addAll, Histogram.addAll, add_rename]
    rcases histogram.add first with ⟨fault | ⟨⟩, second⟩
    · rfl
    · exact ih second

/-- Adding buckets to empty ones gives them back. -/
theorem addBuckets_replicate {theirs : List Nat} (room : theirs.sum ≤ counterMax) :
    addBuckets (List.replicate theirs.length 0) theirs = (.ok (), theirs) := by
  induction theirs with
  | nil => rfl
  | cons first rest ih =>
    rw [List.sum_cons] at room
    have small : addCounters 0 first = .ok first := by
      rw [addCounters_of_le (by omega), Nat.zero_add]
    simp only [List.length_cons, List.replicate_succ, addBuckets, small, ih (by omega)]

/-- Folding a histogram into an empty one with as many buckets gives it another name only. -/
theorem merge_empty {name : String} {buckets : Nat} (regular : other.Regular (max buckets 1)) :
    (empty name buckets).merge other = (.ok (), other.rename name) := by
  have widened : List.replicate (max buckets 1) 0 ++
      List.replicate (other.buckets.length - (List.replicate (max buckets 1) 0).length) 0 =
        List.replicate other.buckets.length 0 := by
    rw [List.length_replicate, regular.length, Nat.sub_self, List.replicate_zero, List.append_nil]
  have folded := addBuckets_replicate (regular.consistent.sum.trans_le regular.observations)
  have total : addCounters 0 other.observations = .ok other.observations := by
    rw [addCounters_of_le (by have := regular.observations; omega), Nat.zero_add]
  simp only [merge, empty, widened, folded, total, rename]
  rw [addSaturating, Nat.zero_add, Nat.min_eq_left regular.sum, Nat.min_eq_right regular.least,
    Nat.zero_max]

/-! ## Saying what was counted -/

end Wavefront.Histogram
