/-
# What a histogram says of its samples

A histogram without a fault is determined by its samples, in whatever order they came: counting
one more sample and folding two histograms together both give the histogram of all the samples.
So it does not matter in which of several histograms a sample was counted, nor how those were
folded together afterwards.
-/

import Wavefront.Proofs.Histogram

namespace Wavefront.Histogram

section

variable {name other : String} {buckets sample : Nat} {first second samples : List Nat}

/-! ## Buckets -/

/-- The bucket, of so many, that a sample falls into. -/
def slot (buckets sample : Nat) : Nat := min sample (max buckets 1 - 1)

/-- The number of samples that fall into each of so many buckets. -/
def counts (buckets : Nat) (samples : List Nat) : List Nat :=
  (List.range (max buckets 1)).map fun index =>
    samples.countP fun sample => slot buckets sample = index

theorem slot_lt (buckets sample : Nat) : slot buckets sample < max buckets 1 := by
  unfold slot
  omega

@[simp]
theorem length_counts (buckets : Nat) (samples : List Nat) :
    (counts buckets samples).length = max buckets 1 := by
  simp [counts]

@[simp]
theorem counts_nil (buckets : Nat) : counts buckets [] = List.replicate (max buckets 1) 0 := by
  simp [counts]

theorem getElem?_counts {index : Nat} (within : index < max buckets 1) :
    (counts buckets samples)[index]? =
      some (samples.countP fun sample => slot buckets sample = index) := by
  rw [counts, List.getElem?_map, List.getElem?_range within, Option.map_some]

/-- One more sample is one more in its bucket. -/
theorem counts_cons (buckets sample : Nat) (samples : List Nat) :
    counts buckets (sample :: samples) = (counts buckets samples).set (slot buckets sample)
      ((samples.countP fun other => slot buckets other = slot buckets sample) + 1) := by
  apply List.ext_getElem?
  intro index
  by_cases within : index < max buckets 1
  · rw [getElem?_counts within, List.countP_cons]
    by_cases here : slot buckets sample = index
    · subst here
      rw [List.getElem?_set_self (by rw [length_counts]; exact within)]
      simp
    · rw [List.getElem?_set_ne here, getElem?_counts within]
      simp [here]
  · rw [List.getElem?_eq_none (by rw [length_counts]; omega),
      List.getElem?_eq_none (by rw [List.length_set, length_counts]; omega)]

/-- The samples of two lists are counted together. -/
theorem counts_append (buckets : Nat) (first second : List Nat) :
    counts buckets (first ++ second) =
      List.zipWith (· + ·) (counts buckets first) (counts buckets second) := by
  simp only [counts, List.countP_append, List.zipWith_map, List.zipWith_self]

/-- The order of the samples does not matter. -/
theorem counts_perm (same : first.Perm second) : counts buckets first = counts buckets second := by
  simp only [counts, same.countP_eq]

/-- Every sample falls into one bucket. -/
@[simp]
theorem sum_counts (buckets : Nat) (samples : List Nat) :
    (counts buckets samples).sum = samples.length := by
  induction samples with
  | nil => simp
  | cons sample rest ih =>
    have found := @getElem?_counts buckets rest _ (slot_lt buckets sample)
    have before := (perm_cons_others found).sum_eq
    rw [counts_cons, (set_perm_cons_others found).sum_eq, List.sum_cons, List.length_cons, ← ih,
      before, List.sum_cons]
    omega

/-- Buckets are added one by one, as long as no sum is too large. -/
theorem addBuckets_eq {mine theirs : List Nat} (alike : mine.length = theirs.length)
    (room : mine.sum + theirs.sum ≤ counterMax) :
    addBuckets mine theirs = (.ok (), List.zipWith (· + ·) mine theirs) := by
  induction mine generalizing theirs with
  | nil => rfl
  | cons first mores ih =>
    cases theirs with
    | nil => cases alike
    | cons second rest =>
      simp only [List.sum_cons] at room
      have small : addCounters first second = .ok (first + second) := addCounters_of_le (by omega)
      simp only [addBuckets, small, ih (Nat.succ.inj alike) (by omega), List.zipWith_cons_cons]

/-! ## Least and greatest -/

theorem foldr_min_le (samples : List Nat) : samples.foldr min counterMax ≤ counterMax := by
  induction samples with
  | nil => exact Nat.le_refl _
  | cons sample rest ih => exact (Nat.min_le_right _ _).trans ih

/-- The least of all samples is the lesser of the least of each list. -/
theorem foldr_min_append (first second : List Nat) :
    (first ++ second).foldr min counterMax =
      min (first.foldr min counterMax) (second.foldr min counterMax) := by
  induction first with
  | nil => exact (Nat.min_eq_right (foldr_min_le second)).symm
  | cons sample rest ih =>
    rw [List.cons_append, List.foldr_cons, ih, List.foldr_cons, Nat.min_assoc]

/-- The greatest of all samples is the greater of the greatest of each list. -/
theorem foldr_max_append (first second : List Nat) :
    (first ++ second).foldr max 0 = max (first.foldr max 0) (second.foldr max 0) := by
  induction first with
  | nil => exact (Nat.zero_max _).symm
  | cons sample rest ih =>
    rw [List.cons_append, List.foldr_cons, ih, List.foldr_cons, Nat.max_assoc]

/-! ## The histogram of some samples -/

/-- The histogram that some samples make. -/
def ofSamples (name : String) (buckets : Nat) (samples : List Nat) : Histogram where
  name := name
  buckets := counts buckets samples
  observations := samples.length
  sum := min samples.sum counterMax
  least := samples.foldr min counterMax
  greatest := samples.foldr max 0

theorem ofSamples_nil (name : String) (buckets : Nat) :
    ofSamples name buckets [] = empty name buckets := by
  rw [ofSamples, counts_nil]
  rfl

/-- The buckets hold all the samples. -/
theorem consistent_ofSamples (name : String) (buckets : Nat) (samples : List Nat) :
    (ofSamples name buckets samples).Consistent := by
  refine ⟨fun none => ?_, sum_counts buckets samples⟩
  have length := length_counts buckets samples
  rw [show counts buckets samples = [] from none, List.length_nil] at length
  omega

/-- The order of the samples does not matter. -/
theorem ofSamples_perm (same : first.Perm second) :
    ofSamples name buckets first = ofSamples name buckets second := by
  unfold ofSamples
  rw [counts_perm same, same.length_eq, same.sum_eq, same.foldr_eq, same.foldr_eq]

/-- One more sample makes the histogram of one more sample. -/
theorem add_ofSamples (room : samples.length < counterMax) :
    (ofSamples name buckets samples).add sample =
      (.ok (), ofSamples name buckets (sample :: samples)) := by
  have index : min sample ((counts buckets samples).length - 1) = slot buckets sample := by
    rw [length_counts, slot]
  have found := @getElem?_counts buckets samples _ (slot_lt buckets sample)
  have less := (perm_cons_others found).sum_eq
  rw [sum_counts, List.sum_cons] at less
  unfold add
  simp only [ofSamples, index]
  rw [List.getD_eq_getElem?_getD, found, Option.getD_some, addCounters_of_le (by omega),
    addCounters_of_le (by omega)]
  simp only [Prod.mk.injEq, true_and, Histogram.mk.injEq]
  refine ⟨(counts_cons buckets sample samples).symm, List.length_cons.symm, ?_, ?_, ?_⟩
  · rw [addSaturating, List.sum_cons]
    omega
  · exact Nat.min_comm _ _
  · exact Nat.max_comm _ _

/-- Samples that are counted one after the other make the histogram of them all. -/
theorem addAll_ofSamples (room : first.length + second.length ≤ counterMax) :
    (ofSamples name buckets first).addAll second =
      (.ok (), ofSamples name buckets (second ++ first)) := by
  induction second generalizing first with
  | nil => rfl
  | cons sample rest ih =>
    rw [List.length_cons] at room
    have later := @ih (sample :: first) (by rw [List.length_cons]; omega)
    simp only [addAll, add_ofSamples (show first.length < counterMax by omega), later]
    rw [ofSamples_perm List.perm_middle, List.cons_append]

theorem addAll_empty (room : samples.length ≤ counterMax) :
    (empty name buckets).addAll samples = (.ok (), ofSamples name buckets samples) := by
  have counted := @addAll_ofSamples name buckets [] samples (by simpa using room)
  rwa [ofSamples_nil, List.append_nil] at counted

/-- Samples are counted in a histogram or refused. -/
theorem eq_of_addAll_ofSamples {next : Histogram}
    (counted : (ofSamples name buckets first).addAll second = (.ok (), next)) :
    next = ofSamples name buckets (second ++ first) := by
  induction second generalizing first with
  | nil => exact (congrArg Prod.snd counted).symm
  | cons sample rest ih =>
    by_cases room : first.length < counterMax
    · simp only [addAll, add_ofSamples room] at counted
      rw [ih counted, ofSamples_perm List.perm_middle, List.cons_append]
    · -- A full histogram refuses every sample.
      have refused {later : Histogram} :
          (ofSamples name buckets first).add sample ≠ (.ok (), later) := by
        intro added
        have regular : addCounters first.length 1 = .error .additionOverflow :=
          if_neg (by omega)
        unfold add at added
        simp only [ofSamples, regular] at added
        split at added <;> cases added
      rcases added : (ofSamples name buckets first).add sample with ⟨fault | ⟨⟩, later⟩
      · simp only [addAll, added, Prod.mk.injEq, reduceCtorEq, false_and] at counted
      · exact absurd added refused

/-- Two histograms that are folded together make the histogram of the samples of both. -/
theorem merge_ofSamples (room : first.length + second.length ≤ counterMax) :
    (ofSamples name buckets first).merge (ofSamples other buckets second) =
      (.ok (), ofSamples name buckets (first ++ second)) := by
  have widened : counts buckets first ++
      List.replicate ((counts buckets second).length - (counts buckets first).length) 0 =
        counts buckets first := by
    simp
  have added := @addBuckets_eq (counts buckets first) (counts buckets second) (by simp)
    (by simpa using room)
  unfold merge
  simp only [ofSamples, widened, added, addCounters_of_le room]
  simp only [Prod.mk.injEq, true_and, Histogram.mk.injEq]
  refine ⟨(counts_append buckets first second).symm, List.length_append.symm, ?_,
    (foldr_min_append first second).symm, (foldr_max_append first second).symm⟩
  rw [addSaturating, List.sum_append]
  omega

/-- More samples than can be counted cannot be folded together. -/
theorem le_of_merge_eq_ok {merged : Histogram}
    (done : (ofSamples name buckets first).merge (ofSamples other buckets second) =
      (.ok (), merged)) : first.length + second.length ≤ counterMax := by
  by_contra many
  unfold merge at done
  simp only [ofSamples] at done
  split at done
  · cases done
  · rw [addCounters, if_neg many] at done
    cases done

end

/-! ## Folding histograms in any order -/

/-- A way to make a histogram: begin with an empty one, count samples, and fold in histograms that
were made in the same way. -/
inductive Making where
  | fresh (name : String)
  | counting (making : Making) (sample : Nat)
  | folding (making other : Making)

namespace Making

/-- The histogram that is made, with so many buckets, unless a counter is full. -/
def make (buckets : Nat) : Making → Except Fault Histogram
  | fresh name => .ok (empty name buckets)
  | counting making sample => do
      let made ← making.make buckets
      match made.add sample with
      | (.error fault, _) => .error fault
      | (.ok (), histogram) => .ok histogram
  | folding making other => do
      let made ← making.make buckets
      let folded ← other.make buckets
      match made.merge folded with
      | (.error fault, _) => .error fault
      | (.ok (), histogram) => .ok histogram

/-- The name of the histogram that is made. -/
def name : Making → String
  | fresh name => name
  | counting making _ => making.name
  | folding making _ => making.name

/-- The samples that are counted somewhere. -/
def samples : Making → List Nat
  | fresh _ => []
  | counting making sample => sample :: making.samples
  | folding making other => making.samples ++ other.samples

/-- All that is made on the way, the histogram itself included. -/
def parts : Making → List Making
  | fresh name => [fresh name]
  | counting making sample => counting making sample :: making.parts
  | folding making other => folding making other :: (making.parts ++ other.parts)

variable {buckets : Nat} {making part : Making}

/-- As long as all samples can be counted, what is made is the histogram of the samples. -/
theorem make_eq (room : making.samples.length ≤ counterMax) :
    making.make buckets = .ok (ofSamples making.name buckets making.samples) := by
  induction making with
  | fresh label => exact congrArg Except.ok (ofSamples_nil label buckets).symm
  | counting making sample ih =>
    rw [samples, List.length_cons] at room
    simp only [make, ih (by omega), bind, Except.bind, add_ofSamples room, name, samples]
  | folding making other mine theirs =>
    rw [samples, List.length_append] at room
    simp only [make, mine (by omega), theirs (by omega), bind, Except.bind, merge_ofSamples room,
      name, samples]

/-- What is made on the way has no more samples. -/
theorem length_le_of_mem_parts (member : part ∈ making.parts) :
    part.samples.length ≤ making.samples.length := by
  induction making with
  | fresh label => rw [List.mem_singleton.mp member]
  | counting making sample ih =>
    rcases List.mem_cons.mp member with rfl | within
    · exact Nat.le_refl _
    · rw [samples, List.length_cons]
      exact (ih within).trans (Nat.le_succ _)
  | folding making other mine theirs =>
    rw [samples, List.length_append]
    rcases List.mem_cons.mp member with rfl | within
    · rw [samples, List.length_append]
    · rcases List.mem_append.mp within with left | right
      · exact (mine left).trans (Nat.le_add_right _ _)
      · exact (theirs right).trans (Nat.le_add_left _ _)

end Making

end Wavefront.Histogram
