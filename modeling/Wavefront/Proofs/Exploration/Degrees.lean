/-
# The out-degrees of a run

Each worker counts the out-degrees of the nodes that it expands, and the histograms of all workers
are folded together in the end. The result is the histogram of the out-degrees of all nodes
expanded. Which worker expanded which node, and in what order, leaves no trace in it.
-/

import Wavefront.Proofs.Exploration.Conclusion
import Wavefront.Proofs.Pool.Custody
import Wavefront.Proofs.Samples

namespace Wavefront

open History

variable {σ : Type}

/-! ## Shares -/

namespace Worker

variable {model : Model σ} {worker next : Worker σ} {shared after : Shared σ} {events : History σ}

/-- A worker has counted a list of samples. -/
def Counts (worker : Worker σ) (share : List Nat) : Prop :=
  ∃ name, worker.outDegree = .ofSamples name outDegreeBuckets share

/-- Whoever expands a node counts its successors, or breaks down. -/
theorem Turn.counts {share : List Nat} (turn : Turn model worker shared next after events)
    (counts : worker.Counts share) :
    ∃ fresh, after.expanded = fresh ++ shared.expanded ∧
      (next.stage.fault? ≠ none ∨ next.Counts (model.tally fresh ++ share)) := by
  have quiet {next : Worker σ} (same : next.outDegree = worker.outDegree) :
      ∃ fresh, shared.expanded = fresh ++ shared.expanded ∧
        (next.stage.fault? ≠ none ∨ next.Counts (model.tally fresh ++ share)) := by
    refine ⟨[], rfl, .inr ?_⟩
    rw [Counts, same]
    exact counts
  cases turn with
  | rests | heeds | idles | picks | concludes | meets | skips | sinks | publishes | strands
    | flushes | reports | latches | unwinds => exact quiet rfl
  | accesses => exact quiet (proceed_counts_eq _ _).2.1
  | records stage room placed =>
    cases placed with
    | keeps | seeks => exact quiet rfl
    | stows holding stowed => exact quiet stowed.counts_eq.2.1
  | claims stage stowed => exact quiet stowed.counts_eq.2.1
  | fails stage failed =>
    refine ⟨[_], rfl, .inr ?_⟩
    rw [Model.tally_of_error failed]
    exact counts
  | overflows => exact ⟨[_], rfl, .inl (Option.some_ne_none _)⟩
  | @expands node states degrees stage computed counted =>
    obtain ⟨name, made⟩ := counts
    refine ⟨[_], rfl, .inr ⟨name, ?_⟩⟩
    rw [Model.tally_of_ok computed]
    refine Histogram.eq_of_addAll_ofSamples ?_
    rw [made] at counted
    simp only [Histogram.addAll, counted]

end Worker

/-- The out-degrees of nodes are those of their states. -/
theorem Model.tally_perm (model : Model σ) {first second : List (Node σ)}
    (same : (first.map Node.state).Perm (second.map Node.state)) :
    (model.tally first).Perm (model.tally second) := by
  have states (nodes : List (Node σ)) :
      model.tally nodes = (nodes.map Node.state).filterMap model.outDegree? := by
    rw [List.filterMap_map]
    rfl
  rw [states, states]
  exact same.filterMap _

namespace Pool

variable {model : Model σ} {initial : List σ} {place : Location} {done : List σ}
  {past events : History σ} {pool : Pool σ} {position : Nat} {worker next : Worker σ}
  {shared : Shared σ} {launch : Exploration.Launch σ}

/-- The nodes that were expanded have been counted, each by one worker, unless somebody has broken
down. -/
def Shares (model : Model σ) (pool : Pool σ) : Prop :=
  (∃ worker ∈ pool.workers, worker.stage.fault? ≠ none) ∨
    ∃ shares, List.Forall₂ Worker.Counts pool.workers shares ∧
      shares.flatten.Perm (model.tally pool.shared.expanded)

theorem Shares.step (found : pool.workers[position]? = some worker)
    (turn : worker.Turn model pool.shared next shared events) (shares : pool.Shares model) :
    Shares model ⟨pool.workers.set position next, shared⟩ := by
  rcases shares with ⟨other, among, breaks⟩ | ⟨shares, pairs, all⟩
  · rcases mem_set_of_mem found among with rfl | still
    · exact .inl ⟨next, mem_set_self found, turn.fault?_ne_none breaks⟩
    · exact .inl ⟨other, still, breaks⟩
  have related := rel_getElem? pairs position
  rw [found] at related
  rcases here : shares[position]? with _ | share
  · rw [here] at related
    cases related
  rw [here] at related
  cases related with
  | some counts =>
    obtain ⟨fresh, grown, breaks | later⟩ := turn.counts counts
    · exact .inl ⟨next, mem_set_self found, breaks⟩
    · refine .inr ⟨_, forall₂_set pairs later position, ?_⟩
      have before := (perm_cons_others here).flatten
      have now := (@set_perm_cons_others _ _ _ _ (model.tally fresh ++ share) here).flatten
      show List.Perm _ (model.tally shared.expanded)
      rw [grown, Model.tally_append]
      refine now.trans ?_
      rw [List.flatten_cons, List.append_assoc]
      exact (before.symm.trans all).append_left _

theorem Ready.shares (ready : Ready model initial place done past pool) : pool.Shares model := by
  refine .inr ⟨pool.workers.map fun _ => [], ?_, ?_⟩
  · rw [List.forall₂_map_right_iff, List.forall₂_same]
    intro worker member
    obtain ⟨name, empty⟩ := (ready.fresh worker member).outDegree
    exact ⟨name, empty.trans (Histogram.ofSamples_nil _ _).symm⟩
  · rw [ready.expanded]
    simp [Model.tally]

/-- What workers counted is folded together into the histogram of all of it, and no counter is
full. -/
theorem outDegree_summarize {workers : List (Worker σ)} {shares : List (List Nat)}
    {name : String} {share : List Nat} {summary total : Summary}
    (pairs : List.Forall₂ Worker.Counts workers shares)
    (begun : summary.outDegree = .ofSamples name outDegreeBuckets share)
    (few : share.length ≤ Histogram.counterMax)
    (summed : Exploration.summarize workers summary = .ok total) :
    total.outDegree = .ofSamples name outDegreeBuckets (share ++ shares.flatten) ∧
      (share ++ shares.flatten).length ≤ Histogram.counterMax := by
  induction pairs generalizing share summary with
  | nil =>
    obtain rfl := Except.ok.inj summed
    rw [List.flatten_nil, List.append_nil]
    exact ⟨begun, few⟩
  | @cons worker mine rest others counts pairs ih =>
    obtain ⟨label, made⟩ := counts
    unfold Exploration.summarize at summed
    rw [begun, made] at summed
    rcases merged : (Histogram.ofSamples name outDegreeBuckets share).merge
      (.ofSamples label outDegreeBuckets mine) with ⟨fault | ⟨⟩, degrees⟩
    · simp [merged] at summed
    · simp only [merged] at summed
      have room := Histogram.le_of_merge_eq_ok merged
      have folded := (Prod.mk.inj (merged.symm.trans (Histogram.merge_ofSamples room))).2
      rw [List.flatten_cons, ← List.append_assoc]
      exact ih folded (by rwa [List.length_append]) summed

/-- The summary of workers that have not broken down has the out-degrees of all nodes expanded, and
they could be counted. -/
theorem Shares.outDegree_summaryOf {summary : Summary} (shares : pool.Shares model)
    (whole : ∀ worker ∈ pool.workers, worker.stage.fault? = none)
    (counted : Exploration.summaryOf launch pool = .ok summary) :
    summary.outDegree =
        .ofSamples "out-degree" outDegreeBuckets (model.tally pool.shared.expanded) ∧
      (model.tally pool.shared.expanded).length ≤ Histogram.counterMax := by
  obtain ⟨each, pairs, all⟩ := shares.resolve_left fun ⟨worker, member, breaks⟩ =>
    breaks (whole worker member)
  have begun : Histogram.empty "out-degree" outDegreeBuckets =
      .ofSamples "out-degree" outDegreeBuckets [] := (Histogram.ofSamples_nil _ _).symm
  obtain ⟨total, few⟩ := outDegree_summarize pairs begun (Nat.zero_le _) counted
  rw [List.nil_append] at total few
  exact ⟨total.trans (Histogram.ofSamples_perm all), all.length_eq ▸ few⟩

end Pool

/-! ## Outcomes -/

namespace Exploration

variable {launch : Launch σ} {pool : Pool σ} {outcome : Outcome σ} {final : Disk}

/-- A run has an outcome only if nobody has broken down, the pages that waited are dropped, what the
workers counted can be added up and the first report is judged. -/
theorem exists_of_conclude (concluded : conclude launch pool = (.ok outcome, final)) :
    firstFault? pool.workers = none ∧ summaryOf launch pool = .ok outcome.summary ∧
      outcome.runDirectory = launch.runDirectory ∧
      ∃ dropped frontier emptied rest disk,
        pool.shared.frontier.discard pool.shared.disk = (.ok dropped, frontier, emptied) ∧
        judge pool.shared.report (logs pool.workers) emptied = (.ok outcome.verdict, rest, disk) ∧
        final = Log.flushAll rest disk := by
  unfold conclude at concluded
  cases first : firstFault? pool.workers with
  | some fault => simp [first] at concluded
  | none =>
    rcases discarded : pool.shared.frontier.discard pool.shared.disk with
      ⟨stop | dropped, frontier, emptied⟩
    · simp [first, discarded] at concluded
    · cases counted : summaryOf launch pool with
      | error fault => simp [first, discarded, counted] at concluded
      | ok summary =>
        rcases judged : judge pool.shared.report (logs pool.workers) emptied with
          ⟨failure | verdict, rest, disk⟩
        · simp [first, discarded, counted, judged, Except.mapError, Except.map] at concluded
        · simp only [first, discarded, counted, judged, Except.mapError, Except.map, Prod.mk.injEq,
            Except.ok.injEq] at concluded
          obtain ⟨rfl, rfl⟩ := concluded
          exact ⟨rfl, rfl, rfl, dropped, frontier, emptied, rest, disk, rfl, judged, rfl⟩

namespace Course

variable {model : Model σ} {initial : List σ} {seen : Seen}

/-- Along a schedule all workers come to their ends, and the run has an outcome. -/
structure Ends (course : Course model initial seen) (schedule : List Nat) (outcome : Outcome σ) :
    Prop where
  settled : (course.pool schedule).isSettled = true
  concluded : (conclude course.launch (course.pool schedule)).1 = .ok outcome

variable {course : Course model initial seen} {schedule : List Nat} {outcome : Outcome σ}

theorem Ends.conclude_eq (ends : course.Ends schedule outcome) :
    conclude course.launch (course.pool schedule) =
      (.ok outcome, (conclude course.launch (course.pool schedule)).2) :=
  Prod.ext ends.concluded rfl

/-- Nobody has broken down in a run that has an outcome. -/
theorem Ends.stopped (ends : course.Ends schedule outcome) : (course.pool schedule).Stopped :=
  Pool.stopped_of_isSettled ends.settled (exists_of_conclude ends.conclude_eq).1

theorem Ends.whole (ends : course.Ends schedule outcome) :
    ∀ worker ∈ (course.pool schedule).workers, worker.stage.fault? = none := by
  intro worker member
  rw [ends.stopped worker member]
  rfl

/-- The nodes that were expanded have been counted, each by one worker, all the time. -/
theorem shares (course : Course model initial seen) (schedule : List Nat) :
    (course.pool schedule).Shares model := by
  obtain ⟨place, done, -, ready⟩ := course.exists_ready
  exact @Pool.follow_induction _ model (fun _ pool => pool.Shares model)
    (fun found turn shares => shares.step found turn) course.opening _ ready.shares schedule

/-- The out-degrees in the summary of a run are those of all nodes expanded, and could all be
counted. -/
theorem Ends.outDegree_eq (ends : course.Ends schedule outcome) :
    outcome.summary.outDegree = .ofSamples "out-degree" outDegreeBuckets
        (model.tally (course.pool schedule).shared.expanded) ∧
      (model.tally (course.pool schedule).shared.expanded).length ≤ Histogram.counterMax :=
  (course.shares schedule).outDegree_summaryOf ends.whole (exists_of_conclude ends.conclude_eq).2.1

/-- Folding histograms together loses nothing. Make histograms with the same number of buckets in
any way: begin with empty ones, count samples, and fold one into another, in any order and however
nested; let the samples be fewer than a counter can count. Then no addition overflows, what is made
differs by its name at most from the histogram that has counted all the samples itself, in whatever
order, and in all that is made on the way the buckets hold as many samples as were observed.

So the out-degrees that a run ends with are those that a single histogram would have counted for the
nodes expanded, in whatever order. Two runs of any workers that have expanded the same states end
with the same out-degrees, whichever worker has expanded which. -/
theorem folded_as_counted_at_once (buckets : Nat) (making : Histogram.Making)
    (few : making.samples.length < 2 ^ 64) :
    (∀ name samples, samples.Perm making.samples → ∃ one,
      (Histogram.empty name buckets).addAll samples = (.ok (), one) ∧
      making.make buckets = .ok (one.rename making.name)) ∧
    (∀ part ∈ making.parts, ∃ histogram, part.make buckets = .ok histogram ∧
      histogram.buckets.sum = histogram.observations) ∧
    (∀ {course : Course model initial seen} {schedule : List Nat} {outcome : Outcome σ},
      course.Ends schedule outcome →
      ∀ samples, samples.Perm (model.tally (course.pool schedule).shared.expanded) →
        (Histogram.empty "out-degree" outDegreeBuckets).addAll samples =
          (.ok (), outcome.summary.outDegree)) ∧
    ∀ {course other : Course model initial seen} {schedule turns : List Nat}
      {outcome result : Outcome σ}, course.Ends schedule outcome → other.Ends turns result →
      ((course.pool schedule).shared.expanded.map Node.state).Perm
        ((other.pool turns).shared.expanded.map Node.state) →
      outcome.summary.outDegree = result.summary.outDegree := by
  have all : making.samples.length ≤ Histogram.counterMax := Nat.le_of_lt_succ few
  refine ⟨fun name samples same => ?_, fun part member => ?_, fun ends samples same => ?_,
    fun ends finishes same => ?_⟩
  · refine ⟨_, Histogram.addAll_empty (same.length_eq.trans_le all), ?_⟩
    rw [Histogram.Making.make_eq all, Histogram.ofSamples_perm same]
    rfl
  · have fewer := (Histogram.Making.length_le_of_mem_parts member).trans all
    exact ⟨_, Histogram.Making.make_eq fewer, (Histogram.consistent_ofSamples _ _ _).sum⟩
  · obtain ⟨degrees, counted⟩ := ends.outDegree_eq
    rw [Histogram.addAll_empty (same.length_eq.trans_le counted), degrees,
      Histogram.ofSamples_perm same]
  · rw [ends.outDegree_eq.1, finishes.outDegree_eq.1]
    exact Histogram.ofSamples_perm (model.tally_perm same)

/-- Three samples in two histograms, one of them as large as can be, folded into an empty one; and
two workers that explore a grid of four states by turns. -/
theorem folded_as_counted_at_once_of_two :
    let grid : CounterGrid := ⟨1, 1, none⟩
    let turns := (List.range 100).map (· % 2)
    let making : Histogram.Making := .folding (.fresh "all")
      (.folding (.counting (.counting (.fresh "one") 7) 1) (.counting (.fresh "two") (2 ^ 64 - 1)))
    making.make 3 = .ok ⟨"all", [0, 1, 2], 3, 2 ^ 64 - 1, 1, 2 ^ 64 - 1⟩ ∧
      (∀ part ∈ making.parts, ∃ histogram, part.make 3 = .ok histogram ∧
        histogram.buckets.sum = histogram.observations) ∧
      ∃ course : Course grid.model grid.initialStates .empty, ∃ outcome,
        course.Ends turns outcome ∧
        (Histogram.empty "out-degree" outDegreeBuckets).addAll [2, 1, 1, 0] =
          (.ok (), outcome.summary.outDegree) := by
  intro grid turns making
  let course := (onGrid grid).get (by decide +kernel)
  have settled : (course.pool turns).isSettled = true := by decide +kernel
  have succeeds : (conclude course.launch (course.pool turns)).1.isOk = true := by decide +kernel
  obtain ⟨whole, parts, runs, -⟩ := @folded_as_counted_at_once _ grid.model grid.initialStates
    .empty 3 making (by decide)
  obtain ⟨one, counted, made⟩ := whole "all" [7, 1, 2 ^ 64 - 1] (by decide)
  have same : one = ⟨"all", [0, 1, 2], 3, 2 ^ 64 - 1, 1, 2 ^ 64 - 1⟩ :=
    (congrArg Prod.snd counted).symm.trans (by decide +kernel)
  refine ⟨?_, parts, course, ?_⟩
  · rw [made, same]
    rfl
  · rcases concluded : (conclude course.launch (course.pool turns)).1 with stop | outcome
    · rw [concluded] at succeeds
      cases succeeds
    · have ends : course.Ends turns outcome := ⟨settled, concluded⟩
      exact ⟨outcome, ends, runs ends _ (by decide +kernel)⟩

end Course

end Exploration

end Wavefront
