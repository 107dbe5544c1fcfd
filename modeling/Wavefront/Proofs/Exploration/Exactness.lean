/-
# Exploration is exact

A run that comes to its end without being hindered tells the truth. If it is complete, then
the states expanded are the reachable ones, each of them once, and the summary counts them.
If it is not, then the model has raised the error for a reachable state. So a run is complete
exactly if no reachable state fails, whatever the order in which the workers have worked.

The argument is that of a closure: when all workers have stopped and nothing was reported,
every node recorded was expanded, and every successor of one of them has the fingerprint of a
node recorded; since no two reachable states share one, it is the state of that node.
-/

import Wavefront.Proofs.Exploration.Acceptance
import Wavefront.Proofs.Exploration.Conclusion

namespace Wavefront

open History Trace

variable {σ : Type}

/-- No two states that can be reached have the same fingerprint. -/
def Model.Distinguishes (model : Model σ) (initial : List σ) : Prop :=
  ∀ state other, model.Reachable initial state → model.Reachable initial other →
    model.fingerprint state = model.fingerprint other → state = other

/-- The model finds a violation in a state, or cannot compute its successors. -/
def Model.Fails (model : Model σ) (state : σ) : Prop :=
  ∃ cause, model.successors state = .error (.failure cause) ∧ cause.isOfModel = true

namespace Pool

variable {model : Model σ} {initial : List σ} {place : Location} {past : History σ} {pool : Pool σ}
  {launch : Exploration.Launch σ}

/-! ## Pools that have stopped -/

namespace Stopped

/-- Workers that have stopped are about to record nothing. -/
theorem met_eq (stopped : pool.Stopped) : pool.workers.flatMap (·.stage.met) = [] := by
  apply List.flatMap_eq_nil_iff.mpr
  intro worker member
  rw [stopped worker member]
  rfl

/-- Without a report, there is no trouble when all workers have stopped. -/
theorem not_troubled (stopped : pool.Stopped) (quiet : pool.shared.report = none) :
    ¬ pool.Troubled := by
  rintro (reported | ⟨worker, member, trouble⟩)
  · simp [quiet] at reported
  · rw [stopped worker member] at trouble
    exact trouble

end Stopped

/-! ## Closure -/

/-- Every state that was expanded has successors, and all of them have been met. -/
theorem Surveyed.exists_successors {node : Node σ}
    (surveyed : Surveyed model initial place past pool)
    (stopped : pool.Stopped) (quiet : pool.shared.report = none)
    (member : node ∈ pool.shared.expanded) :
    ∃ states, model.successors node.state = .ok states ∧ ∀ state ∈ states,
      pool.shared.seen.contains (model.fingerprint state) = true := by
  rcases surveyed.covered node member with troubled | ⟨states, computed, each⟩
  · exact absurd troubled (stopped.not_troubled quiet)
  · refine ⟨states, computed, fun state among => ?_⟩
    rcases each state among with met | ⟨worker, there, remains⟩
    · exact met
    · rw [stopped worker there] at remains
      cases remains

section

variable (surveyed : Surveyed model initial place past pool) (stopped : pool.Stopped)
  (staffed : pool.workers ≠ []) (quiet : pool.shared.report = none)

include surveyed stopped staffed quiet

/-- Every node that was recorded was expanded. -/
theorem Surveyed.nodes_perm_expanded : (History.nodes past).Perm pool.shared.expanded := by
  have ended := surveyed.tail_of_stopped stopped staffed
  obtain drained | reported | ⟨worker, member, fault, broken⟩ := surveyed.accounted.finished ended
  · have enough : pool.shared.frontier.head ≤ (History.answered past).length := by
      rw [drained.answered.length_eq, List.length_range']
    obtain ⟨-, noneRefused, noneWaits, -⟩ := surveyed.coherent.sound.books.spent enough
    have nobody : pool.workers.flatMap Worker.nodes = [] := by
      apply List.flatMap_eq_nil_iff.mpr
      intro worker member
      have bare := drained.bare worker member
      simp [Worker.nodes, Worker.pages, stopped worker member, bare.held, bare.backlog]
    simpa [nobody, noneWaits, noneRefused] using surveyed.coherent.conserved.nodes
  · simp [quiet] at reported
  · cases (stopped worker member).symm.trans broken

variable (distinguishes : model.Distinguishes initial) (free : ¬ Hindered past pool)

include distinguishes free

/-- A reachable state that has been met was expanded. -/
theorem Surveyed.exists_expanded_of_contains {state : σ} (reachable : model.Reachable initial state)
    (met : pool.shared.seen.contains (model.fingerprint state) = true) :
    ∃ node ∈ pool.shared.expanded, node.state = state := by
  have lists := surveyed.lists.resolve_left free
  rw [lists.contains, prints, stopped.met_eq, List.append_nil, List.map_map] at met
  obtain ⟨node, member, same⟩ := List.mem_map.mp met
  have known := (surveyed.nodes_perm_expanded stopped staffed quiet).mem_iff.mp member
  exact ⟨node, known, distinguishes _ _ (surveyed.coherent.reachable node member) reachable same⟩

/-- The states expanded are those that can be reached. -/
theorem Surveyed.mem_expanded_iff (state : σ) :
    (∃ node ∈ pool.shared.expanded, node.state = state) ↔ model.Reachable initial state := by
  constructor
  · rintro ⟨node, member, rfl⟩
    exact surveyed.coherent.reachable node (surveyed.coherent.conserved.expanded_subset member)
  · intro reachable
    induction reachable with
    | @start state member =>
      exact surveyed.exists_expanded_of_contains stopped staffed quiet distinguishes free
        (.start member) (surveyed.begun state member)
    | @step state next states before computed member ih =>
      obtain ⟨node, among, rfl⟩ := ih
      obtain ⟨again, same, met⟩ := surveyed.exists_successors stopped quiet among
      obtain rfl := Except.ok.inj (computed.symm.trans same)
      exact surveyed.exists_expanded_of_contains stopped staffed quiet distinguishes free
        (.step before computed member) (met next member)

end

/-! ## Verdicts -/

/-- The nodes expanded are those of the reachable states, each of them once and with success, and
the summary counts them. -/
structure Exact (model : Model σ) (initial : List σ) (past : History σ) (pool : Pool σ)
    (summary : Summary) : Prop where
  states : ∀ state, (∃ node ∈ pool.shared.expanded, node.state = state) ↔
    model.Reachable initial state
  once : (pool.shared.expanded.map Node.state).Nodup
  succeeded : ∀ node ∈ pool.shared.expanded, ∃ states, model.successors node.state = .ok states
  distinct : summary.distinctStates = pool.shared.expanded.length
  observed : summary.outDegree.observations = pool.shared.expanded.length
  generated : summary.statesGenerated = initial.length + (model.tally pool.shared.expanded).sum
  bound : ∀ node ∈ History.nodes past, node.level ≤ summary.maxLevel
  reached : History.nodes past = [] ∧ summary.maxLevel = 0 ∨
    ∃ node ∈ History.nodes past, node.level = summary.maxLevel

/-- A failure of the model for a reachable state, with a trace that leads there. -/
structure Convicts (model : Model σ) (initial : List σ) (past : History σ) (node : Node σ)
    (cause : Failure) (trace : List Fingerprint) : Prop where
  reachable : model.Reachable initial node.state
  raised : model.successors node.state = .error (.failure cause)
  ofModel : cause.isOfModel = true
  traced : Traced model initial (recorded past) node trace

/-- What a run may end with. -/
inductive Concluded (model : Model σ) (initial : List σ) (past : History σ) (pool : Pool σ) :
    Except Stop (Outcome σ) → Prop where
  | complete {summary : Summary} {directory : Path}
      (exact : pool.Exact model initial past summary) :
      Concluded model initial past pool (.ok ⟨.complete, summary, directory⟩)
  | failed {node : Node σ} {cause : Failure} {trace : List Fingerprint} {summary : Summary}
      {directory : Path} (convicts : Convicts model initial past node cause trace) :
      Concluded model initial past pool (.ok ⟨.failed node cause trace, summary, directory⟩)
  | stopped {state : σ} {stop : Stop} (reachable : model.Reachable initial state)
      (raised : model.successors state = .error stop)
      (foreign : ∀ cause, stop = .failure cause → cause.isOfModel = false) :
      Concluded model initial past pool (.error stop)

/-- A summary of a run without a report is exact. -/
theorem Surveyed.exact {summary : Summary} (surveyed : Surveyed model initial place past pool)
    (stopped : pool.Stopped) (staffed : pool.workers ≠ []) (quiet : pool.shared.report = none)
    (distinguishes : model.Distinguishes initial) (free : ¬ Hindered past pool)
    (counts : launch.initialStates = initial.length)
    (summarizes : pool.Summarizes model launch past summary) :
    pool.Exact model initial past summary := by
  have all := surveyed.nodes_perm_expanded stopped staffed quiet
  have lists := surveyed.lists.resolve_left free
  have printed : pool.prints model past =
      ((History.nodes past).map Node.state).map model.fingerprint := by
    rw [prints, stopped.met_eq, List.append_nil]
  have succeeded : ∀ node ∈ pool.shared.expanded,
      ∃ states, model.successors node.state = .ok states := by
    intro node member
    obtain ⟨states, computed, -⟩ := surveyed.exists_successors stopped quiet member
    exact ⟨states, computed⟩
  constructor
  · exact surveyed.mem_expanded_iff stopped staffed quiet distinguishes free
  · rw [← (all.map Node.state).nodup_iff]
    exact (printed ▸ lists.nodup).of_map
  · exact succeeded
  · rw [summarizes.distinct, lists.size, printed, List.length_map, List.length_map, all.length_eq]
  · rw [summarizes.observed]
    exact Model.length_tally_eq succeeded
  · rw [summarizes.generated, counts]
  · exact summarizes.bound
  · exact summarizes.reached

/-- Whatever a run ends with that was not hindered, it tells the truth. -/
theorem Surveyed.concluded (surveyed : Surveyed model initial place past pool)
    (settled : pool.isSettled = true) (staffed : pool.workers ≠ [])
    (distinguishes : model.Distinguishes initial) (free : ¬ Hindered past pool)
    (counts : launch.initialStates = initial.length)
    (small : ∀ log ∈ pool.logs, log.size < 2 ^ 64) :
    Concluded model initial past pool (Exploration.conclude launch pool).1 := by
  have coherent := surveyed.coherent
  have reachable {node : Node σ} (member : node ∈ pool.shared.expanded) :
      model.Reachable initial node.state :=
    coherent.reachable node (coherent.conserved.expanded_subset member)
  cases fault : Exploration.firstFault? pool.workers with
  | some fault' =>
    rw [Exploration.conclude_of_firstFault? fault]
    obtain ⟨worker, member, broken⟩ := Exploration.exists_broken_of_firstFault? fault
    have accounted := surveyed.accounted.stages worker member
    rw [broken] at accounted
    obtain ⟨node, expanded, raised⟩ := accounted
    obtain ⟨origin, rfl, failed⟩ := raised.resolve_left free
    exact .stopped (reachable (expanded origin rfl)) failed (by simp)
  | none =>
    have stopped := stopped_of_isSettled settled fault
    have ended := surveyed.tail_of_stopped stopped staffed
    obtain ⟨summary, counted, summarizes⟩ :=
      @exists_summaryOf_eq_ok _ _ _ _ launch surveyed.tallied surveyed.sounded free
    obtain ⟨trace, leads⟩ := surveyed.exists_leads
    rw [surveyed.conclude_eq fault ended counted small leads]
    rcases report : pool.shared.report with _ | ⟨node, cause⟩
    · exact .complete (surveyed.exact stopped staffed report distinguishes free counts summarizes)
    · have blames := surveyed.accounted.report _ report
      obtain ⟨origin, rfl, failed⟩ := blames.raised.resolve_left free
      have expanded := blames.expanded origin rfl
      by_cases own : cause.isOfModel = true
      · simp only [Exploration.verdictOn, if_pos own]
        obtain ⟨route, way, -, rfl⟩ := leads origin cause report
        exact .failed ⟨reachable expanded, failed, own, way.traced coherent.explained.recorded⟩
      · simp only [Exploration.verdictOn, if_neg own]
        refine .stopped (reachable expanded) failed ?_
        rintro _ ⟨rfl⟩
        simpa using own

end Pool

namespace Exploration.Course

variable {model : Model σ} {initial : List σ}

/-- Exploration is exact. Take any run with a worker at least and any order of steps that brings all
workers to their end; let the reachable states have different fingerprints and be restored from what
is written of them; let no page file fail to be written (none does if there is room for the pages:
`failure_notMem_causes`), no node lie as deep as can be said, and no counter be full. If the run is
complete, then the nodes expanded are those of the reachable states, each once and with success, and
the summary counts them. A run with an outcome is complete exactly if no reachable state fails; if
it is not, then it names a reachable state that fails, with the cause and with the path that leads
there. A run has an outcome, unless the model has raised for a reachable state something that is
neither a violation nor an expansion error. -/
theorem exact_of_isSettled (course : Course model initial .empty) (schedule : List Nat)
    (staffed : 0 < course.settings.workerCount)
    (settled : (course.pool schedule).isSettled = true)
    (distinguishes : model.Distinguishes initial)
    (restores : ∀ state, model.Reachable initial state → model.Restores state)
    (written : ∀ failure, .failure failure ∉ causes (course.history schedule))
    (shallow : ∀ node ∈ History.nodes (course.history schedule), node.level ≠ Worker.levelMax)
    (few : (course.pool schedule).shared.expanded.length ≤ Histogram.counterMax)
    (small : ∀ log ∈ (course.pool schedule).logs, log.size < 2 ^ 64) :
    (∀ outcome, (conclude course.launch (course.pool schedule)).1 = .ok outcome →
      (outcome.verdict = .complete →
        (course.pool schedule).Exact model initial (course.history schedule) outcome.summary) ∧
      (outcome.verdict = .complete ↔
        ∀ state, model.Reachable initial state → ¬ model.Fails state) ∧
      ∀ node cause trace, outcome.verdict = .failed node cause trace →
        Pool.Convicts model initial (course.history schedule) node cause trace) ∧
    ∀ stop, (conclude course.launch (course.pool schedule)).1 = .error stop →
      ∃ state, model.Reachable initial state ∧ model.successors state = .error stop ∧
        ∀ cause, stop = .failure cause → cause.isOfModel = false := by
  obtain ⟨place, surveyed⟩ := course.exists_surveyed staffed restores schedule
  have team : (course.pool schedule).workers ≠ [] := by
    apply List.ne_nil_of_length_pos
    rwa [course.length_workers]
  have free : ¬ Pool.Hindered (course.history schedule) (course.pool schedule) := by
    rintro (refused | ⟨node, member, deep⟩ | many)
    · exact refused (surveyed.coherent.conserved.refused_eq_nil written)
    · exact shallow node member deep
    · omega
  obtain ⟨-, counts, -⟩ := course.exists_hired
  have concluded := surveyed.concluded settled team distinguishes free counts small
  generalize (conclude course.launch (course.pool schedule)).1 = result at concluded ⊢
  cases concluded with
  | complete exact =>
    refine ⟨?_, by simp⟩
    rintro outcome ⟨rfl⟩
    refine ⟨fun _ => exact, ⟨fun _ state reachable => ?_, fun _ => rfl⟩, by simp⟩
    -- What is reachable was expanded with success, and so does not fail.
    rintro ⟨cause, raised, -⟩
    obtain ⟨node, member, rfl⟩ := (exact.states state).mpr reachable
    obtain ⟨states, computed⟩ := exact.succeeded node member
    cases raised.symm.trans computed
  | failed convicts =>
    refine ⟨?_, by simp⟩
    rintro outcome ⟨rfl⟩
    refine ⟨by simp, ⟨by simp, fun none => ?_⟩, ?_⟩
    · exact absurd ⟨_, convicts.raised, convicts.ofModel⟩ (none _ convicts.reachable)
    · rintro node cause trace ⟨rfl⟩
      exact convicts
  | stopped reachable raised foreign =>
    refine ⟨by simp, ?_⟩
    rintro stop ⟨rfl⟩
    exact ⟨_, reachable, raised, foreign⟩

/-- Two workers explore a grid of four states by turns, and miss none. -/
theorem exact_of_isSettled_of_two :
    let grid : CounterGrid := ⟨1, 1, none⟩
    let turns := (List.range 100).map (· % 2)
    ∃ course : Course grid.model grid.initialStates .empty, ∃ outcome,
      (conclude course.launch (course.pool turns)).1 = .ok outcome ∧
      (course.pool turns).Exact grid.model grid.initialStates (course.history turns)
        outcome.summary ∧
      (course.pool turns).shared.expanded.length = 4 := by
  intro grid turns
  let course := (onGrid grid).get (by decide +kernel)
  let known : List GridState := [⟨0, 0⟩, ⟨1, 0⟩, ⟨0, 1⟩, ⟨1, 1⟩]
  have closed : ∀ state ∈ known, ∀ next ∈ grid.neighbours state, next ∈ known := by
    decide +kernel
  have within : ∀ state, grid.model.Reachable grid.initialStates state → state ∈ known := by
    intro state reachable
    induction reachable with
    | start member =>
      obtain rfl := List.mem_singleton.mp member
      exact List.mem_cons_self
    | step before computed member ih =>
      obtain rfl : grid.neighbours _ = _ := Except.ok.inj computed
      exact closed _ ih _ member
  have apart : ∀ state ∈ known, ∀ other ∈ known,
      grid.model.fingerprint state = grid.model.fingerprint other → state = other := by
    decide +kernel
  have restores (state : GridState) : grid.model.Restores state :=
    grid.lossless_model.restores state
  have roomy := @roomy_of_fixed _ _ _ _ course 1 (by decide +kernel) (by decide) (by decide +kernel)
  have computed (state : GridState) : grid.model.successors state =
    .ok (grid.neighbours state) := rfl
  obtain ⟨outcomes, stops⟩ := course.exact_of_isSettled turns (by decide +kernel)
    (by decide +kernel)
    (fun state other one two => apart state (within state one) other (within other two))
    (fun state _ => restores state)
    (course.failure_notMem_causes roomy (fun state _ => restores state) turns) (by decide +kernel)
    (by decide +kernel) (by decide +kernel)
  rcases concluded : (conclude course.launch (course.pool turns)).1 with stop | outcome
  · obtain ⟨state, -, raised, -⟩ := stops stop concluded
    cases (computed state).symm.trans raised
  · obtain ⟨exact, complete, -⟩ := outcomes outcome concluded
    have verdict : outcome.verdict = .complete := by
      apply complete.mpr
      rintro state - ⟨cause, raised, -⟩
      cases (computed state).symm.trans raised
    exact ⟨course, outcome, concluded, exact verdict, by decide +kernel⟩

end Exploration.Course

end Wavefront
