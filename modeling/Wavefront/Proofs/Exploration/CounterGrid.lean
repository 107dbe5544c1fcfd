/-
# The counter grid is explored exactly

On a grid whose bounds are below `2 ^ 29` nothing stands in the way of an exploration: states
have different fingerprints, no level exceeds the sum of the bounds, and there are few enough
states to be counted. So every run that comes to its end, whoever worked on it in whatever
order, finds the whole grid and counts it right, or, if the sum of the counters is bounded and
the grid exceeds the bound, finds a state that exceeds it by one and a shortest way there.
-/

import Wavefront.Proofs.CounterGrid
import Wavefront.Proofs.Exploration.Return

namespace Wavefront

open History

variable {σ : Type}

namespace Exploration.Course

variable {model : Model σ} {initial : List σ}

/-- As long as no node lies as deep as can be said, the fingerprints met are listed, whoever makes
the next step. -/
theorem exists_surveyed_lists (course : Course model initial .empty)
    (staffed : 0 < course.settings.workerCount)
    (restores : ∀ state, model.Reachable initial state → model.Restores state)
    (shallow : ∀ {place : Location} {past : History σ} {pool : Pool σ},
      pool.Surveyed model initial place past →
        ∀ node ∈ History.nodes past, node.level ≠ Worker.levelMax)
    (schedule : List Nat) :
    ∃ place, Pool.Surveyed model initial place (course.history schedule) (course.pool schedule) ∧
      (course.pool schedule).shared.seen.Lists
        ((course.pool schedule).prints model (course.history schedule)) := by
  obtain ⟨⟨place, surveyed⟩, lists⟩ := course.exists_surveyed_launch staffed
  refine ⟨place, Pool.follow_induction
    (fun past pool => Pool.Surveyed model initial place past pool ∧
      pool.shared.seen.Lists (pool.prints model past))
    (fun {past pool position worker next shared events} found turn ⟨surveyed, lists⟩ => ?_)
    ⟨surveyed, lists⟩ schedule⟩
  refine ⟨surveyed.step restores found turn, ?_⟩
  rw [← List.append_nil (pool.prints model past)] at lists
  rcases Pool.lists_step_of_lists found turn lists with ⟨node, state, rest, stage, deep⟩ | still
  · have there := surveyed.coherent.mem_nodes_of_recording (List.mem_of_getElem? found) stage
    exact absurd deep (shallow surveyed node there)
  · rwa [List.append_nil] at still

end Exploration.Course

namespace CounterGrid

variable {grid : CounterGrid} {place : Location} {past : History GridState} {pool : Pool GridState}
  {summary : Summary}

/-- A successor of a state is what one of its counters is raised to. -/
theorem raises_of_successors {state next : GridState}
    (link : ∃ states, grid.model.successors state = .ok states ∧ next ∈ states) :
    state.Raises next := by
  obtain ⟨states, computed, member⟩ := link
  obtain ⟨-, rfl⟩ := successors_eq_ok_iff.mp computed
  exact raises_of_mem_neighbours member

/-- The level of a node is one more than its counters together, in whatever order the grid was
explored. -/
theorem level_eq (surveyed : pool.Surveyed grid.model grid.initialStates place past) :
    ∀ node ∈ History.nodes past, node.level.toNat = node.state.sum + 1 := by
  intro node member
  obtain ⟨item, among, rfl⟩ := List.mem_map.mp member
  have recorded := surveyed.coherent.explained.recorded
  obtain ⟨route, way, -⟩ := recorded.exists_route item among
  obtain ⟨⟨start, inside, head⟩, chain⟩ := way.states recorded.founded
  obtain rfl := List.mem_singleton.mp inside
  have length := GridState.length_of_raises (chain.imp fun _ _ => raises_of_successors) head
    (by rw [List.getLast?_map, way.getLast?, Option.map_some])
  rw [List.length_map, way.length_eq recorded.founded] at length
  simpa [GridState.sum] using length

section

variable (smallX : grid.maxX.toNat < 2 ^ 29) (smallY : grid.maxY.toNat < 2 ^ 29)

include smallX smallY

/-- No node lies as deep as can be said. -/
theorem level_ne (surveyed : pool.Surveyed grid.model grid.initialStates place past) :
    ∀ node ∈ History.nodes past, node.level ≠ Worker.levelMax := by
  intro node member deep
  have level := level_eq surveyed node member
  obtain ⟨⟨left, right⟩, -⟩ := reachable_iff.mp (surveyed.coherent.reachable node member)
  have top : Worker.levelMax.toNat = 2 ^ 32 - 1 := rfl
  rw [deep, top, GridState.sum] at level
  omega

theorem distinguishes : grid.model.Distinguishes grid.initialStates :=
  fun first second here there =>
    eq_of_fingerprint_eq smallX smallY first second (reachable_iff.mp here).1
      (reachable_iff.mp there).1

omit smallX smallY in
/-- There are no more nodes than states within the bounds. -/
theorem length_nodes_le (surveyed : pool.Surveyed grid.model grid.initialStates place past)
    (lists : pool.shared.seen.Lists (pool.prints grid.model past)) :
    (History.nodes past).length ≤ grid.states.length := by
  have distinct := Pool.nodup_of_lists lists
  have within : (History.nodes past).map Node.state ⊆ grid.states := by
    intro state member
    obtain ⟨node, among, rfl⟩ := List.mem_map.mp member
    exact mem_states_iff.mpr (reachable_iff.mp (surveyed.coherent.reachable node among)).1
  rw [← Function.comp_def, ← List.map_map] at distinct
  simpa using (List.subperm_of_subset distinct.of_map within).length_le

theorem length_states_le : grid.states.length ≤ 2 ^ 29 * 2 ^ 29 := by
  rw [length_states]
  exact Nat.mul_le_mul (Nat.succ_le_of_lt smallX) (Nat.succ_le_of_lt smallY)

/-- Nothing but a page that could not be written hinders the exploration of a grid. -/
theorem not_hindered (surveyed : pool.Surveyed grid.model grid.initialStates place past)
    (lists : pool.shared.seen.Lists (pool.prints grid.model past))
    (written : ∀ failure, .failure failure ∉ causes past) : ¬ Pool.Hindered past pool := by
  rintro (refused | ⟨node, member, deep⟩ | many)
  · exact refused (surveyed.coherent.conserved.refused_eq_nil written)
  · exact level_ne smallX smallY surveyed node member deep
  · have nodes := (length_nodes_le surveyed lists).trans (length_states_le smallX smallY)
    have conserved := surveyed.coherent.conserved.nodes.length_eq
    have top : Histogram.counterMax = 2 ^ 64 - 1 := rfl
    simp only [List.length_append] at conserved
    omega

/-- The logs of a grid are small. -/
theorem size_lt (surveyed : pool.Surveyed grid.model grid.initialStates place past)
    (lists : pool.shared.seen.Lists (pool.prints grid.model past)) :
    ∀ log ∈ pool.logs, log.size < 2 ^ 64 := by
  intro log member
  have nodes := (length_nodes_le surveyed lists).trans (length_states_le smallX smallY)
  have fewer : (Trace.findingsOf (recorded past) log.worker).length ≤ (recorded past).length :=
    List.length_filter_le _ _
  have width : Record.width = 18 := rfl
  rw [History.nodes, List.length_map] at nodes
  rw [surveyed.coherent.logged.size_eq member, width]
  omega

end

/-! ## Grids without a violation -/

section

variable (loose : ∀ bound, grid.maxSum = some bound →
  grid.maxX.toNat + grid.maxY.toNat ≤ bound.toNat)

include loose

theorem sum_le_of_within {state : GridState} (within : grid.Within state) {bound : UInt32}
    (asked : grid.maxSum = some bound) : state.sum ≤ bound.toNat :=
  (Nat.add_le_add within.1 within.2).trans (loose bound asked)

theorem successors_eq {state : GridState} (within : grid.Within state) :
    grid.model.successors state = .ok (grid.neighbours state) :=
  successors_eq_ok_iff.mpr ⟨fun _ asked => sum_le_of_within loose within asked, rfl⟩

theorem reachable_iff_within {state : GridState} :
    grid.model.Reachable grid.initialStates state ↔ grid.Within state := by
  rw [reachable_iff]
  refine ⟨And.left, fun within => ⟨within, fun bound asked => ?_⟩⟩
  exact Nat.le_succ_of_le (sum_le_of_within loose within asked)

/-- A complete exploration has expanded the states within the bounds, each of them once. -/
theorem perm_states (exact : pool.Exact grid.model grid.initialStates past summary) :
    (pool.shared.expanded.map Node.state).Perm grid.states := by
  rw [List.perm_ext_iff_of_nodup exact.once (nodup_states grid)]
  intro state
  rw [mem_states_iff, ← reachable_iff_within loose, ← exact.states state, List.mem_map]

/-- A complete exploration counts the states within the bounds and their neighbours, and reaches
the level of the state in which both counters are at their bounds. -/
theorem counts_of_exact (surveyed : pool.Surveyed grid.model grid.initialStates place past)
    (exact : pool.Exact grid.model grid.initialStates past summary) :
    summary.distinctStates = (grid.maxX.toNat + 1) * (grid.maxY.toNat + 1) ∧
      summary.statesGenerated = 1 + (grid.maxX.toNat * (grid.maxY.toNat + 1) +
        grid.maxY.toNat * (grid.maxX.toNat + 1)) ∧
      summary.maxLevel.toNat = grid.maxX.toNat + grid.maxY.toNat + 1 := by
  have same := perm_states loose exact
  refine ⟨?_, ?_, ?_⟩
  · rw [exact.distinct, ← length_states, ← same.length_eq, List.length_map]
  · have degrees : grid.states.filterMap grid.model.outDegree? =
        grid.states.map fun state => (grid.neighbours state).length := by
      rw [← List.filterMap_eq_map]
      refine List.filterMap_congr fun state member => ?_
      rw [Model.outDegree?, successors_eq loose (mem_states_iff.mp member)]
      rfl
    have tallied : (grid.model.tally pool.shared.expanded).sum =
        (grid.states.filterMap grid.model.outDegree?).sum := by
      rw [← (same.filterMap grid.model.outDegree?).sum_eq, List.filterMap_map]
      rfl
    rw [exact.generated, tallied, degrees, sum_length_neighbours]
    rfl
  · -- The corner is as deep as can be, and it was reached.
    let corner : GridState := ⟨grid.maxX, grid.maxY⟩
    have reachable := (reachable_iff_within loose).mpr (show grid.Within corner from
      ⟨Nat.le_refl _, Nat.le_refl _⟩)
    obtain ⟨node, member, here⟩ := (exact.states corner).mpr reachable
    have known := surveyed.coherent.conserved.expanded_subset member
    have level := level_eq surveyed node known
    have bound := UInt32.le_iff_toNat_le.mp (exact.bound node known)
    rw [level, here] at bound
    rcases exact.reached with ⟨none, -⟩ | ⟨deepest, among, same⟩
    · rw [none] at known
      cases known
    · have depth := level_eq surveyed deepest among
      obtain ⟨left, right⟩ := (reachable_iff_within loose).mp
        (surveyed.coherent.reachable deepest among)
      rw [same] at depth
      simp only [GridState.sum, corner] at bound depth
      omega

end

/-! ## Grids with a violation -/

/-- A bound on the sum that the grid exceeds is exceeded by one in a state that can be reached. -/
theorem exists_violation {bound : UInt32} (asked : grid.maxSum = some bound)
    (tight : bound.toNat < grid.maxX.toNat + grid.maxY.toNat) :
    ∃ state, grid.model.Reachable grid.initialStates state ∧ state.sum = bound.toNat + 1 ∧
      grid.model.successors state = .error (.failure (.violation (violationText state bound))) := by
  have limitX := grid.maxX.toNat_lt
  have limitY := grid.maxY.toNat_lt
  let x := min (bound.toNat + 1) grid.maxX.toNat
  let y := bound.toNat + 1 - x
  have left : x ≤ grid.maxX.toNat := Nat.min_le_right _ _
  have right : y ≤ grid.maxY.toNat := by omega
  have first : (UInt32.ofNat x).toNat = x := toNat_ofNat_of_lt_succ (Nat.lt_succ_of_le left)
  have second : (UInt32.ofNat y).toNat = y := toNat_ofNat_of_lt_succ (Nat.lt_succ_of_le right)
  have sum : GridState.sum ⟨UInt32.ofNat x, UInt32.ofNat y⟩ = bound.toNat + 1 := by
    rw [GridState.sum, first, second]
    omega
  refine ⟨⟨UInt32.ofNat x, UInt32.ofNat y⟩, reachable_iff.mpr
    ⟨⟨first.trans_le left, second.trans_le right⟩, fun other asked' => ?_⟩, sum,
    successors_eq_error_iff.mpr ⟨bound, asked, by omega, rfl⟩⟩
  rw [asked, Option.some.injEq] at asked'
  rw [sum, asked']

/-- A failure of the grid is the violation of the bound on the sum by one, and the trace raises one
counter after the other until it is exceeded. -/
theorem violation_of_convicts {node : Node GridState} {cause : Failure}
    {trace : List Fingerprint}
    (convicts : Pool.Convicts grid.model grid.initialStates past node cause trace) :
    ∃ bound states, grid.maxSum = some bound ∧ cause = .violation (violationText node.state bound) ∧
      node.state.sum = bound.toNat + 1 ∧ trace.length = bound.toNat + 2 ∧
      Trace.replay grid.model grid.initialStates trace = .ok states ∧
      states.head? = some ⟨0, 0⟩ ∧ states.IsChain GridState.Raises ∧
      states.getLast? = some node.state := by
  obtain ⟨bound, asked, beyond, same⟩ := successors_eq_error_iff.mp convicts.raised
  obtain ⟨-, low⟩ := reachable_iff.mp convicts.reachable
  have most := low bound asked
  obtain ⟨states, replayed, prints, ⟨start, inside, head⟩, chain, last, -⟩ :=
    convicts.traced.replayed
  obtain rfl := List.mem_singleton.mp inside
  have raises := chain.imp fun _ _ => raises_of_successors
  have length := GridState.length_of_raises raises head last
  rw [show GridState.sum ⟨0, 0⟩ = 0 from rfl] at length
  refine ⟨bound, states, asked, by simpa using same, by omega, ?_, replayed, head, raises, last⟩
  rw [← prints, List.length_map]
  omega

/-- The counter grid is explored exactly. Let both bounds be below `2 ^ 29`, and take any run with a
worker at least and any order of steps that brings all workers to their end, in which no page file
fails to be written, as none does in a run with room for its pages (`Roomy`). No two states within
the bounds have the same fingerprint. If the sum of the counters is not bounded, or the grid does
not exceed its bound, then the run is complete and has found and counted the whole grid. If the grid
exceeds the bound, then the run finds a violation in a state that exceeds it by one, and the trace,
when it is replayed, leads there from the origin by raising one counter after the other. -/
theorem explored_exactly (grid : CounterGrid) (smallX : grid.maxX.toNat < 2 ^ 29)
    (smallY : grid.maxY.toNat < 2 ^ 29)
    (course : Exploration.Course grid.model grid.initialStates .empty) (schedule : List Nat)
    (staffed : 0 < course.settings.workerCount)
    (settled : (course.pool schedule).isSettled = true)
    (written : ∀ failure, .failure failure ∉ causes (course.history schedule)) :
    (∀ first second, grid.Within first → grid.Within second →
      first.fingerprint = second.fingerprint → first = second) ∧
    ∃ outcome, (Exploration.conclude course.launch (course.pool schedule)).1 = .ok outcome ∧
      ((∀ bound, grid.maxSum = some bound →
          grid.maxX.toNat + grid.maxY.toNat ≤ bound.toNat) →
        outcome.verdict = .complete ∧
        grid.stateCount = .ok outcome.summary.distinctStates ∧
        outcome.summary.distinctStates = (grid.maxX.toNat + 1) * (grid.maxY.toNat + 1) ∧
        outcome.summary.statesGenerated = 1 + grid.maxX.toNat * (grid.maxY.toNat + 1) +
          grid.maxY.toNat * (grid.maxX.toNat + 1) ∧
        outcome.summary.maxLevel.toNat = grid.maxX.toNat + grid.maxY.toNat + 1) ∧
      ∀ bound, grid.maxSum = some bound → bound.toNat < grid.maxX.toNat + grid.maxY.toNat →
        ∃ node trace states,
          outcome.verdict = .failed node (.violation (violationText node.state bound)) trace ∧
          node.state.x.toNat + node.state.y.toNat = bound.toNat + 1 ∧
          trace.length = bound.toNat + 2 ∧
          Trace.replay grid.model grid.initialStates trace = .ok states ∧
          states.head? = some ⟨0, 0⟩ ∧ states.IsChain GridState.Raises ∧
          states.getLast? = some node.state := by
  refine ⟨eq_of_fingerprint_eq smallX smallY, ?_⟩
  obtain ⟨place, surveyed, lists⟩ := course.exists_surveyed_lists staffed
    (fun state _ => grid.lossless_model.restores state) (level_ne smallX smallY) schedule
  have team : (course.pool schedule).workers ≠ [] := by
    apply List.ne_nil_of_length_pos
    rwa [course.length_workers]
  obtain ⟨-, counts, -⟩ := course.exists_hired
  have concluded := surveyed.concluded settled team (distinguishes smallX smallY)
    (not_hindered smallX smallY surveyed lists written) counts
    (size_lt smallX smallY surveyed lists)
  generalize (Exploration.conclude course.launch (course.pool schedule)).1 = result
    at concluded ⊢
  cases concluded with
  | complete exact =>
    refine ⟨_, rfl, fun loose => ?_, fun bound asked tight => ?_⟩
    · obtain ⟨distinct, generated, deepest⟩ := counts_of_exact loose surveyed exact
      refine ⟨rfl, ?_, distinct, by rw [generated, Nat.add_assoc], deepest⟩
      have few := length_states_le smallX smallY
      rw [length_states] at few
      have limit : Text.wordLimit = 2 ^ 64 := rfl
      rw [stateCount, distinct, if_pos (by omega)]
    · -- A state that exceeds the bound would have been expanded with success.
      obtain ⟨state, reachable, -, raised⟩ := exists_violation asked tight
      obtain ⟨node, member, rfl⟩ := (exact.states state).mpr reachable
      obtain ⟨states, computed⟩ := exact.succeeded node member
      cases raised.symm.trans computed
  | @failed node cause trace _ _ convicts =>
    obtain ⟨bound, states, asked, rfl, sum, length, replayed, head, raises, last⟩ :=
      violation_of_convicts convicts
    refine ⟨_, rfl, fun loose => ?_, fun other asked' tight => ?_⟩
    · have within := (reachable_iff.mp convicts.reachable).1
      have low := sum_le_of_within loose within asked
      omega
    · obtain rfl := Option.some.inj (asked.symm.trans asked')
      exact ⟨node, trace, states, rfl, sum, length, replayed, head, raises, last⟩
  | stopped reachable raised foreign =>
    obtain ⟨bound, -, -, rfl⟩ := successors_eq_error_iff.mp raised
    cases foreign _ rfl

/-- Two workers explore a grid of four states by turns, once without a bound on the sum and once
with a bound that the last of the states exceeds. -/
theorem explored_exactly_of_square :
    let free : CounterGrid := ⟨1, 1, none⟩
    let bounded : CounterGrid := ⟨1, 1, some 1⟩
    let turns := (List.range 100).map (· % 2)
    (∃ course : Exploration.Course free.model free.initialStates .empty, ∃ outcome,
      (Exploration.conclude course.launch (course.pool turns)).1 = .ok outcome ∧
      outcome.verdict = .complete ∧ outcome.summary.distinctStates = 4 ∧
      outcome.summary.statesGenerated = 5 ∧ outcome.summary.maxLevel.toNat = 3) ∧
    ∃ course : Exploration.Course bounded.model bounded.initialStates .empty, ∃ outcome node trace,
      (Exploration.conclude course.launch (course.pool turns)).1 = .ok outcome ∧
      outcome.verdict = .failed node (.violation (violationText node.state 1)) trace ∧
      node.state.x.toNat + node.state.y.toNat = 2 ∧ trace.length = 3 := by
  intro free bounded turns
  constructor
  · let course := (Exploration.Course.onGrid free).get (by decide +kernel)
    have roomy := @Exploration.Course.roomy_of_fixed _ _ _ _ course 1 (by decide +kernel)
      (by decide) (by decide +kernel)
    obtain ⟨-, outcome, concluded, complete, -⟩ := explored_exactly free (by decide) (by decide)
      course turns (by decide +kernel) (by decide +kernel)
      (course.failure_notMem_causes roomy (fun state _ => free.lossless_model.restores state) turns)
    obtain ⟨verdict, -, distinct, generated, deepest⟩ := complete fun bound asked => nomatch asked
    exact ⟨course, outcome, concluded, verdict, distinct, generated, deepest⟩
  · let course := (Exploration.Course.onGrid bounded).get (by decide +kernel)
    have roomy := @Exploration.Course.roomy_of_fixed _ _ _ _ course 1 (by decide +kernel)
      (by decide) (by decide +kernel)
    obtain ⟨-, outcome, concluded, -, violated⟩ := explored_exactly bounded (by decide)
      (by decide) course turns (by decide +kernel) (by decide +kernel)
      (course.failure_notMem_causes roomy (fun state _ => bounded.lossless_model.restores state)
        turns)
    obtain ⟨node, trace, -, verdict, sum, length, -⟩ := violated 1 rfl (by decide)
    exact ⟨course, outcome, node, trace, concluded, verdict, sum, length⟩

end CounterGrid

end Wavefront
