/-
# Levels and the depth of the state graph

Whatever the settings are, the level of a node is the length of a path to its state. A single
worker that keeps no backlog of its own records every state at its depth, which is the length of a
shortest path: the summary of a complete run tells how deep the graph is, and no path to a state
that fails is shorter than the trace.

With a backlog this is not so. The worker expands what it has put there before it looks for another
page; and as every initial state lies on a page of its own, all that is reached from the first of
them may be expanded before the second, unless it spills over. A state that lies next to the second
is then recorded at the end of a longer path.
-/

import Wavefront.Proofs.Exploration.BreadthFirst
import Wavefront.Proofs.Search.Depth

namespace Wavefront

open History Trace BreadthFirst

variable {σ : Type} {model : Model σ} {initial : List σ}

/-! ## Paths of a run -/

/-- A path leads along a route. -/
theorem Trace.Route.reachableIn {items : List (Finding σ)} {path : List (Node σ)} {node : Node σ}
    (route : Route items path node) (founded : ∀ item ∈ items, Founded model initial item) :
    model.ReachableIn initial path.length node.state := by
  induction route with
  | seed member =>
    cases founded _ member with
    | seed level first => exact .start (List.mem_of_find?_eq_some first)
  | step before member ih =>
    cases founded _ member with
    | step level room computed first =>
      rw [List.length_append]
      exact .step ih computed (List.mem_of_find?_eq_some first)

/-- The level of a node is the length of a path that leads to its state. -/
theorem Trace.Recorded.reachableIn {items : List (Finding σ)}
    (recorded : Recorded model initial items) :
    ∀ item ∈ items, model.ReachableIn initial item.2.level.toNat item.2.state := by
  intro item member
  obtain ⟨path, route, -⟩ := recorded.exists_route item member
  rw [← route.length_eq recorded.founded]
  exact route.reachableIn recorded.founded

/-- Every state that can be reached lies as deep or less deep, and one lies as deep unless there is
none. -/
structure Model.HasDepth (model : Model σ) (initial : List σ) (depth : Nat) : Prop where
  bound : ∀ state, model.Reachable initial state → ∃ level ≤ depth,
    model.IsDepth initial state level
  attained : initial = [] ∧ depth = 0 ∨ ∃ state, model.IsDepth initial state depth

namespace BreadthFirst.Search

variable {search : Search σ}

/-- A level within the limits can be said. -/
theorem Fits.toNat_level (fits : search.Fits) {visit : Visit σ} (member : visit ∈ search.found) :
    visit.node.level.toNat = visit.level :=
  UInt32.toNat_ofNat_of_lt (Nat.lt_of_lt_of_le (fits.levels visit member) (by decide))

/-- The depth of a search whose queue is empty is that of the graph. -/
theorem Levelled.hasDepth (levelled : search.Levelled model initial)
    (distinguishes : model.Distinguishes initial) (orderly : search.Orderly model)
    (empty : search.queue = []) : model.HasDepth initial search.depth where
  bound state reachable := by
    obtain ⟨visit, member, rfl⟩ := levelled.exists_of_reachable distinguishes empty reachable
    exact ⟨visit.level, level_le_depth member, levelled.isDepth distinguishes orderly member⟩
  attained := by
    rcases List.mem_cons.mp search.depth_spec.1 with none | some
    · left
      refine ⟨List.eq_nil_iff_forall_not_mem.mpr fun state member => ?_, none⟩
      obtain ⟨visit, among, -, -⟩ := levelled.starts state member
      have positive : 0 < visit.level := by cases visit <;> exact Nat.succ_pos _
      have deepest := level_le_depth among
      omega
    · right
      obtain ⟨visit, member, same⟩ := List.mem_map.mp some
      exact ⟨visit.state, same ▸ levelled.isDepth distinguishes orderly member⟩

end BreadthFirst.Search

namespace Exploration.Course

/-- A run of a single worker without a backlog of its own has the outcome of the search that has
made as many expansions, which is over. -/
theorem Lone.isOver_and_outcome_eq {course : Course model initial .empty} (lone : course.Lone)
    (direct : course.settings.localBacklog = 0)
    (fits : (Search.after model initial course.result.expanded.length).Fits) :
    (Search.after model initial course.result.expanded.length).isOver = true ∧
      course.result.outcome =
        (Search.after model initial course.result.expanded.length).outcome model initial.length
          course.launch.runDirectory := by
  obtain ⟨turns, patient, -, same⟩ := lone.exists_result_eq
  have length : course.result.expanded.length = (course.pool turns).shared.expanded.length := by
    rw [same, List.length_reverse]
  rw [length] at fits ⊢
  obtain ⟨place, worker, whole, final, solitary, inStep, done⟩ :=
    lone.exists_inStep_of_fits direct patient fits
  refine ⟨done, ?_⟩
  rw [same, whole, inStep.conclude_eq solitary fits final, course.exists_hired.2.1]

/-- What a single worker makes of depth. The level of a node is always the length of a path to its
state. If the worker keeps no backlog of its own, no path is shorter, and as soon as the run has an
outcome: if it is complete, the greatest level is the depth of the state graph; if it is not, the
trace is a shortest path to the state that fails. This holds as long as no level, no offset and no
counter reaches its limit. -/
theorem isDepth_of_lone (course : Course model initial .empty) (lone : course.Lone)
    (distinguishes : model.Distinguishes initial) :
    (∀ schedule, ∀ node ∈ nodes (course.history schedule),
      model.ReachableIn initial node.level.toNat node.state) ∧
    (course.settings.localBacklog = 0 →
      (∀ schedule,
        (Search.after model initial (course.pool schedule).shared.expanded.length).Fits →
          ∀ node ∈ nodes (course.history schedule),
            model.IsDepth initial node.state node.level.toNat) ∧
      ∀ outcome, course.result.outcome = .ok outcome →
        (Search.after model initial course.result.expanded.length).Fits →
          (outcome.verdict = .complete →
            model.HasDepth initial outcome.summary.maxLevel.toNat) ∧
          ∀ node cause trace, outcome.verdict = .failed node cause trace →
            node.level.toNat = trace.length ∧
              model.IsDepth initial node.state trace.length) := by
  refine ⟨fun schedule node member => ?_, fun direct => ⟨fun schedule fits node member => ?_,
    fun outcome ended fits => ?_⟩⟩
  · obtain ⟨place, surveyed⟩ := course.exists_surveyed lone.staffed lone.restores schedule
    obtain ⟨item, among, rfl⟩ := List.mem_map.mp member
    exact surveyed.coherent.explained.recorded.reachableIn item among
  · obtain ⟨place, worker, search, single, solitary, inStep⟩ :=
      lone.exists_inStep direct schedule fits
    rw [inStep.nodes_eq] at member
    obtain ⟨visit, found, rfl⟩ := List.mem_map.mp member
    have later := inStep.grows.found.subset found
    rw [fits.toNat_level later]
    exact (Search.levelled_after model initial _).isDepth distinguishes
      (Search.orderly_after model initial _) later
  · obtain ⟨done, same⟩ := lone.isOver_and_outcome_eq direct fits
    have levelled := Search.levelled_after model initial course.result.expanded.length
    have orderly := Search.orderly_after model initial course.result.expanded.length
    have deepest := fits.depth_lt
    rw [same, Search.outcome] at ended
    generalize earlier : Search.after model initial course.result.expanded.length = search at *
    rcases failure : search.failure with _ | ⟨visit, cause | fault⟩
    · simp only [failure, Except.ok.injEq] at ended
      subst ended
      have empty : search.queue = [] := by simpa [Search.isOver, failure] using done
      have depth : (UInt32.ofNat search.depth).toNat = search.depth :=
        UInt32.toNat_ofNat_of_lt (Nat.lt_of_lt_of_le deepest (by decide))
      refine ⟨fun _ => ?_, by simp⟩
      simp only [Search.summary, depth]
      exact levelled.hasDepth distinguishes orderly empty
    · by_cases own : cause.isOfModel = true
      · simp only [failure, own, if_true, Except.ok.injEq] at ended
        subst ended
        refine ⟨by simp, ?_⟩
        rintro node raised trace ⟨rfl, rfl, rfl⟩
        rw [← earlier] at failure
        obtain ⟨before, expanded, -⟩ := Search.exists_of_failure failure
        have member : visit ∈ search.found := by
          rw [← earlier, Search.found, expanded]
          simp
        rw [Visit.length_trail]
        exact ⟨fits.toNat_level member, levelled.isDepth distinguishes orderly member⟩
      · simp [failure, own] at ended
    · simp [failure] at ended

/-- No two states of a small square share a fingerprint, whatever bound its model checks. -/
theorem distinguishes_square (bound : Option UInt32) :
    (CounterGrid.model ⟨1, 1, bound⟩).Distinguishes [⟨0, 0⟩, ⟨0, 1⟩] := by
  let known : List GridState := [⟨0, 0⟩, ⟨1, 0⟩, ⟨0, 1⟩, ⟨1, 1⟩]
  have closed : ∀ state ∈ known, CounterGrid.neighbours ⟨1, 1, none⟩ state ⊆ known := by
    decide +kernel
  have within : ∀ state, (CounterGrid.model ⟨1, 1, bound⟩).Reachable [⟨0, 0⟩, ⟨0, 1⟩] state →
      state ∈ known := by
    intro state reachable
    refine reachable.mem_of_closed (by decide) fun state member states computed => ?_
    have computed : CounterGrid.successors ⟨1, 1, bound⟩ state = .ok states := computed
    unfold CounterGrid.successors at computed
    split at computed
    · cases computed
    · obtain rfl := Except.ok.inj computed
      exact closed state member
  have apart : ∀ state ∈ known, ∀ other ∈ known,
      GridState.fingerprint state = GridState.fingerprint other → state = other := by
    decide +kernel
  exact fun state other one two => apart state (within state one) other (within other two)

/-- A result that blames a node has an outcome, whose verdict gives the node and the trace. -/
theorem exists_verdict_of_any {result : Except Stop (Outcome σ)}
    {check : Node σ × List Fingerprint → Bool} (blamed : (blamed? result).any check = true) :
    ∃ outcome node cause trace, result = .ok outcome ∧
      outcome.verdict = .failed node cause trace ∧ check (node, trace) = true := by
  obtain ⟨⟨node, trace⟩, same, here⟩ := (Option.any_eq_true _ _).mp blamed
  obtain ⟨outcome, cause, concluded, verdict⟩ := exists_of_blamed? same
  exact ⟨outcome, node, cause, trace, concluded, verdict, here⟩

/-- A worker without a backlog finds the shorter way to the corner of a square. -/
theorem isDepth_of_lone_of_square :
    let grid : CounterGrid := ⟨1, 1, some 1⟩
    ∃ course : Course grid.model [⟨0, 0⟩, ⟨0, 1⟩] .empty, course.settings.localBacklog = 0 ∧
      ∃ outcome node cause trace, course.result.outcome = .ok outcome ∧
        outcome.verdict = .failed node cause trace ∧ node.state = ⟨1, 1⟩ ∧ trace.length = 2 ∧
        grid.model.IsDepth [⟨0, 0⟩, ⟨0, 1⟩] node.state trace.length := by
  intro grid
  let settings : Settings := { Settings.standard ⟨["runs"]⟩ with workers := 1, localBacklog := 0 }
  let course := (launch? settings grid.model [⟨0, 0⟩, ⟨0, 1⟩] .empty 1 0 .empty).get
    (by decide +kernel)
  let search := Search.after grid.model [⟨0, 0⟩, ⟨0, 1⟩] 4
  have roomy := @roomy_of_stepped _ _ _ _ course (by decide +kernel) (by decide +kernel)
  have lone := roomy.lone (by decide +kernel) fun state _ => grid.lossless_model.restores state
  have direct : course.settings.localBacklog = 0 := by decide +kernel
  have ended : search.isOver = true := by decide +kernel
  have fits := Search.fits_after ended ⟨by decide +kernel, by decide +kernel, by decide +kernel⟩
    course.result.expanded.length
  obtain ⟨done, same⟩ := lone.isOver_and_outcome_eq direct fits
  rw [Search.after_eq_of_both done ended] at same
  obtain ⟨outcome, node, cause, trace, concluded, verdict, here⟩ :=
    @exists_verdict_of_any _ (search.outcome grid.model 2 course.launch.runDirectory)
      (fun blamed => blamed.1.state = ⟨1, 1⟩ && blamed.2.length = 2) (by decide +kernel)
  simp only [Bool.and_eq_true, decide_eq_true_eq] at here
  obtain ⟨-, depths⟩ := ((course.isDepth_of_lone lone (distinguishes_square _)).2 direct).2
    outcome (same.trans concluded) fits
  exact ⟨course, direct, outcome, node, cause, trace, same.trans concluded, verdict, here.1, here.2,
    (depths node cause trace verdict).2⟩

/-- A worker with a backlog of the usual size takes the longer way to the corner of a square, past
the second initial state, which is next to it. -/
theorem deeper_than_depth_of_square :
    let grid : CounterGrid := ⟨1, 1, some 1⟩
    ∃ course : Course grid.model [⟨0, 0⟩, ⟨0, 1⟩] .empty, course.Lone ∧
      course.settings = { Settings.standard ⟨["runs"]⟩ with workers := 1 } ∧
      grid.model.Distinguishes [⟨0, 0⟩, ⟨0, 1⟩] ∧
      ∃ outcome node cause trace, course.result.outcome = .ok outcome ∧
        outcome.verdict = .failed node cause trace ∧ node.state = ⟨1, 1⟩ ∧ node.level = 3 ∧
        trace.length = 3 ∧ grid.model.ReachableIn [⟨0, 0⟩, ⟨0, 1⟩] 2 node.state := by
  intro grid
  let settings : Settings := { Settings.standard ⟨["runs"]⟩ with workers := 1 }
  let course := (launch? settings grid.model [⟨0, 0⟩, ⟨0, 1⟩] .empty 1 0 .empty).get
    (by decide +kernel)
  have single : course.settings.workerCount = 1 := by decide +kernel
  have settled : (course.pool (List.replicate 60 0)).isSettled = true := by decide +kernel
  have roomy := @roomy_of_stepped _ _ _ _ course (by decide +kernel) (by decide +kernel)
  have result := course.result_of_isSettled single settled (by decide)
  obtain ⟨outcome, node, cause, trace, concluded, verdict, here⟩ :=
    @exists_verdict_of_any _ course.result.outcome
      (fun blamed => blamed.1.state = ⟨1, 1⟩ && blamed.1.level = 3 && blamed.2.length = 3) (by
        rw [result]
        decide +kernel)
  simp only [Bool.and_eq_true, decide_eq_true_eq] at here
  refine ⟨course, roomy.lone single fun state _ => grid.lossless_model.restores state,
    by decide +kernel, distinguishes_square _, outcome, node, cause, trace, concluded, verdict,
    here.1.1, here.1.2, here.2, ?_⟩
  -- The second initial state has the corner among its successors.
  have next : grid.model.successors ⟨0, 1⟩ = .ok [⟨1, 1⟩] := rfl
  rw [here.1.1]
  exact .step (.start (by decide)) next (by decide)

end Exploration.Course

end Wavefront
