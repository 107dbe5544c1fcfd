/-
# Every state can be traced and replayed

At any moment of a run and for every node recorded so far, the logs give the path of
fingerprints on which the node was discovered, and replaying it meets the very states on
the way, even if others share their fingerprints. This holds in particular for the node
of an outcome that is no complete exploration, and for the trace that comes with it.
-/

import Wavefront.Exploration.Run
import Wavefront.Proofs.Exploration.Launch
import Wavefront.Proofs.Pool.Blame

namespace Wavefront

open History Trace

variable {σ : Type}

namespace Pool

variable {model : Model σ} {initial done : List σ} {place : Location} {past : History σ}
  {pool : Pool σ}

/-! ## Before the workers begin -/

namespace Ready

theorem tallied (ready : Ready model initial place done past pool) : Tallied model pool := by
  constructor
  · rw [ready.expanded]
    apply List.sum_eq_zero
    intro count member
    obtain ⟨worker, among, rfl⟩ := List.mem_map.mp member
    exact (ready.fresh worker among).generated
  · refine .inr ⟨fun worker member => ?_, ?_⟩
    · obtain ⟨name, same⟩ := (ready.fresh worker member).outDegree
      rw [same]
      exact Histogram.consistent_empty _ _
    · rw [ready.expanded]
      apply List.sum_eq_zero
      intro count member
      obtain ⟨worker, among, rfl⟩ := List.mem_map.mp member
      obtain ⟨name, same⟩ := (ready.fresh worker among).outDegree
      rw [same]
      rfl

theorem concerted (ready : Ready model initial place done past pool) : Concerted past pool := by
  constructor
  · intro worker member latching
    cases (ready.fresh worker member).stage.symm.trans latching
  · intro worker member leaving
    rw [(ready.fresh worker member).stage] at leaving
    simp [Worker.IsLeaving] at leaving
  · simp [ready.tail]
  · simp [ready.report]

theorem accounted (ready : Ready model initial place done past pool) :
    Accounted model past pool := by
  refine ⟨ready.concerted, ?_, ?_⟩
  · intro worker member
    rw [(ready.fresh worker member).stage]
    trivial
  · simp [ready.report]

end Ready

/-- What is coherent and accounted for stays so along every schedule. -/
theorem Accounted.follow (coherent : Coherent model initial place past pool)
    (tallied : Tallied model pool) (accounted : Accounted model past pool)
    (restores : ∀ state, model.Reachable initial state → model.Restores state)
    (schedule : List Nat) :
    Coherent model initial place (past ++ pool.events model schedule) (pool.follow model schedule) ∧
      Tallied model (pool.follow model schedule) ∧
      Accounted model (past ++ pool.events model schedule) (pool.follow model schedule) :=
  follow_induction
    (fun past pool => Coherent model initial place past pool ∧
      Tallied model pool ∧ Accounted model past pool)
    (fun found turn each =>
      ⟨each.1.step (fun state met => (restores state met).faithful) found turn,
        each.2.1.step found turn, each.2.2.step found turn each.1 each.2.1 restores⟩)
    ⟨coherent, tallied, accounted⟩ schedule

end Pool

namespace Exploration

variable {model : Model σ} {initial : List σ} {seen : Seen}

/-! ## The verdict -/

/-- The node that the result of a run blames, with the path that leads there. -/
def blamed? : Except Stop (Outcome σ) → Option (Node σ × List Fingerprint)
  | .ok ⟨.failed node _ trace, _, _⟩ => some (node, trace)
  | _ => none

theorem exists_of_blamed? {result : Except Stop (Outcome σ)} {node : Node σ}
    {trace : List Fingerprint} (blamed : blamed? result = some (node, trace)) :
    ∃ outcome cause, result = .ok outcome ∧ outcome.verdict = .failed node cause trace := by
  unfold blamed? at blamed
  split at blamed
  · obtain ⟨rfl, rfl⟩ := Prod.mk.inj (Option.some.inj blamed)
    exact ⟨_, _, rfl, rfl⟩
  · cases blamed

/-- A verdict that is no complete exploration comes from the first report, and the trace from the
logs as they are when the pages that waited have been dropped. -/
theorem conclude_failed {launch : Launch σ} {pool : Pool σ} {outcome : Outcome σ} {node : Node σ}
    {cause : Failure} {trace : List Fingerprint}
    (concluded : (conclude launch pool).1 = .ok outcome)
    (verdict : outcome.verdict = .failed node cause trace) :
    pool.shared.report = some ⟨some node, cause⟩ ∧ cause.isOfModel = true ∧
      ∃ dropped after final, pool.shared.frontier.discard pool.shared.disk =
        (.ok dropped, after, final) ∧
        ((Forest.collect pool.logs).pathTo node.uid final).1 = .ok trace := by
  unfold conclude at concluded
  cases fault : firstFault? pool.workers with
  | some fault' => simp [fault] at concluded
  | none =>
    rcases discarded : pool.shared.frontier.discard pool.shared.disk with
      ⟨stop | dropped, after, final⟩
    · simp [fault, discarded] at concluded
    · cases counted : summaryOf launch pool with
      | error fault' => simp [fault, discarded, counted] at concluded
      | ok summary =>
        simp only [fault, discarded, counted] at concluded
        rcases report : pool.shared.report with _ | ⟨_ | origin, raised⟩
        · simp only [report, judge, Except.mapError, Except.map, Except.ok.injEq] at concluded
          rw [← concluded] at verdict
          cases verdict
        · simp [report, judge, Except.mapError, Except.map] at concluded
        · by_cases own : raised.isOfModel = true
          · rcases climbed : (Forest.collect (logs pool.workers)).pathTo origin.uid final with
              ⟨failure | path, forest, disk⟩
            · simp [report, judge, own, climbed, Except.mapError, Except.map] at concluded
            · simp only [report, judge, if_pos own, climbed, Except.mapError, Except.map,
                Except.ok.injEq] at concluded
              rw [← concluded] at verdict
              cases verdict
              exact ⟨rfl, own, dropped, after, final, rfl, congrArg Prod.fst climbed⟩
          · simp [report, judge, own, Except.mapError, Except.map] at concluded

namespace Course

/-- A launched pool stays coherent, and accounts for its errors, along every schedule. -/
theorem exists_accounted (course : Course model initial seen)
    (restores : ∀ state, model.Reachable initial state → model.Restores state)
    (schedule : List Nat) :
    ∃ place, Pool.Coherent model initial place (course.history schedule) (course.pool schedule) ∧
      Pool.Tallied model (course.pool schedule) ∧
      Pool.Accounted model (course.history schedule) (course.pool schedule) := by
  obtain ⟨place, done, -, ready⟩ := course.exists_ready
  exact ⟨place,
    Pool.Accounted.follow ready.coherent ready.tallied ready.accounted restores schedule⟩

/-- Whatever was recorded by then, the logs lead back to an initial state, and replaying the path
leads to the node again. The same holds of the node and the trace of every outcome that is no
complete exploration. -/
theorem traced_of_mem_recorded (course : Course model initial seen) (schedule : List Nat)
    (restores : ∀ state, model.Reachable initial state → model.Restores state)
    (small : ∀ log ∈ (course.pool schedule).logs, log.size < 2 ^ 64) :
    (∀ item ∈ recorded (course.history schedule), ∃ path,
      ((Forest.collect (course.pool schedule).logs).pathTo item.2.uid
        (course.pool schedule).shared.disk).1 = .ok path ∧
      Traced model initial (recorded (course.history schedule)) item.2 path) ∧
    ∀ outcome node cause trace,
      (conclude course.launch (course.pool schedule)).1 = .ok outcome →
      outcome.verdict = .failed node cause trace →
      node ∈ History.nodes (course.history schedule) ∧
        Traced model initial (recorded (course.history schedule)) node trace := by
  obtain ⟨place, coherent, -, accounted⟩ := course.exists_accounted restores schedule
  have logged := coherent.logged
  have explained := coherent.explained.recorded
  refine ⟨fun item member => logged.exists_path explained small member, ?_⟩
  intro outcome node cause trace concluded verdict
  obtain ⟨report, -, dropped, after, final, discarded, climbed⟩ := conclude_failed concluded verdict
  have begun := (accounted.report _ report).expanded node rfl
  have known := coherent.conserved.expanded_subset begun
  refine ⟨known, ?_⟩
  obtain ⟨item, member, rfl⟩ := List.mem_map.mp known
  -- Dropping the pages that waited leaves the logs alone.
  have ended : (course.pool schedule).shared.frontier.tail = .finished := by
    by_contra live
    rw [Frontier.discard_of_live live] at discarded
    cases discarded
  obtain ⟨_, _, cleared, -, changes⟩ := coherent.sound.books.stocks.discard_of_finished ended
  rw [discarded] at cleared
  cases cleared
  have kept := logged.of_changes changes fun log among file => by
    obtain ⟨worker, mine, rfl⟩ := List.mem_map.mp among
    exact coherent.sound.apart worker mine file
  obtain ⟨path, found, traced⟩ := kept.exists_path explained small member
  obtain rfl := Except.ok.inj (found.symm.trans climbed)
  exact traced

/-- A violation in the corner of a grid is reported with the path that leads there. -/
theorem traced_of_mem_recorded_of_corner :
    let grid : CounterGrid := ⟨1, 1, some 1⟩
    let turns := (List.range 100).map (· % 2)
    ∃ course : Course grid.model grid.initialStates .empty,
      (recorded (course.history turns)).length = 4 ∧
      (∀ item ∈ recorded (course.history turns), ∃ path,
        ((Forest.collect (course.pool turns).logs).pathTo item.2.uid
          (course.pool turns).shared.disk).1 = .ok path ∧
          Traced grid.model grid.initialStates (recorded (course.history turns)) item.2 path) ∧
      ∃ node trace, node.state = ⟨1, 1⟩ ∧ trace.length = 3 ∧
        Traced grid.model grid.initialStates (recorded (course.history turns)) node trace := by
  intro grid turns
  let course := (onGrid grid).get (by decide +kernel)
  have restores : ∀ state, grid.model.Reachable grid.initialStates state →
      grid.model.Restores state :=
    fun state _ => grid.lossless_model.restores state
  have small : ∀ log ∈ (course.pool turns).logs, log.size < 2 ^ 64 := by decide +kernel
  obtain ⟨all, verdicts⟩ := course.traced_of_mem_recorded turns restores small
  have failed : (blamed? (conclude course.launch (course.pool turns)).1).any
      (fun blamed => blamed.1.state = ⟨1, 1⟩ && blamed.2.length = 3) = true := by
    decide +kernel
  refine ⟨course, by decide +kernel, all, ?_⟩
  obtain ⟨⟨node, trace⟩, blamed, here⟩ := (Option.any_eq_true _ _).mp failed
  obtain ⟨outcome, cause, concluded, verdict⟩ := exists_of_blamed? blamed
  simp only [Bool.and_eq_true, decide_eq_true_eq] at here
  exact ⟨node, trace, here.1, here.2, (verdicts _ node cause trace concluded verdict).2⟩

end Course

end Exploration

end Wavefront
