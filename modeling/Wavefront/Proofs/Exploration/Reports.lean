/-
# The first report decides

Whatever comes in the way of the workers, what a run ends with is decided by the first report that
is published, and by none that is published later. If it is about an error of the model, then that
is the outcome, together with the node whose expansion has raised it and with a trace that leads
there; any other error is a failure of the run; and without a report the run is complete. The
frontier is finished by then, and no page is left to wait.
-/

import Wavefront.Proofs.Exploration.Assertions
import Wavefront.Proofs.Pool.Reports
import Wavefront.Proofs.Store.Clearing

namespace Wavefront

open History Trace

variable {σ : Type}

namespace Exploration

variable {model : Model σ} {expanded : List (Node σ)} {first : Option (Report σ)}
  {result : Except Stop (Outcome σ)}

/-! ## Verdicts -/

/-- If a run does not end with a fault, then no worker has broken down. -/
theorem firstFault?_eq_none_of_conclude {launch : Launch σ} {pool : Pool σ}
    (whole : ∀ fault, (conclude launch pool).1 ≠ .error (.fault fault)) :
    firstFault? pool.workers = none := by
  cases first : firstFault? pool.workers with
  | none => rfl
  | some fault => exact absurd (conclude_of_firstFault? first) (whole fault)

/-- What a run ends with after a first report. -/
inductive Judged (model : Model σ) (expanded : List (Node σ)) :
    Option (Report σ) → Except Stop (Outcome σ) → Prop where
  | complete {summary : Summary} {directory : Path} :
      Judged model expanded none (.ok ⟨.complete, summary, directory⟩)
  | failed {node : Node σ} {cause : Failure} {trace : List Fingerprint} {summary : Summary}
      {directory : Path} (own : cause.isOfModel = true) (begun : node ∈ expanded)
      (raised : model.successors node.state = .error (.failure cause)) :
      Judged model expanded (some ⟨some node, cause⟩)
        (.ok ⟨.failed node cause trace, summary, directory⟩)
  | refused {node : Option (Node σ)} {cause : Failure} (foreign : cause.isOfModel = false) :
      Judged model expanded (some ⟨node, cause⟩) (.error (.failure cause))

/-- How a first report decides what a run ends with. -/
structure Decided (model : Model σ) (expanded : List (Node σ)) (first : Option (Report σ))
    (result : Except Stop (Outcome σ)) : Prop where
  complete : (∃ outcome, result = .ok outcome ∧ outcome.verdict = .complete) ↔ first = none
  failed : ∀ cause,
    (∃ outcome node trace, result = .ok outcome ∧ outcome.verdict = .failed node cause trace) ↔
      ∃ report, first = some report ∧ report.cause = cause ∧ cause.isOfModel = true
  refused : ∀ cause, result = .error (.failure cause) ↔
    ∃ report, first = some report ∧ report.cause = cause ∧ cause.isOfModel = false
  /-- The model has raised the error for the node that is blamed. -/
  blamed : ∀ outcome node cause trace, result = .ok outcome →
    outcome.verdict = .failed node cause trace → first = some ⟨some node, cause⟩ ∧
      node ∈ expanded ∧ model.successors node.state = .error (.failure cause)

theorem Judged.decided (judged : Judged model expanded first result) :
    Decided model expanded first result := by
  cases judged with
  | complete =>
    refine ⟨by simp, by simp, by simp, ?_⟩
    rintro outcome node cause trace ⟨rfl⟩ verdict
    cases verdict
  | @failed node cause trace summary directory own begun raised =>
    refine ⟨by simp, fun other => ?_, fun other => ?_, ?_⟩
    · constructor
      · rintro ⟨outcome, node', trace', ⟨rfl⟩, ⟨⟩⟩
        exact ⟨_, rfl, rfl, own⟩
      · rintro ⟨report, ⟨rfl⟩, rfl, -⟩
        exact ⟨_, _, _, rfl, rfl⟩
    · constructor
      · rintro ⟨⟩
      · rintro ⟨report, ⟨rfl⟩, rfl, foreign⟩
        exact absurd (own.symm.trans foreign) (by decide)
    · rintro outcome node' cause' trace' ⟨rfl⟩ ⟨⟩
      exact ⟨rfl, begun, raised⟩
  | @refused node cause foreign =>
    refine ⟨by simp, fun other => ?_, fun other => ?_, ?_⟩
    · constructor
      · rintro ⟨outcome, node', trace', ⟨⟩, -⟩
      · rintro ⟨report, ⟨rfl⟩, rfl, own⟩
        exact absurd (own.symm.trans foreign) (by decide)
    · constructor
      · rintro ⟨rfl⟩
        exact ⟨_, rfl, rfl, foreign⟩
      · rintro ⟨report, ⟨rfl⟩, rfl, -⟩
        rfl
    · rintro outcome node' cause' trace' ⟨⟩

end Exploration

namespace Pool

variable {model : Model σ} {initial done : List σ} {place : Location} {past : History σ}
  {pool : Pool σ} {launch : Exploration.Launch σ}

/-! ## Pools that have come to their ends -/

/-- Once the pages that wait have been dropped, the logs can be read back for the node of a report
if its error is one of the model. -/
def ReadsBack (pool : Pool σ) (report : Option (Report σ)) : Prop :=
  ∀ node cause, report = some ⟨some node, cause⟩ → cause.isOfModel = true →
    ∃ trace, ((Forest.collect pool.logs).pathTo node.uid
      (pool.shared.frontier.discard pool.shared.disk).2.2).1 = .ok trace

/-- A run that does not end with a fault is judged by the report that was kept. -/
theorem Charged.judged {dropped : Nat} {frontier : Frontier σ} {emptied : Disk}
    (charged : Charged model pool)
    (discarded : pool.shared.frontier.discard pool.shared.disk = (.ok dropped, frontier, emptied))
    (whole : ∀ fault, (Exploration.conclude launch pool).1 ≠ .error (.fault fault))
    (reads : pool.ReadsBack pool.shared.report) :
    Exploration.Judged model pool.shared.expanded pool.shared.report
      (Exploration.conclude launch pool).1 := by
  have sound := Exploration.firstFault?_eq_none_of_conclude whole
  obtain ⟨summary, counted⟩ : ∃ summary, Exploration.summaryOf launch pool = .ok summary := by
    cases counted : Exploration.summaryOf launch pool with
    | ok summary => exact ⟨summary, rfl⟩
    | error fault =>
      refine absurd ?_ (whole fault)
      simp only [Exploration.conclude, sound, discarded, counted]
  obtain ⟨trace, found⟩ : ∃ trace, ∀ node cause, pool.shared.report = some ⟨some node, cause⟩ →
      cause.isOfModel = true →
        ((Forest.collect pool.logs).pathTo node.uid emptied).1 = .ok trace := by
    by_cases told : ∃ node cause, pool.shared.report = some ⟨some node, cause⟩ ∧
        cause.isOfModel = true
    · obtain ⟨origin, raised, report, own⟩ := told
      obtain ⟨trace, climbed⟩ := reads origin raised report own
      rw [discarded] at climbed
      refine ⟨trace, fun node cause same _ => ?_⟩
      cases report.symm.trans same
      exact climbed
    · exact ⟨[], fun node cause report own => absurd ⟨node, cause, report, own⟩ told⟩
  rw [Exploration.conclude_eq sound discarded counted found]
  rcases report : pool.shared.report with _ | ⟨node, cause⟩
  · exact .complete
  · cases own : cause.isOfModel with
    | true =>
      obtain ⟨origin, begun, rfl, raised⟩ := charged.report _ report own
      simp only [Exploration.verdictOn, if_pos own]
      exact .failed own begun raised
    | false =>
      have refused : Exploration.verdictOn (some ⟨node, cause⟩) trace = .error cause := by
        cases node with
        | none => rfl
        | some node => simp [Exploration.verdictOn, own]
      rw [refused]
      exact .refused own

/-- When the pages that wait have been dropped, the logs lead to every node that was expanded. -/
theorem Consistent.exists_path_of_discard {dropped : Nat} {frontier : Frontier σ} {emptied : Disk}
    {node : Node σ} (consistent : Consistent model initial place past pool)
    (ended : pool.shared.frontier.tail = .finished)
    (discarded : pool.shared.frontier.discard pool.shared.disk = (.ok dropped, frontier, emptied))
    (small : ∀ log ∈ pool.logs, log.size < 2 ^ 64) (begun : node ∈ pool.shared.expanded) :
    ∃ path, ((Forest.collect pool.logs).pathTo node.uid emptied).1 = .ok path ∧
      Traced model initial (recorded past) node path := by
  obtain ⟨_, _, cleared, -, changes⟩ := consistent.sound.books.stocks.discard_of_finished ended
  obtain ⟨-, -, rfl⟩ := Prod.mk.inj (cleared.symm.trans discarded)
  obtain ⟨item, member, rfl⟩ := List.mem_map.mp (consistent.conserved.expanded_subset begun)
  exact (consistent.sound.logged_of_changes consistent.logged changes).exists_path
    consistent.explained.recorded small member

end Pool

/-! ## Runs -/

namespace Exploration.Course

variable {model : Model σ} {initial : List σ} {seen : Seen}

/-- The reports that are published along such a schedule, in their order. -/
def reports (course : Course model initial seen) (schedule : List (Nat × Option Mishap)) :
    List (Report σ) :=
  course.launch.pool.reports model schedule

/-- The first report is kept. -/
theorem report_poolAmid (course : Course model initial seen)
    (schedule : List (Nat × Option Mishap)) :
    (course.poolAmid schedule).shared.report = (course.reports schedule).head? := by
  obtain ⟨place, done, -, ready⟩ := course.exists_ready
  rw [poolAmid, Pool.report_followAmid, ready.report, Option.none_or]
  rfl

/-- What a run ends with is decided by the first report, whatever comes in the way of the steps of
its workers: refused writes to logs and page files, refused reads of page files, and whatever the
model raises. When all workers have come to their ends and the run does not end with a fault, the
frontier is finished and no page is left in memory or in a file. If the logs can then be read back
for the node that is to blame, the run is complete exactly if nothing was reported; it has an
outcome with an error exactly if the first report is about that error of the model, and blames a
node whose expansion has raised it; and it fails with an error exactly if the first report is about
that error and it is none of the model. Nothing depends on later reports.

Nothing stands in the way of that as long as the model does not break down and reads nothing else
than it has written, and no limit is reached: the run then ends without a fault. And as long as the
records of the logs can be numbered, the logs can be read back, and the trace leads from an initial
state to the node that is blamed. -/
theorem decided_by_first_report (course : Course model initial seen)
    (schedule : List (Nat × Option Mishap)) (staffed : 0 < course.settings.workerCount)
    (settled : (course.poolAmid schedule).isSettled = true) :
    let pool := course.poolAmid schedule
    let first := (course.reports schedule).head?
    let result := (conclude course.launch pool).1
    ((∀ fault, result ≠ .error (.fault fault)) →
      pool.shared.frontier.tail = .finished ∧
      (∃ dropped frontier emptied, pool.shared.frontier.discard pool.shared.disk =
          (.ok dropped, frontier, emptied) ∧
        frontier.memory.resident = 0 ∧ emptied.IsClear course.launch.runDirectory) ∧
      (pool.ReadsBack first → Decided model pool.shared.expanded first result)) ∧
    ((∀ state, model.Reachable initial state → ∀ fault,
        model.successors state ≠ .error (.fault fault)) →
      (∀ state, model.Reachable initial state → model.Faithful state) →
      ¬ Pool.Limited model (course.historyAmid schedule) pool →
      (∀ fault, result ≠ .error (.fault fault)) ∧
      ((∀ log ∈ pool.logs, log.size < 2 ^ 64) →
        pool.ReadsBack first ∧ ∀ outcome node cause trace, result = .ok outcome →
          outcome.verdict = .failed node cause trace →
            Traced model initial (recorded (course.historyAmid schedule)) node trace)) := by
  intro pool first result
  have reaches : course.Reaches (course.historyAmid schedule) pool := .amid schedule
  obtain ⟨place, sound, heeded, charged⟩ := reaches.exists_charged
  obtain ⟨length, directory⟩ := reaches.staffed
  have report : pool.shared.report = first := course.report_poolAmid schedule
  have team : pool.workers ≠ [] := List.ne_nil_of_length_pos (length ▸ staffed)
  refine ⟨fun whole => ?_, fun calm faithful within => ?_⟩
  · have unbroken := firstFault?_eq_none_of_conclude whole
    have ended := heeded.tail_of_stopped (Pool.stopped_of_isSettled settled unbroken) team
    obtain ⟨dropped, emptied, discarded, -⟩ := sound.books.stocks.discard_of_finished ended
    refine ⟨ended, ⟨dropped, _, emptied, discarded, rfl, ?_⟩, fun reads => ?_⟩
    · rw [← directory]
      exact Frontier.isClear_of_discard discarded
    · rw [← report] at reads ⊢
      exact (charged.judged discarded whole reads).decided
  · obtain ⟨place', consistent, tallied, steady⟩ :=
      reaches.exists_steady calm faithful
    have unbroken := Pool.firstFault?_eq_none (steady.whole.resolve_left within)
    have ended := heeded.tail_of_stopped (Pool.stopped_of_isSettled settled unbroken) team
    obtain ⟨summary, counted, -⟩ := @Pool.Tallied.exists_summaryOf _ _ _ course.launch tallied
      (Nat.le_of_not_lt fun many => within (.inr many))
    refine ⟨Pool.conclude_ne_fault unbroken sound.books.stocks ended counted, fun small => ?_⟩
    obtain ⟨dropped, emptied, discarded, -⟩ := sound.books.stocks.discard_of_finished ended
    constructor
    · intro node cause same own
      obtain ⟨origin, begun, ⟨rfl⟩, -⟩ := charged.report _ (report.trans same) own
      obtain ⟨path, found, -⟩ := consistent.exists_path_of_discard ended discarded small begun
      rw [discarded]
      exact ⟨path, found⟩
    · intro outcome node cause trace concluded verdict
      obtain ⟨kept, own, _, _, final, cleared, climbed⟩ := conclude_failed concluded verdict
      obtain ⟨origin, begun, ⟨rfl⟩, -⟩ := charged.report _ kept own
      obtain ⟨path, found, traced⟩ := consistent.exists_path_of_discard ended cleared small begun
      obtain rfl := Except.ok.inj (found.symm.trans climbed)
      exact traced

/-- Two workers on a grid: one reports a violation in the corner, and then the other reports that it
cannot bring its log up to date. The violation is the outcome. -/
theorem decided_by_first_report_of_corner :
    let grid : CounterGrid := ⟨1, 1, some 1⟩
    let schedule : List (Nat × Option Mishap) := (List.range 60).map fun number =>
      (number % 2, if number < 32 then none else some (.logging (.other "no space left")))
    ∃ course : Course grid.model grid.initialStates .empty,
      (course.reports schedule).map (·.cause.isOfModel) = [true, false] ∧
      (course.poolAmid schedule).shared.frontier.tail = .finished ∧
      ∃ outcome node cause trace,
        (conclude course.launch (course.poolAmid schedule)).1 = .ok outcome ∧
        outcome.verdict = .failed node cause trace ∧ node.state = ⟨1, 1⟩ ∧
        Traced grid.model grid.initialStates (recorded (course.historyAmid schedule)) node
          trace := by
  intro grid schedule
  let course := (onGrid grid).get (by decide +kernel)
  have calm : ∀ state, grid.model.Reachable grid.initialStates state → ∀ fault,
      grid.model.successors state ≠ .error (.fault fault) := by
    intro state _ fault raised
    simp only [CounterGrid.model, CounterGrid.successors] at raised
    split at raised <;> cases raised
  have faithful : ∀ state, grid.model.Reachable grid.initialStates state →
      grid.model.Faithful state :=
    fun state _ => (grid.lossless_model.restores state).faithful
  have within : ¬ Pool.Limited grid.model (course.historyAmid schedule)
      (course.poolAmid schedule) := by
    unfold Pool.Limited
    decide +kernel
  have small : ∀ log ∈ (course.poolAmid schedule).logs, log.size < 2 ^ 64 := by decide +kernel
  have classes : (course.reports schedule).map (·.cause.isOfModel) = [true, false] := by
    decide +kernel
  have corner : (course.reports schedule).head?.all
      (fun report => report.node.all (·.state = ⟨1, 1⟩)) = true := by decide +kernel
  obtain ⟨decides, returns⟩ :=
    course.decided_by_first_report schedule (by decide +kernel) (by decide +kernel)
  obtain ⟨whole, traces⟩ := returns calm faithful within
  obtain ⟨reads, traced⟩ := traces small
  obtain ⟨ended, -, decided⟩ := decides whole
  obtain ⟨first, told, own⟩ : ∃ first, (course.reports schedule).head? = some first ∧
      first.cause.isOfModel = true := by
    rcases reports : course.reports schedule with _ | ⟨first, rest⟩
    · simp [reports] at classes
    · exact ⟨first, rfl, by simpa [reports] using (List.cons.inj (reports ▸ classes)).1⟩
  obtain ⟨outcome, node, trace, concluded, verdict⟩ :=
    ((decided reads).failed first.cause).mpr ⟨first, told, rfl, own⟩
  obtain ⟨same, -, -⟩ := (decided reads).blamed outcome node first.cause trace concluded verdict
  rw [same] at corner
  exact ⟨course, classes, ended, outcome, node, first.cause, trace, concluded, verdict,
    by simpa using corner, traced outcome node first.cause trace concluded verdict⟩

end Exploration.Course

end Wavefront
