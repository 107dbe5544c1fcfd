/-
# How a run is concluded

When nobody has broken down and the frontier is finished, the conclusion is decided by what
the workers counted and by the first report: the trace that comes with a failed verdict leads
along the route on which the node was discovered. And whatever the conclusion is, the files of
the trace logs then hold the records of all nodes recorded, in the order in which each worker
has recorded them.
-/

import Wavefront.Proofs.Exploration.Summary
import Wavefront.Proofs.Exploration.Survey

namespace Wavefront

open History Trace

variable {σ : Type}

namespace Exploration

variable {workers : List (Worker σ)} {fault : Fault}

/-- The first fault is that of a worker that broke down. -/
theorem exists_broken_of_firstFault? (first : firstFault? workers = some fault) :
    ∃ worker ∈ workers, worker.stage = .broken fault := by
  induction workers with
  | nil => cases first
  | cons worker rest ih =>
    rw [firstFault?] at first
    split at first
    · rename_i broken
      obtain rfl := Option.some.inj first
      exact ⟨worker, List.mem_cons_self, broken⟩
    · obtain ⟨other, member, broken⟩ := ih first
      exact ⟨other, List.mem_cons_of_mem _ member, broken⟩

/-- If there is no first fault, then no worker broke down. -/
theorem not_broken_of_firstFault? (none : firstFault? workers = none) :
    ∀ worker ∈ workers, ∀ fault, worker.stage ≠ .broken fault := by
  induction workers with
  | nil => simp
  | cons worker rest ih =>
    rw [firstFault?] at none
    split at none
    · cases none
    · rename_i sound
      intro other member
      rcases List.mem_cons.mp member with rfl | later
      · exact sound
      · exact ih none other later

/-- A run breaks down with a worker. -/
theorem conclude_of_firstFault? {launch : Launch σ} {pool : Pool σ}
    (first : firstFault? pool.workers = some fault) :
    (conclude launch pool).1 = .error (.fault fault) := by
  simp only [conclude, first]

/-- Judging leaves logs with the same records. -/
theorem hold_of_judge {logs later : List Log} {disk final : Disk} {table : UInt16 → List Record}
    {report : Option (Report σ)} {verdict : Except Failure (Verdict σ)}
    (hold : Log.Hold logs disk table)
    (judged : judge report logs disk = (verdict, later, final)) :
    Log.Hold later final table ∧ (later.map Log.name).Perm (logs.map Log.name) := by
  have quiet (same : logs = later) (alike : disk = final) :
      Log.Hold later final table ∧ (later.map Log.name).Perm (logs.map Log.name) := by
    subst same alike
    exact ⟨hold, .refl _⟩
  rcases report with _ | ⟨_ | node, cause⟩
  · exact quiet (congrArg (·.2.1) judged) (congrArg (·.2.2) judged)
  · exact quiet (congrArg (·.2.1) judged) (congrArg (·.2.2) judged)
  · rw [judge] at judged
    split at judged
    · rcases climbed : (Forest.collect logs).pathTo node.uid disk with
        ⟨failure | path, forest, disk'⟩
      all_goals
        simp only [climbed, Prod.mk.injEq] at judged
        obtain ⟨-, rfl, rfl⟩ := judged
        obtain ⟨holds, same⟩ := hold.collect.of_climb climbed
        exact ⟨holds, same ▸ (Forest.perm_collect logs).map _⟩
    · exact quiet (congrArg (·.2.1) judged) (congrArg (·.2.2) judged)

/-- Judging brings logs up to date at most. -/
theorem changes_judge {logs later : List Log} {disk final : Disk} {report : Option (Report σ)}
    {verdict : Except Failure (Verdict σ)}
    (judged : judge report logs disk = (verdict, later, final)) :
    disk.Changes (Log.Lies logs) final ∧ ∀ place, Log.Lies later place → Log.Lies logs place := by
  have quiet (same : logs = later) (alike : disk = final) :
      disk.Changes (Log.Lies logs) final ∧
        ∀ place, Log.Lies later place → Log.Lies logs place := by
    subst same alike
    exact ⟨.refl _ _, fun _ => id⟩
  have among (place : Location) (lies : Log.Lies (Forest.collect logs).logs place) :
      Log.Lies logs place := by
    obtain ⟨log, member, same⟩ := lies
    exact ⟨log, (Forest.perm_collect logs).mem_iff.mp member, same⟩
  rcases report with _ | ⟨_ | node, cause⟩
  · exact quiet (congrArg (·.2.1) judged) (congrArg (·.2.2) judged)
  · exact quiet (congrArg (·.2.1) judged) (congrArg (·.2.2) judged)
  · rw [judge] at judged
    split at judged
    · rcases climbed : (Forest.collect logs).pathTo node.uid disk with
        ⟨failure | path, forest, disk'⟩
      all_goals
        simp only [climbed, Prod.mk.injEq] at judged
        obtain ⟨-, rfl, rfl⟩ := judged
        obtain ⟨changes, stays⟩ := Forest.changes_climb climbed
        exact ⟨changes.mono among, fun place lies => among place (stays place lies)⟩
    · exact quiet (congrArg (·.2.1) judged) (congrArg (·.2.2) judged)

/-- The verdict on a first report, with the trace that belongs to its node. -/
def verdictOn (report : Option (Report σ)) (trace : List Fingerprint) :
    Except Failure (Verdict σ) :=
  match report with
  | none => .ok .complete
  | some ⟨none, cause⟩ => .error cause
  | some ⟨some node, cause⟩ =>
      if cause.isOfModel then .ok (.failed node cause trace) else .error cause

/-- What a run ends with if nobody has broken down, the pages that wait can be dropped, and reading
back the logs does not fail. -/
theorem conclude_eq {launch : Launch σ} {pool : Pool σ} {dropped : Nat} {frontier : Frontier σ}
    {emptied : Disk} {summary : Summary} {trace : List Fingerprint}
    (sound : firstFault? pool.workers = none)
    (discarded : pool.shared.frontier.discard pool.shared.disk = (.ok dropped, frontier, emptied))
    (counted : summaryOf launch pool = .ok summary)
    (found : ∀ node cause, pool.shared.report = some ⟨some node, cause⟩ → cause.isOfModel = true →
      ((Forest.collect pool.logs).pathTo node.uid emptied).1 = .ok trace) :
    (conclude launch pool).1 = ((verdictOn pool.shared.report trace).mapError .failure).map
      (⟨·, summary, launch.runDirectory⟩) := by
  simp only [conclude, sound, discarded, counted]
  rcases report : pool.shared.report with _ | ⟨_ | node, cause⟩
  · rfl
  · rfl
  · by_cases own : cause.isOfModel = true
    · rcases climbed : (Forest.collect (logs pool.workers)).pathTo node.uid emptied with
        ⟨result, forest, disk⟩
      obtain rfl : result = .ok trace :=
        (congrArg Prod.fst climbed).symm.trans (found node cause report own)
      simp only [judge, verdictOn, if_pos own, climbed]
    · simp only [judge, verdictOn, if_neg own]

end Exploration

/-- The fingerprints along a route to a node, which is no longer than the record. -/
def Trace.Leads (model : Model σ) (items : List (Finding σ)) (node : Node σ)
    (trace : List Fingerprint) : Prop :=
  ∃ route, Route items route node ∧ route.length ≤ items.length ∧
    trace = route.map fun node => model.fingerprint node.state

namespace Pool

variable {model : Model σ} {initial : List σ} {place : Location} {past : History σ} {pool : Pool σ}
  {launch : Exploration.Launch σ}

/-- Every worker has stopped in good order. -/
def Stopped (pool : Pool σ) : Prop := ∀ worker ∈ pool.workers, worker.stage = .stopped

/-- Workers that have come to their ends have stopped, unless one has broken down. -/
theorem stopped_of_isSettled (settled : pool.isSettled = true)
    (sound : Exploration.firstFault? pool.workers = none) : pool.Stopped := by
  intro worker member
  have final : worker.stage.isFinal = true := List.all_eq_true.mp settled worker member
  cases stage : worker.stage with
  | stopped => rfl
  | broken fault =>
    exact absurd stage (Exploration.not_broken_of_firstFault? sound worker member fault)
  | _ => simp [stage, Stage.isFinal] at final

/-- When all workers have stopped, the frontier is finished. -/
theorem Heeded.tail_of_stopped (heeded : Heeded pool) (stopped : pool.Stopped)
    (staffed : pool.workers ≠ []) : pool.shared.frontier.tail = .finished := by
  obtain ⟨worker, member⟩ := List.exists_mem_of_ne_nil _ staffed
  rcases heeded.leaving worker member (.inr (stopped worker member)) with reported | ended
  · rcases heeded.latched reported with ended | ⟨other, among, latching⟩
    · exact ended
    · cases (stopped other among).symm.trans latching
  · exact ended

theorem Surveyed.tail_of_stopped (surveyed : Surveyed model initial place past pool)
    (stopped : pool.Stopped) (staffed : pool.workers ≠ []) :
    pool.shared.frontier.tail = .finished :=
  (surveyed.accounted.toConcerted.heeded surveyed.coherent.watched).tail_of_stopped stopped staffed

/-- There is a trace that leads to the node of a report. -/
theorem Surveyed.exists_leads (surveyed : Surveyed model initial place past pool) :
    ∃ trace, ∀ node cause, pool.shared.report = some ⟨some node, cause⟩ →
      Leads model (recorded past) node trace := by
  cases report : pool.shared.report with
  | none => exact ⟨[], by simp⟩
  | some told =>
    rcases told with ⟨_ | origin, raised⟩
    · exact ⟨[], by simp⟩
    · have expanded := (surveyed.accounted.report _ report).expanded origin rfl
      obtain ⟨item, member, rfl⟩ :=
        List.mem_map.mp (surveyed.coherent.conserved.expanded_subset expanded)
      obtain ⟨route, way, short⟩ :=
        surveyed.coherent.explained.recorded.exists_route item member
      refine ⟨route.map fun node => model.fingerprint node.state, ?_⟩
      rintro node cause ⟨rfl, rfl⟩
      exact ⟨route, way, short, rfl⟩

/-- Dropping the pages that wait leaves the logs alone. -/
theorem Sound.logged_of_changes {final : Disk} (sound : Sound model place past pool)
    (logged : Logged model (recorded past) pool.logs pool.shared.disk)
    (changes : pool.shared.disk.Changes (Spill.PageFileIn place) final) :
    Logged model (recorded past) pool.logs final := by
  apply logged.of_changes changes
  intro log among file
  obtain ⟨worker, mine, rfl⟩ := List.mem_map.mp among
  exact sound.apart worker mine file

/-- What a run ends with if nobody has broken down and the frontier is finished. -/
theorem Surveyed.conclude_eq {summary : Summary} {trace : List Fingerprint}
    (surveyed : Surveyed model initial place past pool)
    (sound : Exploration.firstFault? pool.workers = none)
    (ended : pool.shared.frontier.tail = .finished)
    (counted : Exploration.summaryOf launch pool = .ok summary)
    (small : ∀ log ∈ pool.logs, log.size < 2 ^ 64)
    (leads : ∀ node cause, pool.shared.report = some ⟨some node, cause⟩ →
      Leads model (recorded past) node trace) :
    (Exploration.conclude launch pool).1 =
      ((Exploration.verdictOn pool.shared.report trace).mapError .failure).map
        (⟨·, summary, launch.runDirectory⟩) := by
  obtain ⟨dropped, final, discarded, -, changes⟩ :=
    surveyed.coherent.sound.books.stocks.discard_of_finished ended
  have logged := surveyed.coherent.sound.logged_of_changes surveyed.coherent.logged changes
  refine Exploration.conclude_eq sound discarded counted fun node cause report _ => ?_
  obtain ⟨route, way, short, rfl⟩ := leads node cause report
  exact logged.pathTo_eq surveyed.coherent.explained.recorded small way short

/-- A run whose workers cannot be summarized ends with the fault. -/
theorem Surveyed.conclude_of_summaryOf {fault : Fault}
    (surveyed : Surveyed model initial place past pool)
    (sound : Exploration.firstFault? pool.workers = none)
    (ended : pool.shared.frontier.tail = .finished)
    (uncounted : Exploration.summaryOf launch pool = .error fault) :
    (Exploration.conclude launch pool).1 = .error (.fault fault) := by
  obtain ⟨dropped, final, discarded, -, -⟩ :=
    surveyed.coherent.sound.books.stocks.discard_of_finished ended
  simp only [Exploration.conclude, sound, discarded, uncounted]

/-- What a run ends with if a worker could not be started, nobody has broken down and the frontier
is finished: the pages that waited have been dropped, and the logs are up to date. -/
theorem Sound.concludeShort_eq {cause : IoError} (sound : Sound model place past pool)
    (unbroken : Exploration.firstFault? pool.workers = none)
    (ended : pool.shared.frontier.tail = .finished) :
    ∃ dropped frontier emptied,
      pool.shared.frontier.discard pool.shared.disk = (.ok dropped, frontier, emptied) ∧
      pool.shared.disk.Changes (Spill.PageFileIn place) emptied ∧
      Exploration.concludeShort cause pool =
        (.error (.failure (.io cause)), Log.flushAll pool.logs emptied) := by
  obtain ⟨dropped, emptied, discarded, -, changes⟩ :=
    sound.books.stocks.discard_of_finished ended
  refine ⟨dropped, _, emptied, discarded, changes, ?_⟩
  simp only [Exploration.concludeShort, unbroken, discarded]
  rfl

/-- A run that is concluded before the frontier is finished ends with a fault. -/
theorem conclude_of_live (sound : Exploration.firstFault? pool.workers = none)
    (live : pool.shared.frontier.tail ≠ .finished) :
    (Exploration.conclude launch pool).1 = .error (.fault .discardedWhileLive) := by
  simp only [Exploration.conclude, sound, Frontier.discard_of_live live]

/-- When a run has been concluded, its logs hold the records that they held before, and the files of
the logs hold them too. -/
theorem Sound.exists_hold_conclude (sound : Sound model place past pool)
    (logged : Logged model (recorded past) pool.logs pool.shared.disk) :
    ∃ logs disk, (Exploration.conclude launch pool).2 = Log.flushAll logs disk ∧
      Log.Hold logs disk (recordsOf model (recorded past)) ∧
      (logs.map Log.name).Perm (pool.logs.map Log.name) := by
  unfold Exploration.conclude
  cases Exploration.firstFault? pool.workers with
  | some fault => exact ⟨_, _, rfl, logged.hold, .refl _⟩
  | none =>
    by_cases ended : pool.shared.frontier.tail = .finished
    · obtain ⟨dropped, final, discarded, -, changes⟩ :=
        sound.books.stocks.discard_of_finished ended
      have hold := (sound.logged_of_changes logged changes).hold
      simp only [discarded]
      cases Exploration.summaryOf launch pool with
      | error fault => exact ⟨_, _, rfl, hold, .refl _⟩
      | ok summary =>
        rcases judged : Exploration.judge pool.shared.report (Exploration.logs pool.workers) final
          with ⟨verdict, later, disk⟩
        obtain ⟨holds, names⟩ := Exploration.hold_of_judge hold judged
        exact ⟨_, _, rfl, holds, names⟩
    · simp only [Frontier.discard_of_live ended]
      exact ⟨_, _, rfl, logged.hold, .refl _⟩

/-- When a run has been concluded, the files of the logs hold the records of all nodes. -/
theorem Sound.read_conclude (sound : Sound model place past pool)
    (logged : Logged model (recorded past) pool.logs pool.shared.disk) :
    ∀ log ∈ pool.logs, (Exploration.conclude launch pool).2.read log.path =
      .ok ((recordsOf model (recorded past) log.worker).flatMap Record.encode) := by
  intro log member
  obtain ⟨logs, disk, final, hold, names⟩ :=
    @Sound.exists_hold_conclude _ _ _ _ _ launch sound logged
  have among : log.name ∈ logs.map Log.name := names.mem_iff.mpr (List.mem_map_of_mem member)
  obtain ⟨other, there, same⟩ := List.mem_map.mp among
  have files := hold.read_flushAll other there
  rw [(Prod.mk.inj same).1, (Prod.mk.inj same).2] at files
  rw [final]
  exact files

theorem Surveyed.read_conclude (surveyed : Surveyed model initial place past pool) :
    ∀ log ∈ pool.logs, (Exploration.conclude launch pool).2.read log.path =
      .ok ((recordsOf model (recorded past) log.worker).flatMap Record.encode) :=
  surveyed.coherent.sound.read_conclude surveyed.coherent.logged

end Pool

end Wavefront
