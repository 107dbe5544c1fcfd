/-
# What is reported

Whoever reports an error of the model reports it together with the node whose expansion has raised
it: a failure of a page file or of a log is never taken for one of the model's, and no worker
reports an error with a node that it has left behind. Of all reports that are published the first
is kept, whatever comes in the way of whom.
-/

import Wavefront.Proofs.Pool.Mishaps

namespace Wavefront

open History

variable {σ : Type}

/-- If the error of a report is one of the model, then the model has raised it for the node that is
reported with it, which was expanded. -/
def Report.Justified (model : Model σ) (expanded : List (Node σ)) (report : Report σ) : Prop :=
  report.cause.isOfModel = true → ∃ origin ∈ expanded, report.node = some origin ∧
    model.successors origin.state = .error (.failure report.cause)

theorem Report.Justified.mono {model : Model σ} {expanded wider : List (Node σ)}
    {report : Report σ} (justified : report.Justified model expanded) (within : expanded ⊆ wider) :
    report.Justified model wider := by
  intro own
  obtain ⟨origin, member, same, raised⟩ := justified own
  exact ⟨origin, within member, same, raised⟩

/-! ## Files -/

namespace Page

variable {model : Model σ} {page : Page σ} {directory path : Path} {disk final : Disk}
  {id capacity : Nat} {failure : Failure}

theorem isOfModel_of_write (written : page.write model directory disk = (.error failure, final)) :
    failure.isOfModel = false := by
  unfold write at written
  split at written
  · obtain ⟨⟨rfl⟩, -⟩ := Prod.mk.inj written
    rfl
  · split at written
    · obtain ⟨⟨rfl⟩, -⟩ := Prod.mk.inj written
      rfl
    · cases written

theorem isOfModel_of_read (read : Page.read model path id capacity disk = (.error failure, final)) :
    failure.isOfModel = false := by
  unfold Page.read at read
  split at read
  · obtain ⟨⟨rfl⟩, -⟩ := Prod.mk.inj read
    rfl
  · split at read
    · obtain ⟨⟨rfl⟩, -⟩ := Prod.mk.inj read
      rfl
    · split at read
      · obtain ⟨⟨rfl⟩, -⟩ := Prod.mk.inj read
        rfl
      · cases read

end Page

namespace Frontier

variable {model : Model σ} {frontier later : Frontier σ} {disk final : Disk} {page : Page σ}
  {id : PageId} {failure : Failure}

/-- That a page is refused is no error of the model. -/
theorem isOfModel_of_enqueue
    (enqueued : frontier.enqueue model page disk = (.error (.failure failure), later, final)) :
    failure.isOfModel = false := by
  unfold enqueue at enqueued
  split at enqueued
  · cases enqueued
  · split at enqueued
    · generalize frontier.memory.put page = answer at enqueued
      rcases answer with ⟨fault | done, memory⟩ <;> simp [Except.mapError] at enqueued
    · rcases written : page.write model frontier.spill.directory disk with ⟨cause | path, disk'⟩
      · simp only [Spill.put, written, Except.mapError, Prod.mk.injEq, Except.error.injEq,
          Stop.failure.injEq] at enqueued
        exact enqueued.1 ▸ Page.isOfModel_of_write written
      · simp [Spill.put, written, Except.mapError] at enqueued

/-- That a page cannot be read is no error of the model. -/
theorem isOfModel_of_take
    (taken : frontier.take model id disk = (.error failure, later, final)) :
    failure.isOfModel = false := by
  unfold take at taken
  split at taken
  · cases taken
  · simp only [Spill.take] at taken
    split at taken
    · split at taken
      · rename_i read
        simp only [Prod.mk.injEq, Except.error.injEq] at taken
        exact taken.1 ▸ Page.isOfModel_of_read read
      · cases taken
    · cases taken

end Frontier

/-! ## Workers -/

namespace Worker

variable {model : Model σ} {worker next : Worker σ} {shared after : Shared σ} {events : History σ}
  {page : Page σ} {origin child : Node σ} {rest : List σ}

theorem mem_reports {report : Report σ} :
    report ∈ worker.reports ↔ worker.stage = .reporting report.node report.cause := by
  unfold reports
  split
  · rename_i node cause stage
    rw [stage, List.mem_singleton, Stage.reporting.injEq]
    constructor
    · rintro rfl
      exact ⟨rfl, rfl⟩
    · rintro ⟨rfl, rfl⟩
      rfl
  · rename_i other
    simpa using other report.node report.cause

theorem Stowed.ne_reporting (stowed : Stowed worker page origin child rest next)
    (node : Option (Node σ)) (cause : Failure) : next.stage ≠ .reporting node cause := by
  cases stowed <;> simp

/-- A worker comes to report an error of the model only because the model has just raised it. -/
theorem Turn.justified (turn : Turn model worker shared next after events) {report : Report σ}
    (reporting : report ∈ next.reports) : report.Justified model after.expanded := by
  have stage := mem_reports.mp reporting
  have foreign (none : report.cause.isOfModel = false) :
      report.Justified model after.expanded := by
    intro own
    rw [none] at own
    cases own
  cases turn with
  | rests final => simp [stage, Stage.isFinal] at final
  | heeds | idles | picks | overflows | expands | concludes | meets | skips | sinks | publishes
    | flushes | reports | latches | unwinds => cases stage
  | @fails node stop _ failed =>
    cases stop with
    | fault => cases stage
    | failure cause =>
      obtain ⟨same, rfl⟩ := Stage.reporting.inj stage
      exact fun _ => ⟨node, List.mem_cons_self, same.symm, failed⟩
  | accesses _ turn =>
    cases turn with
    | closed | reads | draws | outrun | misses | receives | rereads | ends | exhausts | breaks
      | retries | yields | latches | donates => cases stage
    | chokes taken =>
      obtain ⟨-, rfl⟩ := Stage.reporting.inj stage
      exact foreign (Frontier.isOfModel_of_take taken)
    | @refuses _ _ stop _ _ enqueued =>
      cases stop with
      | fault => cases stage
      | failure cause =>
        obtain ⟨-, rfl⟩ := Stage.reporting.inj stage
        exact foreign (Frontier.isOfModel_of_enqueue enqueued)
  | records _ room placed =>
    cases placed with
    | keeps | seeks => cases stage
    | stows holding stowed => exact absurd stage (stowed.ne_reporting _ _)
  | claims _ stowed => exact absurd stage (stowed.ne_reporting _ _)
  | @strands _ _ _ stop _ _ _ enqueued =>
    cases stop with
    | fault => cases stage
    | failure cause =>
      obtain ⟨-, rfl⟩ := Stage.reporting.inj stage
      exact foreign (Frontier.isOfModel_of_enqueue enqueued)

/-- What a mishap leads to is no error of the model. -/
theorem Failing.justified (failing : Failing model worker shared next after events)
    {expanded : List (Node σ)} {report : Report σ} (reporting : report ∈ next.reports) :
    report.Justified model expanded := by
  obtain ⟨node, cause, stage, foreign⟩ := failing.stage_eq
  have same := stage.symm.trans (mem_reports.mp reporting)
  obtain ⟨-, rfl⟩ := Stage.reporting.inj same
  intro own
  rw [foreign] at own
  cases own

/-- A report is kept if it is the first. -/
theorem Turn.report_eq_or (turn : Turn model worker shared next after events) :
    after.report = shared.report.or worker.reports.head? := by
  have silent (none : worker.reports = []) :
      shared.report = shared.report.or worker.reports.head? := by
    rw [none, List.head?_nil, Option.or_none]
  cases turn with
  | reports stage => cases kept : shared.report <;> simp [Report.publish, Worker.reports, stage]
  | rests final =>
    refine silent (List.eq_nil_iff_forall_not_mem.mpr fun report reporting => ?_)
    rw [mem_reports.mp reporting] at final
    cases final
  | heeds stage | idles stage | picks stage | accesses stage | fails stage | overflows stage
    | expands stage | concludes stage | meets stage | skips stage | sinks stage | records stage
    | claims stage | publishes stage | strands stage | flushes stage | latches stage
    | unwinds stage => exact silent (by simp [Worker.reports, stage])

end Worker

/-! ## Pools -/

namespace Pool

variable {model : Model σ} {pool : Pool σ} {past events : History σ} {position : Nat}
  {worker next : Worker σ} {shared : Shared σ}

/-- Every report that is kept or is about to be made is justified. -/
structure Charged (model : Model σ) (pool : Pool σ) : Prop where
  reports : ∀ worker ∈ pool.workers, ∀ report ∈ worker.reports,
    report.Justified model pool.shared.expanded
  report : ∀ report, pool.shared.report = some report →
    report.Justified model pool.shared.expanded

theorem Charged.step (found : pool.workers[position]? = some worker)
    (turn : worker.Turn model pool.shared next shared events) (charged : Charged model pool) :
    Charged model ⟨pool.workers.set position next, shared⟩ := by
  have within := turn.grows.1
  refine ⟨forall_mem_set (fun other old report made => ?_) fun report made => turn.justified made,
    fun report kept => ?_⟩
  · exact (charged.reports other old report made).mono within
  · replace kept : shared.report = some report := kept
    rw [turn.report_eq_or, Option.or_eq_some_iff] at kept
    rcases kept with before | ⟨-, first⟩
    · exact (charged.report report before).mono within
    · exact (charged.reports worker (List.mem_of_getElem? found) report
        (List.mem_of_mem_head? first)).mono within

theorem Charged.of_failing (failing : worker.Failing model pool.shared next shared events)
    (charged : Charged model pool) : Charged model ⟨pool.workers.set position next, shared⟩ := by
  have made : ∀ report ∈ next.reports, report.Justified model shared.expanded :=
    fun report reporting => failing.justified reporting
  obtain ⟨-, disk, rfl⟩ := failing.eq
  exact ⟨forall_mem_set charged.reports made, charged.report⟩

/-- A step amid mishaps keeps a report if it is the first. -/
theorem report_stepAmid (model : Model σ) (pool : Pool σ) (turn : Nat × Option Mishap) :
    (pool.stepAmid model turn).shared.report =
      pool.shared.report.or ((pool.workers[turn.1]?.map Worker.reports).getD []).head? := by
  unfold stepAmid
  cases pool.workers[turn.1]? with
  | none => simp
  | some worker =>
    rw [Option.map_some, Option.getD_some]
    rcases worker.turn_or_failing model turn.2 pool.shared with turned | failing
    · exact turned.report_eq_or
    · obtain ⟨-, disk, same⟩ := failing.eq
      rw [failing.reports_eq, List.head?_nil, Option.or_none]
      show (worker.stepAmid model turn.2 pool.shared).2.report = pool.shared.report
      rw [same]

/-- Of all reports that are published along a schedule, the first is kept, unless one was kept
before. -/
theorem report_followAmid (model : Model σ) (schedule : List (Nat × Option Mishap))
    (pool : Pool σ) :
    (pool.followAmid model schedule).shared.report =
      pool.shared.report.or (pool.reports model schedule).head? := by
  induction schedule generalizing pool with
  | nil => simp [followAmid, reports]
  | cons turn rest ih =>
    rw [reports, List.head?_append, ← Option.or_assoc, ← report_stepAmid]
    exact ih (pool.stepAmid model turn)

end Pool

end Wavefront
