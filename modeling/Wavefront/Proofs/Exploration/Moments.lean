/-
# The moments of a run

At a moment of a run its workers have made some steps, in whose way mishaps may have come; and a
worker may have failed to start on the way. `Course.Reaches` says which pools there are at some
moment of a run, and what has happened until then. What holds when the run is launched and is kept
by every step, by every mishap and by finishing the frontier holds at every moment. That is so of
the books, the nodes, the logs and the counts, of the reasons why workers leave, and of what they
report.
-/

import Wavefront.Proofs.Exploration.Tracing
import Wavefront.Proofs.Pool.GivingUp

namespace Wavefront

open History Trace

variable {σ : Type}

/-! ## Before the workers begin -/

theorem Worker.Fresh.rested {worker : Worker σ} (fresh : worker.Fresh) : worker.Rested :=
  ⟨fresh.stage, fresh.backlog⟩

namespace Pool

variable {model : Model σ} {initial done : List σ} {place : Location} {past : History σ}
  {pool : Pool σ}

theorem Ready.steady (ready : Ready model initial place done past pool) :
    Steady model past pool := by
  refine ⟨.inr fun worker member => ?_, fun worker member => ?_, fun worker member => ?_⟩
  all_goals have fresh := ready.fresh worker member
  · rw [fresh.stage]
    rfl
  · rw [Worker.Even, fresh.accepted, fresh.processed, fresh.backlog]
    rfl
  · rw [fresh.stage]
    exact Nat.zero_le _

theorem Ready.charged (ready : Ready model initial place done past pool) : Charged model pool := by
  refine ⟨fun worker member report reporting => ?_, by simp [ready.report]⟩
  cases (ready.fresh worker member).stage.symm.trans (Worker.mem_reports.mp reporting)

theorem Ready.counted (ready : Ready model initial place done past pool) : Counted past pool :=
  ⟨ready.crew, by simp [ready.quiet],
    fun worker member => by simp [(ready.fresh worker member).stage]⟩

/-- Along a schedule without mishaps the same happens as along any other. -/
theorem eventsAmid_none (schedule : List Nat) :
    pool.eventsAmid model (schedule.map (·, none)) = pool.events model schedule := by
  induction schedule generalizing pool with
  | nil => rfl
  | cons position rest ih => exact congrArg (_ ++ ·) ih

end Pool

/-! ## Moments -/

namespace Exploration.Course

variable {model : Model σ} {initial : List σ} {seen : Seen}

/-- The pool after the steps of a schedule that says which mishaps come in their way. -/
def poolAmid (course : Course model initial seen) (schedule : List (Nat × Option Mishap)) :
    Pool σ :=
  course.launch.pool.followAmid model schedule

/-- What happens during the launch and the steps of such a schedule. -/
def historyAmid (course : Course model initial seen) (schedule : List (Nat × Option Mishap)) :
    History σ :=
  course.opening ++ course.launch.pool.eventsAmid model schedule

/-- The pool when not all workers could be started: the steps before the pool is given up, and those
after it. -/
def poolShort (course : Course model initial seen) (before : List (Nat × Option Mishap))
    (shortage : Shortage) (after : List (Nat × Option Mishap)) : Pool σ :=
  ((course.poolAmid before).giveUp shortage.started).followAmid model after

/-- What happens until then. -/
def historyShort (course : Course model initial seen) (before : List (Nat × Option Mishap))
    (shortage : Shortage) (after : List (Nat × Option Mishap)) : History σ :=
  course.historyAmid before ++
    ((course.poolAmid before).giveUp shortage.started).eventsAmid model after

/-- What has happened and the pool, at a moment of a run. -/
inductive Reaches (course : Course model initial seen) : History σ → Pool σ → Prop where
  /-- All workers have been started. -/
  | amid (schedule : List (Nat × Option Mishap)) :
      Reaches course (course.historyAmid schedule) (course.poolAmid schedule)
  /-- Only some workers could be started, and no others have made steps. -/
  | short (before : List (Nat × Option Mishap)) (shortage : Shortage)
      (after : List (Nat × Option Mishap)) (few : ∀ turn ∈ before, turn.1 < shortage.started) :
      Reaches course (course.historyShort before shortage after)
        (course.poolShort before shortage after)

theorem reaches_pool (course : Course model initial seen) (schedule : List Nat) :
    course.Reaches (course.history schedule) (course.pool schedule) := by
  have amid : course.Reaches (course.historyAmid (schedule.map (·, none)))
      (course.poolAmid (schedule.map (·, none))) := .amid _
  rwa [historyAmid, poolAmid, Pool.eventsAmid_none, Pool.followAmid_none] at amid

/-- The run that the program makes when not all workers can be started follows one of the
schedules. -/
theorem exists_runAmid_eq (course : Course model initial seen) (shortage : Shortage) :
    ∃ after, runAmid (some shortage) course.settings model initial seen course.process
        course.number course.disk =
      ⟨(concludeShort shortage.cause (course.poolShort [] shortage after)).1,
        (concludeShort shortage.cause (course.poolShort [] shortage after)).2,
        (course.poolShort [] shortage after).shared.expanded.reverse, course.next⟩ := by
  obtain ⟨schedule, same⟩ := Pool.exists_follow_eq_rounds model Pool.patience
    (course.launch.pool.giveUp shortage.started)
  have settled : course.poolShort [] shortage (schedule.map (·, none)) =
      (course.launch.pool.giveUp shortage.started).settle model :=
    (Pool.followAmid_none _ _ _).trans same
  refine ⟨schedule.map (·, none), ?_⟩
  rw [settled, runAmid, course.launched]
  rfl

/-- When a worker could not be started, the frontier is finished. -/
theorem tail_poolShort (course : Course model initial seen) (before : List (Nat × Option Mishap))
    (shortage : Shortage) (after : List (Nat × Option Mishap)) :
    (course.poolShort before shortage after).shared.frontier.tail = .finished :=
  Pool.tail_followAmid (Pool.tail_giveUp _ _) after

namespace Reaches

variable {course : Course model initial seen} {past : History σ} {pool : Pool σ}

/-- What holds when a run is launched and is kept by every step, by every mishap and by finishing
the frontier holds at every moment. -/
theorem induction (reaches : course.Reaches past pool) (invariant : History σ → Pool σ → Prop)
    (turns : ∀ {past : History σ} {pool : Pool σ} {position : Nat} {worker next : Worker σ}
      {shared : Shared σ} {events : History σ}, pool.workers[position]? = some worker →
      worker.Turn model pool.shared next shared events → invariant past pool →
      invariant (past ++ events) ⟨pool.workers.set position next, shared⟩)
    (mishaps : ∀ {past : History σ} {pool : Pool σ} {position : Nat} {worker next : Worker σ}
      {shared : Shared σ} {events : History σ}, pool.workers[position]? = some worker →
      worker.Failing model pool.shared next shared events → invariant past pool →
      invariant (past ++ events) ⟨pool.workers.set position next, shared⟩)
    (finishes : ∀ {past : History σ} {pool : Pool σ}, invariant past pool →
      invariant past pool.finish)
    (start : invariant course.opening course.launch.pool) : invariant past pool := by
  have amid := fun schedule => Pool.followAmid_induction invariant turns mishaps start schedule
  cases reaches with
  | amid schedule => exact amid schedule
  | short before shortage after few =>
    obtain ⟨place, done, -, ready⟩ := course.exists_ready
    refine Pool.followAmid_induction invariant turns mishaps ?_ after
    refine Pool.giveUp_induction invariant turns finishes (fun position worker later found => ?_)
      (amid before)
    -- Nobody who was not started has made a step.
    rw [poolAmid, Pool.getElem?_followAmid fun turn member =>
      Nat.ne_of_lt (Nat.lt_of_lt_of_le (few turn member) later)] at found
    exact (ready.fresh worker (List.mem_of_getElem? found)).rested

/-- The books stay in balance, and the logs hold what was recorded. -/
theorem exists_logged (reaches : course.Reaches past pool) :
    ∃ place, Pool.Sound model place past pool ∧
      Logged model (recorded past) pool.logs pool.shared.disk := by
  obtain ⟨place, done, -, ready⟩ := course.exists_ready
  exact ⟨place, reaches.induction
    (fun past pool => Pool.Sound model place past pool ∧
      Logged model (recorded past) pool.logs pool.shared.disk)
    (fun found turn ⟨sound, logged⟩ =>
      ⟨sound.step found turn, Pool.logged_step found turn sound logged⟩)
    (fun found failing ⟨sound, logged⟩ => ⟨sound.of_failing found failing,
      Pool.logged_set found (failing.logging (sound.split found)) sound logged⟩)
    (fun ⟨sound, logged⟩ => ⟨sound.finish, logged⟩)
    ⟨ready.coherent.sound, ready.logged⟩⟩

/-- The books stay in balance, workers leave for a reason, and what they report is justified. -/
theorem exists_charged (reaches : course.Reaches past pool) :
    ∃ place, Pool.Sound model place past pool ∧ Pool.Heeded pool ∧ Pool.Charged model pool := by
  obtain ⟨place, done, -, ready⟩ := course.exists_ready
  exact ⟨place, reaches.induction
    (fun past pool => Pool.Sound model place past pool ∧ Pool.Heeded pool ∧
      Pool.Charged model pool)
    (fun found turn ⟨sound, heeded, charged⟩ =>
      ⟨sound.step found turn, heeded.step found turn, charged.step found turn⟩)
    (fun found failing ⟨sound, heeded, charged⟩ => ⟨sound.of_failing found failing,
      heeded.of_failing found failing, charged.of_failing failing⟩)
    (fun ⟨sound, heeded, charged⟩ => ⟨sound.finish, heeded.finish, charged.finish⟩)
    ⟨ready.coherent.sound, ready.concerted.heeded ready.coherent.watched, ready.charged⟩⟩

/-- The books, the nodes and the logs stay in order, and the assertions of all workers hold unless a
limit is reached. -/
theorem exists_steady (reaches : course.Reaches past pool)
    (calm : ∀ state, model.Reachable initial state → ∀ fault,
      model.successors state ≠ .error (.fault fault))
    (faithful : ∀ state, model.Reachable initial state → model.Faithful state) :
    ∃ place, Pool.Consistent model initial place past pool ∧ Pool.Tallied model pool ∧
      Pool.Steady model past pool := by
  obtain ⟨place, done, -, ready⟩ := course.exists_ready
  obtain ⟨consistent, tallied, -, steady⟩ := reaches.induction
    (fun past pool => Pool.Consistent model initial place past pool ∧ Pool.Tallied model pool ∧
      Pool.Counted past pool ∧ Pool.Steady model past pool)
    (fun found turn ⟨consistent, tallied, counted, steady⟩ =>
      ⟨consistent.step faithful found turn, tallied.step found turn,
        counted.step found turn consistent.sound,
        steady.step found turn consistent tallied calm
          (counted.held_eq_none consistent.sound found)⟩)
    (fun found failing ⟨consistent, tallied, counted, steady⟩ =>
      ⟨consistent.of_failing found failing, tallied.of_failing found failing,
        counted.of_failing found failing, steady.of_failing found failing⟩)
    (fun ⟨consistent, tallied, counted, steady⟩ =>
      ⟨consistent.finish, tallied.finish, counted.finish, steady.finish⟩)
    ⟨ready.coherent.toConsistent, ready.tallied, ready.counted, ready.steady⟩
  exact ⟨place, consistent, tallied, steady⟩

/-- Nobody joins a pool or is taken from it, and pages are spilled to the directory of the run. -/
theorem staffed (reaches : course.Reaches past pool) :
    pool.workers.length = course.settings.workerCount ∧
      pool.shared.frontier.spill.directory = course.launch.runDirectory :=
  reaches.induction
    (fun _ pool => pool.workers.length = course.settings.workerCount ∧
      pool.shared.frontier.spill.directory = course.launch.runDirectory)
    (fun _ turn ⟨length, directory⟩ => by
      obtain ⟨_, _, _, same, -⟩ := turn.frontier_eq
      exact ⟨by rwa [List.length_set], by rw [same]; exact directory⟩)
    (fun _ failing ⟨length, directory⟩ => by
      obtain ⟨-, disk, rfl⟩ := failing.eq
      exact ⟨by rwa [List.length_set], directory⟩)
    id ⟨course.length_workers [], course.directory_eq []⟩

/-- The frontier goes by the settings. -/
theorem follows (reaches : course.Reaches past pool) :
    pool.shared.frontier.Follows course.settings :=
  reaches.induction (fun _ pool => pool.shared.frontier.Follows course.settings)
    (fun _ turn follows => by
      obtain ⟨_, _, _, same, -⟩ := turn.frontier_eq
      exact follows.of_eq same)
    (fun _ failing follows => by
      obtain ⟨-, disk, rfl⟩ := failing.eq
      exact follows)
    (fun follows => ⟨follows.workers, follows.sizing, follows.memoryPages,
      follows.donationRetries⟩)
    (course.follows [])

end Reaches

end Exploration.Course

end Wavefront
