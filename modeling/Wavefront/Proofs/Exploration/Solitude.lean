/-
# Runs with a single worker

A run with a single worker goes only one way: a schedule decides nothing but the number of
steps. `Course.Lone` says that a run has a single worker and that nothing fails outside of
the model, and `Worker.Solitary` what is then known at any moment. What every step of such
a worker preserves holds after any number of steps.
-/

import Mathlib.Data.List.Induction
import Wavefront.Proofs.Exploration.Exactness
import Wavefront.Proofs.Pool.Solitude

namespace Wavefront

open History

variable {σ : Type}

namespace Worker

variable {model : Model σ} {initial : List σ} {place : Location} {past events : History σ}
  {worker next : Worker σ} {shared after : Shared σ}

/-- Everything that is known of the only worker of a run, as long as no page is refused. -/
structure Solitary (model : Model σ) (initial : List σ) (place : Location) (past : History σ)
    (worker : Worker σ) (shared : Shared σ) : Prop where
  surveyed : Pool.Surveyed model initial place past ⟨[worker], shared⟩
  alone : worker.Alone past shared
  kept : refused past = []

namespace Solitary

theorem sound (solitary : worker.Solitary model initial place past shared) :
    Pool.Sound model place past ⟨[worker], shared⟩ :=
  solitary.surveyed.coherent.sound

theorem watched (solitary : worker.Solitary model initial place past shared) :
    Pool.Watched past ⟨[worker], shared⟩ :=
  solitary.surveyed.coherent.watched

/-- What waits can be restored. -/
theorem restores (solitary : worker.Solitary model initial place past shared)
    (restores : ∀ state, model.Reachable initial state → model.Restores state) :
    ∀ node ∈ nodesOn (waiting past), model.Restores node.state := by
  intro node waits
  have coherent := solitary.surveyed.coherent
  exact restores _ (coherent.reachable node (coherent.conserved.waiting_subset waits))

/-- A page that waits has a node on it. -/
theorem size_pos (solitary : worker.Solitary model initial place past shared) {page : Page σ}
    (waits : page ∈ waiting past) : 0 < page.size :=
  solitary.sound.books.nonempty page (mem_waiting.mp waits).1

/-- An access of its call turns out in one of the ways listed. -/
theorem access (solitary : worker.Solitary model initial place past shared)
    (restores : ∀ state, model.Reachable initial state → model.Restores state)
    (kept : refused events = []) {wait : Wait σ} {accessed : Accessed σ}
    (stage : worker.stage = .waiting wait)
    (turn : Wait.Turn model worker.held shared.frontier shared.disk wait accessed events) :
    Access past worker.held shared.frontier shared.disk wait accessed events :=
  solitary.alone.access solitary.sound solitary.watched (solitary.restores restores) kept stage turn

/-- A step leaves the worker alone. -/
theorem step (solitary : worker.Solitary model initial place past shared)
    (restores : ∀ state, model.Reachable initial state → model.Restores state)
    (turn : Turn model worker shared next after events) (kept : refused events = []) :
    next.Solitary model initial place (past ++ events) after where
  surveyed :=
    have found : ([worker] : List (Worker σ))[0]? = some worker := rfl
    solitary.surveyed.step restores found turn
  alone := turn.alone solitary.alone solitary.sound solitary.watched
  kept := by rw [refused_append, solitary.kept, kept, List.append_nil]

end Solitary

end Worker

namespace Pool.Ready

variable {model : Model σ} {initial : List σ} {place : Location} {past : History σ}
  {worker : Worker σ} {shared : Shared σ}

/-- A worker that has not begun is alone. -/
theorem alone {done : List σ}
    (ready : Ready model initial place done past ⟨[worker], shared⟩) :
    worker.Alone past shared where
  enqueued := ready.ordered
  answered := by simp [answered, ready.quiet.1]
  newest page member := by
    rw [(ready.fresh worker (by simp)).pages_eq] at member
    cases member
  live _ := by
    refine ⟨fun ended => ?_, ready.report⟩
    cases ready.tail.symm.trans ended
  seen stage := by simp [(ready.fresh worker (by simp)).stage] at stage
  read stage := by simp [(ready.fresh worker (by simp)).stage] at stage
  missed stage := by simp [(ready.fresh worker (by simp)).stage] at stage

end Pool.Ready

namespace Exploration.Course

variable {model : Model σ} {initial : List σ}

/-- With a single worker, a schedule decides nothing but the number of steps. -/
theorem eq_replicate (course : Course model initial .empty)
    (single : course.settings.workerCount = 1) (schedule : List Nat) :
    course.pool schedule = course.pool (List.replicate (schedule.count 0) 0) ∧
      course.history schedule = course.history (List.replicate (schedule.count 0) 0) := by
  induction schedule using List.reverseRecOn with
  | nil => exact ⟨rfl, rfl⟩
  | append_singleton schedule position ih =>
    obtain ⟨pools, histories⟩ := ih
    by_cases own : position = 0
    · subst own
      rw [List.count_append, List.count_singleton_self, List.replicate_succ', pool_append,
        pool_append, history_append, history_append, pools, histories]
      exact ⟨rfl, rfl⟩
    · obtain ⟨worker, one⟩ :=
        List.length_eq_one_iff.mp ((course.length_workers schedule).trans single)
      obtain ⟨same, quiet⟩ := Pool.stepAt_of_ne_zero one own
      have steps : (schedule ++ [position]).count 0 = schedule.count 0 := by
        rw [List.count_append, List.count_singleton, if_neg (by simpa using own), Nat.add_zero]
      rw [steps, ← pools, ← histories, pool_append, history_append, Pool.events, Pool.events, quiet]
      exact ⟨same, by simp⟩

/-- Schedules in which the single worker has as many turns lead to the same. -/
theorem eq_of_count (course : Course model initial .empty)
    (single : course.settings.workerCount = 1) {schedule other : List Nat}
    (same : schedule.count 0 = other.count 0) :
    course.pool schedule = course.pool other ∧ course.history schedule = course.history other := by
  rw [(course.eq_replicate single schedule).1, (course.eq_replicate single schedule).2, same,
    ← (course.eq_replicate single other).1, ← (course.eq_replicate single other).2]
  exact ⟨rfl, rfl⟩

/-- The next step of a run with a single worker. -/
theorem step_of_single (course : Course model initial .empty) {schedule : List Nat}
    {worker : Worker σ} (single : (course.pool schedule).workers = [worker]) :
    course.pool (schedule ++ [0]) =
        ⟨[(worker.step model (course.pool schedule).shared).1],
          (worker.step model (course.pool schedule).shared).2⟩ ∧
      course.history (schedule ++ [0]) =
        course.history schedule ++ worker.events model (course.pool schedule).shared := by
  refine ⟨(course.pool_append schedule [0]).trans (Pool.stepAt_of_single single), ?_⟩
  rw [course.history_append, Pool.events, Pool.events, Pool.eventsAt, single]
  simp

/-- What the program's run leaves behind. -/
def result (course : Course model initial .empty) : Result σ :=
  check course.settings model initial course.process course.number course.disk

/-- If a single worker comes to its end before the program's patience does, then the result is drawn
from what it has come to. -/
theorem result_of_isSettled (course : Course model initial .empty)
    (single : course.settings.workerCount = 1) {steps : Nat}
    (settled : (course.pool (List.replicate steps 0)).isSettled = true)
    (patient : steps ≤ Pool.patience) :
    course.result = ⟨(conclude course.launch (course.pool (List.replicate steps 0))).1,
      (conclude course.launch (course.pool (List.replicate steps 0))).2,
      (course.pool (List.replicate steps 0)).shared.expanded.reverse, course.next⟩ := by
  have same : course.launch.pool.settle model = course.pool (List.replicate steps 0) :=
    Pool.rounds_of_isSettled ((course.length_workers []).trans single) settled patient
  exact run_of_launch course.launched same

/-- The path of the first worker's log. -/
def logPath (course : Course model initial .empty) : Path :=
  course.launch.runDirectory.join (Log.fileName course.settings.specName 0)

/-- A run with a single worker, in which no page fails to be written and every state is restored
from what is written of it. -/
structure Lone (course : Course model initial .empty) : Prop where
  single : course.settings.workerCount = 1
  restores : ∀ state, model.Reachable initial state → model.Restores state
  written : ∀ schedule failure, .failure failure ∉ causes (course.history schedule)

/-- No page fails to be written if there is room for the pages. -/
theorem Roomy.lone {course : Course model initial .empty} (roomy : course.Roomy)
    (single : course.settings.workerCount = 1)
    (restores : ∀ state, model.Reachable initial state → model.Restores state) : course.Lone :=
  ⟨single, restores, course.failure_notMem_causes roomy restores⟩

namespace Lone

variable {course : Course model initial .empty}

/-- There is one worker. -/
theorem exists_workers_eq (lone : course.Lone) (schedule : List Nat) :
    ∃ worker, (course.pool schedule).workers = [worker] :=
  List.length_eq_one_iff.mp ((course.length_workers schedule).trans lone.single)

theorem staffed (lone : course.Lone) : 0 < course.settings.workerCount := by
  rw [lone.single]
  exact Nat.one_pos

/-- No page is refused. -/
theorem refused_eq_nil (lone : course.Lone) (schedule : List Nat) :
    refused (course.history schedule) = [] := by
  obtain ⟨place, surveyed⟩ := course.exists_surveyed lone.staffed lone.restores schedule
  exact surveyed.coherent.conserved.refused_eq_nil (lone.written schedule)

/-- The only worker is alone from the beginning. -/
theorem exists_launch (lone : course.Lone) :
    ∃ place worker, course.launch.pool.workers = [worker] ∧ worker.Fresh ∧
      worker.Solitary model initial place course.opening course.launch.pool.shared := by
  obtain ⟨worker, single⟩ := lone.exists_workers_eq []
  have whole : course.launch.pool = ⟨[worker], course.launch.pool.shared⟩ := by
    rw [← (show course.launch.pool.workers = [worker] from single)]
  obtain ⟨⟨place, surveyed⟩, -⟩ := course.exists_surveyed_launch lone.staffed
  obtain ⟨_, _, -, ready⟩ := course.exists_ready
  rw [whole] at surveyed ready
  exact ⟨place, worker, single, ready.fresh worker List.mem_cons_self, surveyed, ready.alone,
    ready.quiet.2.2⟩

/-- What a step of the only worker preserves holds along every schedule, whose length does not
matter but for the steps that the worker makes. -/
theorem step_induction (lone : course.Lone)
    {invariant : Nat → History σ → Worker σ → Shared σ → Prop}
    (start : ∀ {place : Location} {worker : Worker σ} {shared : Shared σ},
      course.launch.pool = ⟨[worker], shared⟩ → worker.Fresh →
      worker.Solitary model initial place course.opening shared →
      invariant 0 course.opening worker shared)
    (preserved : ∀ {place : Location} {steps : Nat} {past : History σ} {worker : Worker σ}
      {shared : Shared σ}, worker.Solitary model initial place past shared →
      refused (worker.events model shared) = [] → invariant steps past worker shared →
      invariant (steps + 1) (past ++ worker.events model shared) (worker.step model shared).1
        (worker.step model shared).2)
    (schedule : List Nat) :
    ∃ place worker, (course.pool schedule).workers = [worker] ∧
      worker.Solitary model initial place (course.history schedule) (course.pool schedule).shared ∧
      invariant (schedule.count 0) (course.history schedule) worker
        (course.pool schedule).shared := by
  obtain ⟨pools, histories⟩ := course.eq_replicate lone.single schedule
  rw [pools, histories]
  generalize schedule.count 0 = steps
  induction steps with
  | zero =>
    obtain ⟨place, worker, single, fresh, solitary⟩ := lone.exists_launch
    have none : course.history [] = course.opening := List.append_nil _
    rw [List.replicate_zero, none]
    refine ⟨place, worker, single, solitary, start ?_ fresh solitary⟩
    rw [← single]
    rfl
  | succ steps ih =>
    obtain ⟨place, worker, single, solitary, before⟩ := ih
    obtain ⟨stepped, histories⟩ := course.step_of_single single
    have kept := lone.refused_eq_nil (List.replicate steps 0 ++ [0])
    rw [histories, refused_append, List.append_eq_nil_iff] at kept
    rw [List.replicate_succ', stepped, histories]
    exact ⟨place, _, rfl, solitary.step lone.restores (worker.turn_step model _) kept.2,
      preserved solitary kept.2 before⟩

/-- What every turn of the only worker preserves holds along every schedule. -/
theorem induction (lone : course.Lone)
    {invariant : Nat → History σ → Worker σ → Shared σ → Prop}
    (start : ∀ {place : Location} {worker : Worker σ} {shared : Shared σ},
      course.launch.pool = ⟨[worker], shared⟩ → worker.Fresh →
      worker.Solitary model initial place course.opening shared →
      invariant 0 course.opening worker shared)
    (preserved : ∀ {place : Location} {steps : Nat} {past events : History σ}
      {worker next : Worker σ} {shared after : Shared σ},
      worker.Solitary model initial place past shared →
      worker.Turn model shared next after events → refused events = [] →
      invariant steps past worker shared → invariant (steps + 1) (past ++ events) next after)
    (schedule : List Nat) :
    ∃ place worker, (course.pool schedule).workers = [worker] ∧
      worker.Solitary model initial place (course.history schedule) (course.pool schedule).shared ∧
      invariant (schedule.count 0) (course.history schedule) worker
        (course.pool schedule).shared :=
  lone.step_induction start
    (fun solitary kept before => preserved solitary (Worker.turn_step model _ _) kept before)
    schedule

/-- The program's run makes as many steps as it has patience for, and its result is drawn from what
they come to. -/
theorem exists_result_eq (lone : course.Lone) :
    ∃ turns : List Nat, turns.count 0 = Pool.patience ∧
      course.launch.pool.settle model = course.pool turns ∧
      course.result = ⟨(conclude course.launch (course.pool turns)).1,
        (conclude course.launch (course.pool turns)).2,
        (course.pool turns).shared.expanded.reverse, course.next⟩ := by
  have settled : course.launch.pool.settle model =
      course.pool (List.replicate Pool.patience 0) :=
    Pool.rounds_eq_follow ((course.length_workers []).trans lone.single) _
  have count : (List.replicate Pool.patience 0).count 0 = Pool.patience :=
    List.count_replicate_self
  -- The number of steps is far too large to be computed with.
  generalize List.replicate Pool.patience 0 = turns at settled count
  exact ⟨turns, count, settled, run_of_launch course.launched settled⟩

/-- The file of the only log holds the records of all nodes after the run. -/
theorem read_conclude (lone : course.Lone) (schedule : List Nat) :
    (conclude course.launch (course.pool schedule)).2.read course.logPath =
      .ok ((Trace.recordsOf model (recorded (course.history schedule)) 0).flatMap
        Record.encode) := by
  obtain ⟨place, surveyed⟩ := course.exists_surveyed lone.staffed lone.restores schedule
  have named : (0, course.logPath) ∈ (course.pool schedule).logs.map Log.name := by
    rw [course.names_logs, lone.single]
    exact List.mem_cons_self
  obtain ⟨log, member, same⟩ := List.mem_map.mp named
  obtain ⟨owner, path⟩ := Prod.mk.inj same
  have file := @Pool.Surveyed.read_conclude _ _ _ _ _ _ course.launch surveyed log member
  rwa [owner, path] at file

/-- The only worker is alone at any moment. -/
theorem exists_solitary (lone : course.Lone) (schedule : List Nat) :
    ∃ place worker, (course.pool schedule).workers = [worker] ∧
      worker.Solitary model initial place (course.history schedule)
        (course.pool schedule).shared := by
  obtain ⟨place, worker, single, solitary, -⟩ :=
    @induction _ _ _ _ lone (fun _ _ _ _ => True) (fun _ _ _ => trivial)
      (fun _ _ _ _ => trivial) schedule
  exact ⟨place, worker, single, solitary⟩

end Lone

end Exploration.Course

end Wavefront
