/-
# No assertion fails

Nothing that the engine relies on turns out to be wrong in any run: not while the initial states
are put on their pages, not in any step of any worker, and not when the run is concluded. This
holds for all settings and in any order of steps, of every model that does not break down itself
and that reads nothing else than it has written; its states may refuse to be written, what was
written may be unreadable, and the model may fail. It holds as long as no level and no number of
samples reaches its limit.
-/

import Wavefront.Proofs.Exploration.Conclusion
import Wavefront.Proofs.Exploration.Moments

namespace Wavefront

open History

variable {σ : Type}

namespace Pool

variable {model : Model σ} {initial done : List σ} {place : Location} {past : History σ}
  {pool : Pool σ} {worker next : Worker σ} {others : List (Worker σ)} {shared after : Shared σ}
  {state : σ} {stop : Stop}

/-! ## Seeding -/

/-- An initial state is refused only because its page cannot be written. -/
theorem Ready.exists_failure
    (ready : Ready model initial place done past ⟨worker :: others, shared⟩)
    (refused : worker.seed model state 1 shared = (.error stop, next, after)) :
    ∃ failure, stop = .failure failure := by
  unfold Worker.seed at refused
  cases known : shared.seen.contains (model.fingerprint state) with
  | true => simp [Seen.meet, known] at refused
  | false =>
    simp only [Seen.meet, known, Bool.not_false, if_true, Worker.recordInitial] at refused
    rcases enqueued : shared.frontier.enqueueNode model (worker.seedling model state)
      shared.disk with ⟨stop' | ⟨⟩, frontier, disk⟩
    all_goals
      rw [Worker.seedling] at enqueued
      simp only [enqueued, Except.map, Prod.mk.injEq, reduceCtorEq, Except.error.injEq,
        false_and] at refused
    obtain ⟨rfl, -, -⟩ := refused
    exact ready.books.exists_failure_of_enqueueNode ready.positive enqueued

/-- The initial states that a worker puts on their pages are refused only because of files. -/
theorem Ready.exists_failure_of_seed {states : List σ} (whole : initial = done ++ states)
    (ready : Ready model initial place done past ⟨worker :: others, shared⟩)
    (seeded : Exploration.seed model states worker shared = (.error stop, next, after)) :
    ∃ failure, stop = .failure failure := by
  induction states generalizing done past worker shared with
  | nil => simp [Exploration.seed] at seeded
  | cons state rest ih =>
    rcases first : worker.seed model state 1 shared with ⟨stop' | answer, worker', shared'⟩
    · simp only [Exploration.seed, first, Prod.mk.injEq, Except.error.injEq] at seeded
      obtain ⟨rfl, -, -⟩ := seeded
      exact ready.exists_failure first
    · simp only [Exploration.seed, first] at seeded
      refine ih ?_ (ready.seed whole (Worker.seeding_seed first)) seeded
      rw [whole, List.append_assoc]
      rfl

/-! ## Conclusions -/

/-- If no worker has a fault, then there is no first one. -/
theorem firstFault?_eq_none (whole : ∀ worker ∈ pool.workers, worker.stage.fault? = none) :
    Exploration.firstFault? pool.workers = none := by
  cases first : Exploration.firstFault? pool.workers with
  | none => rfl
  | some fault =>
    obtain ⟨worker, member, broken⟩ := Exploration.exists_broken_of_firstFault? first
    have none := whole worker member
    rw [broken] at none
    cases none

/-- A run in which nobody has broken down ends without a fault if the frontier is finished and the
workers' counts can be added up. -/
theorem conclude_ne_fault {launch : Exploration.Launch σ} {summary : Summary}
    (sound : Exploration.firstFault? pool.workers = none)
    (stocks : pool.shared.frontier.Stocks model place {page | page ∈ waiting past} pool.shared.disk)
    (ended : pool.shared.frontier.tail = .finished)
    (counted : Exploration.summaryOf launch pool = .ok summary) (fault : Fault) :
    (Exploration.conclude launch pool).1 ≠ .error (.fault fault) := by
  obtain ⟨dropped, final, discarded, -, -⟩ := stocks.discard_of_finished ended
  simp only [Exploration.conclude, sound, discarded, counted]
  rcases Exploration.judge pool.shared.report (Exploration.logs pool.workers) final with
    ⟨failure | verdict, rest, disk⟩ <;> simp [Except.mapError, Except.map]

end Pool

namespace Exploration

variable {model : Model σ} {initial : List σ} {seen : Seen}

/-- Whatever a launch is refused for, it is no fault. -/
theorem launch_ne_fault (settings : Settings) (model : Model σ) (initial : List σ) (seen : Seen)
    (process number : Nat) (disk : Disk) (fault : Fault) :
    (launch settings model initial seen process number disk).1 ≠ .error (.fault fault) := by
  unfold launch
  cases valid : settings.validate with
  | error cause => simp
  | ok done =>
    rcases prepareDirectory settings process number disk with ⟨failure | directory, next, prepared⟩
    · simp
    · simp only [launchIn]
      rcases established : @Frontier.establish σ { settings with directory := directory }
        prepared with ⟨failure | frontier, opened⟩
      · simp
      · simp only
        rcases hiring : @hire σ directory settings.specName settings.localBacklog
            ((List.range settings.workerCount).map UInt16.ofNat) opened with
          ⟨failure | workers, hired⟩
        · simp
        · obtain ⟨place, ready⟩ := @ready_of_hire _ _ _ model initial seen _ _ _ _ _ valid
            established hiring
          simp only
          cases workers with
          | nil => simp [seedFirst]
          | cons first others =>
            rcases seeded : seed model initial first ⟨frontier, hired, seen, none, []⟩ with
              ⟨stop | ⟨⟩, worker, shared⟩
            · have every : initial = [] ++ initial := rfl
              obtain ⟨failure, rfl⟩ := ready.exists_failure_of_seed every seeded
              simp [seedFirst, seeded]
            · simp [seedFirst, seeded]

/-- If a worker could not be started and nobody has broken down, then the run ends with the reason
why it could not. -/
theorem Course.fst_concludeShort (course : Course model initial seen)
    {before after : List (Nat × Option Mishap)} {shortage : Shortage}
    (few : ∀ turn ∈ before, turn.1 < shortage.started)
    (unbroken : firstFault? (course.poolShort before shortage after).workers = none) :
    (concludeShort shortage.cause (course.poolShort before shortage after)).1 =
      .error (.failure (.io shortage.cause)) := by
  obtain ⟨place, sound, -⟩ := (Course.Reaches.short before shortage after few).exists_logged
  obtain ⟨_, _, _, -, -, concluded⟩ := @Pool.Sound.concludeShort_eq _ _ _ _ _ shortage.cause sound
    unbroken (course.tail_poolShort before shortage after)
  rw [concluded]

/-- The assertions of all workers hold. Nobody is about to break down or has broken down; what a
worker has taken out of its backlog does not exceed what it has put in, so the number of unexplored
nodes is what is left there; a worker gives up its page before it has looked too often; and a page
is refused only because of its file. -/
structure Course.Assured (course : Course model initial seen) (past : History σ) (pool : Pool σ) :
    Prop where
  whole : ∀ worker ∈ pool.workers, worker.stage.fault? = none
  counts : ∀ worker ∈ pool.workers,
    worker.processed ≤ worker.accepted ∧ worker.unexplored = worker.backlog.size
  patient : ∀ worker ∈ pool.workers, worker.stage.retries ≤ course.settings.donationRetries
  causes : ∀ stop ∈ causes past, ∃ failure, stop = .failure failure

/-- No assertion of the engine fails. A launch may be refused, but not for a fault. At every moment
of a run the assertions of all workers hold, whatever comes in the way of their steps, and also if a
worker cannot be started. When all workers have come to their ends, the frontier is finished, so the
pages that wait may be dropped, and the run does not end with a fault either; and if a worker could
not be started, then it ends with the reason for that.

The model may fail, its states may refuse to be written, and what was written may be unreadable. -/
theorem assertions_hold
    (calm : ∀ state, model.Reachable initial state → ∀ fault,
      model.successors state ≠ .error (.fault fault))
    (faithful : ∀ state, model.Reachable initial state → model.Faithful state) :
    (∀ settings process number disk fault,
      (launch settings model initial seen process number disk).1 ≠ .error (.fault fault)) ∧
    (∀ (course : Course model initial seen) past pool, course.Reaches past pool →
      ¬ Pool.Limited model past pool → course.Assured past pool) ∧
    (∀ (course : Course model initial seen) (schedule : List (Nat × Option Mishap)),
      0 < course.settings.workerCount →
      ¬ Pool.Limited model (course.historyAmid schedule) (course.poolAmid schedule) →
      (course.poolAmid schedule).isSettled = true →
      (course.poolAmid schedule).shared.frontier.tail = .finished ∧
        ∀ fault, (conclude course.launch (course.poolAmid schedule)).1 ≠ .error (.fault fault)) ∧
    ∀ (course : Course model initial seen) (before after : List (Nat × Option Mishap))
      (shortage : Shortage), (∀ turn ∈ before, turn.1 < shortage.started) →
      ¬ Pool.Limited model (course.historyShort before shortage after)
        (course.poolShort before shortage after) →
      (concludeShort shortage.cause (course.poolShort before shortage after)).1 =
        .error (.failure (.io shortage.cause)) := by
  refine ⟨fun settings process number disk fault =>
    launch_ne_fault settings model initial seen process number disk fault, ?_, ?_, ?_⟩
  · intro course past pool reaches within
    obtain ⟨place, consistent, -, steady⟩ := reaches.exists_steady calm faithful
    refine ⟨steady.whole.resolve_left within, fun worker member => ?_, ?_,
      consistent.conserved.causes⟩
    · have even := steady.even worker member
      refine ⟨?_, ?_⟩
      · rw [even]
        exact Nat.le_add_right _ _
      · rw [even.unexplored, Fifo.size_eq_length]
    · rw [← reaches.follows.donationRetries]
      exact steady.patient
  · intro course schedule staffed within settled
    have reaches : course.Reaches (course.historyAmid schedule) (course.poolAmid schedule) :=
      .amid schedule
    obtain ⟨place, consistent, tallied, steady⟩ := reaches.exists_steady calm faithful
    obtain ⟨-, -, heeded, -⟩ := reaches.exists_charged
    have unbroken := Pool.firstFault?_eq_none (steady.whole.resolve_left within)
    have team : (course.poolAmid schedule).workers ≠ [] :=
      List.ne_nil_of_length_pos (reaches.staffed.1 ▸ staffed)
    have ended := heeded.tail_of_stopped (Pool.stopped_of_isSettled settled unbroken) team
    obtain ⟨summary, counted, -⟩ := @Pool.Tallied.exists_summaryOf _ _ _ course.launch tallied
      (Nat.le_of_not_lt fun many => within (.inr many))
    exact ⟨ended, Pool.conclude_ne_fault unbroken consistent.sound.books.stocks ended counted⟩
  · intro course before after shortage few within
    obtain ⟨-, -, -, steady⟩ :=
      (Course.Reaches.short before shortage after few).exists_steady calm faithful
    exact course.fst_concludeShort few
      (Pool.firstFault?_eq_none (steady.whole.resolve_left within))

/-- A grid in which one state refuses to be written. Two workers come to their ends after one of
them could not enqueue the page with that state and the other could not bring its log up to date.
And if the second worker cannot be started, then the first one comes to its end alone. -/
theorem assertions_hold_of_refusal :
    let grid : CounterGrid := ⟨2, 2, none⟩
    let model : Model GridState := { grid.model with
      encode := fun state =>
        if state = ⟨1, 0⟩ then ⟨[], some (.invalidData "refused")⟩ else grid.model.encode state }
    let turns : List (Nat × Option Mishap) := (List.range 60).map fun number =>
      (number % 2, if number < 20 then none else some (.logging (.other "no space left")))
    let alone (count : Nat) : List (Nat × Option Mishap) := List.replicate count (0, none)
    let shortage : Shortage := ⟨1, .other "no threads left"⟩
    ∃ course : Course model grid.initialStates .empty,
      (causes (course.historyAmid turns)).length = 1 ∧
      (course.launch.pool.reports model turns).length = 2 ∧
      (course.poolAmid turns).isSettled = true ∧
      course.Assured (course.historyAmid turns) (course.poolAmid turns) ∧
      (∀ fault, (conclude course.launch (course.poolAmid turns)).1 ≠ .error (.fault fault)) ∧
      (course.poolShort (alone 5) shortage (alone 60)).isSettled = true ∧
      (concludeShort shortage.cause (course.poolShort (alone 5) shortage (alone 60))).1 =
        .error (.failure (.io shortage.cause)) := by
  intro grid model turns alone shortage
  let settings : Settings := { Settings.standard ⟨["runs"]⟩ with
    workers := 2, pageSizing := .fixed 1, inMemoryPages := 1, localBacklog := 0 }
  let course := (Course.launch? settings model grid.initialStates .empty 1 0 .empty).get
    (by decide +kernel)
  have calm : ∀ state, model.Reachable grid.initialStates state → ∀ fault,
      model.successors state ≠ .error (.fault fault) := fun state _ fault raised => nomatch raised
  have faithful : ∀ state, model.Reachable grid.initialStates state → model.Faithful state := by
    intro state _ written
    by_cases refused : state = ⟨1, 0⟩
    · subst refused
      cases written
    · have same : model.encode state = grid.model.encode state := if_neg refused
      rw [same] at written ⊢
      exact (grid.lossless_model.restores state).faithful written
  have within : ¬ Pool.Limited model (course.historyAmid turns) (course.poolAmid turns) := by
    unfold Pool.Limited
    decide +kernel
  have within' : ¬ Pool.Limited model (course.historyShort (alone 5) shortage (alone 60))
      (course.poolShort (alone 5) shortage (alone 60)) := by
    unfold Pool.Limited
    decide +kernel
  have settled : (course.poolAmid turns).isSettled = true := by decide +kernel
  obtain ⟨-, each, concluded, short⟩ :=
    @assertions_hold _ model grid.initialStates .empty calm faithful
  exact ⟨course, by decide +kernel, by decide +kernel, settled,
    each course _ _ (.amid turns) within,
    (concluded course turns (by decide +kernel) within settled).2, by decide +kernel,
    short course (alone 5) (alone 60) shortage (by decide +kernel) within'⟩

end Exploration

end Wavefront
