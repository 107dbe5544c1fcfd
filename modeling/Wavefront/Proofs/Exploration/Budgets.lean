/-
# Budgets do not show

How many pages wait in memory, and how often a worker looks for a page before it gives its own
away, makes no difference to a run with a single worker. Two runs whose settings differ in
nothing else go through the same steps: their workers are twins, alike in everything but the
handles of their logs and the places where pages wait. A worker that is alone finds the same
page wherever it waits, and it never comes to ask how often it has looked.

So the two runs have the same history, and everything that a run ends with is drawn from its
history and from what twins have in common.
-/

import Wavefront.Proofs.Exploration.Solitude
import Wavefront.Proofs.Worker.Logs

namespace Wavefront

open History Trace

variable {σ : Type}

/-! ## Twins -/

/-- Where the pages of a frontier wait, and for how long a worker looks for one. -/
structure Housing (σ : Type) where
  memoryPages : Nat
  donationRetries : Nat
  memory : Memory σ
  spill : Spill

/-- A frontier with the same pages in other places. -/
def Frontier.housed (frontier : Frontier σ) (housing : Housing σ) : Frontier σ :=
  { frontier with
    memoryPages := housing.memoryPages
    donationRetries := housing.donationRetries
    memory := housing.memory
    spill := housing.spill }

/-- What workers share, with the same pages in other places. -/
def Shared.housed (shared : Shared σ) (housing : Housing σ) (disk : Disk) : Shared σ :=
  { shared with frontier := shared.frontier.housed housing, disk := disk }

/-- Shared states that agree in all else differ in the places where pages wait. -/
theorem Shared.eq_housed {shared alike : Shared σ}
    (workers : alike.frontier.workers = shared.frontier.workers)
    (sizing : alike.frontier.sizing = shared.frontier.sizing)
    (head : alike.frontier.head = shared.frontier.head)
    (tail : alike.frontier.tail = shared.frontier.tail) (seen : alike.seen = shared.seen)
    (report : alike.report = shared.report) (expanded : alike.expanded = shared.expanded) :
    alike = shared.housed ⟨alike.frontier.memoryPages, alike.frontier.donationRetries,
      alike.frontier.memory, alike.frontier.spill⟩ alike.disk := by
  simp only [housed, Frontier.housed, ← workers, ← sizing, ← head, ← tail, ← seen, ← report,
    ← expanded]

namespace Worker

variable {model : Model σ} {initial : List σ} {place home : Location} {past events : History σ}
  {worker other : Worker σ} {shared alike : Shared σ} {state : σ} {log : Log} {housing : Housing σ}
  {disk : Disk}

/-- A worker with another log that is as long, which shares the same pages in other places. -/
inductive Twin (worker : Worker σ) (shared : Shared σ) : Worker σ → Shared σ → Prop where
  | intro {log : Log} {housing : Housing σ} {disk : Disk}
      (owner : log.worker = worker.log.worker) (count : log.count = worker.log.count) :
      Twin worker shared (worker.withLog log) (shared.housed housing disk)

/-- A record is appended at the same place in both logs. -/
theorem append_eq_of_twin {log twin : Log} (owner : twin.worker = log.worker)
    (count : twin.count = log.count) (record : Record) :
    (twin.append record).1 = (log.append record).1 ∧
      (twin.append record).2.worker = (log.append record).2.worker ∧
        (twin.append record).2.count = (log.append record).2.count := by
  simp [Log.append, Log.size, owner, count]

/-- Twins seed a state in the same way. -/
theorem Twin.seed {next next' : Worker σ} {after after' : Shared σ} {events' : History σ}
    (twin : Twin worker shared other alike)
    (one : worker.Seeding model state shared next after events)
    (two : other.Seeding model state alike next' after' events') :
    events' = events ∧ Twin next after next' after' := by
  cases twin with
  | @intro log housing disk owner count =>
    cases one with
    | knows known =>
      cases two with
      | knows => exact ⟨rfl, .intro owner count⟩
      | plants new => cases new.symm.trans known
    | @plants page _ _ new added enqueued =>
      cases two with
      | knows known => cases new.symm.trans known
      | @plants page' _ _ _ added' enqueued' =>
        obtain ⟨uid, owner', count'⟩ :=
          append_eq_of_twin owner count (.initial worker.log.worker (model.fingerprint state))
        have same : (worker.withLog log).seedling model state = worker.seedling model state := by
          simp only [seedling, withLog, Log.appendInitial, owner, uid]
        rw [same] at added' ⊢
        obtain rfl := Except.ok.inj (added.symm.trans added')
        obtain ⟨memory, rfl⟩ := Frontier.eq_of_enqueue enqueued
        obtain ⟨memory', rfl⟩ := Frontier.eq_of_enqueue enqueued'
        refine ⟨rfl, ?_⟩
        simp only [Log.appendInitial, withLog, owner]
        refine @Twin.intro _ _ _ _ { housing with memory := memory' } _ ?_ ?_
        · exact owner'
        · exact count'

/-- An access of a worker that is alone turns out in the same way wherever pages wait. -/
theorem Access.agree {held : Option (Page σ)} {frontier : Frontier σ} {disk' : Disk}
    {wait : Wait σ} {accessed accessed' : Accessed σ} {events' : History σ}
    (one : Access past held frontier disk wait accessed events)
    (two : Access past held (frontier.housed housing) disk' wait accessed' events') :
    events' = events ∧ ∃ housing final, accessed' =
      { accessed with frontier := accessed.frontier.housed housing, disk := final } := by
  cases one with
  | reads tail =>
    cases two with
    | reads tail' =>
      obtain rfl := Tail.ticket.inj (tail.symm.trans tail')
      exact ⟨rfl, ⟨_, _, _, _⟩, _, rfl⟩
  | draws =>
    cases two with
    | draws => exact ⟨rfl, ⟨_, _, _, _⟩, _, rfl⟩
  | receives waits =>
    cases two with
    | receives waits' =>
      obtain ⟨rfl, -⟩ := List.cons.inj (waits.symm.trans waits')
      exact ⟨rfl, ⟨_, _, _, _⟩, _, rfl⟩
    | misses nothing => cases waits.symm.trans nothing
  | misses nothing =>
    cases two with
    | receives waits => cases waits.symm.trans nothing
    | misses => exact ⟨rfl, ⟨_, _, _, _⟩, _, rfl⟩
  | rereads =>
    cases two with
    | rereads => exact ⟨rfl, ⟨_, _, _, _⟩, _, rfl⟩
  | exhausts empty =>
    cases two with
    | exhausts => exact ⟨rfl, ⟨_, _, _, _⟩, _, rfl⟩
    | yields holding => cases empty.symm.trans holding
  | yields holding =>
    cases two with
    | exhausts empty => cases empty.symm.trans holding
    | yields holding' =>
      obtain rfl := Option.some.inj (holding.symm.trans holding')
      exact ⟨rfl, ⟨_, _, _, _⟩, _, rfl⟩
  | latches =>
    cases two with
    | latches => exact ⟨rfl, ⟨_, _, _, _⟩, _, rfl⟩
  | donates =>
    cases two with
    | donates => exact ⟨rfl, ⟨_, _, _, _⟩, _, rfl⟩

theorem Twin.expanded (twin : Twin worker shared other alike) :
    alike.expanded = shared.expanded := by
  cases twin
  rfl

theorem events_of_waiting {wait : Wait σ} (stage : worker.stage = .waiting wait) :
    worker.events model shared = wait.events model worker.held shared.frontier shared.disk := by
  simp only [Worker.events, stage]

/-- A page that is not refused is enqueued. -/
theorem exists_enqueue_of_kept {frontier : Frontier σ} {disk : Disk} {page : Page σ}
    (kept : refused (frontier.enqueueEvents model page disk) = []) :
    frontier.enqueueEvents model page disk = [.enqueued page] ∧
      ∃ memory final, frontier.enqueue model page disk =
        (.ok (), { frontier with memory := memory }, final) := by
  rcases enqueued : frontier.enqueue model page disk with ⟨stop | ⟨⟩, after, final⟩
  · simp [Frontier.enqueueEvents, enqueued] at kept
  · obtain ⟨memory, rfl⟩ := Frontier.eq_of_enqueue enqueued
    exact ⟨by simp [Frontier.enqueueEvents, enqueued], memory, final, rfl⟩

/-- Twins make the same step. -/
theorem Twin.step (twin : Twin worker shared other alike)
    (restores : ∀ state, model.Reachable initial state → model.Restores state)
    (one : worker.Solitary model initial place past shared)
    (two : other.Solitary model initial home past alike)
    (kept : refused (worker.events model shared) = [])
    (kept' : refused (other.events model alike) = []) :
    other.events model alike = worker.events model shared ∧
      Twin (worker.step model shared).1 (worker.step model shared).2 (other.step model alike).1
        (other.step model alike).2 := by
  cases twin with
  | @intro log housing disk owner count =>
    cases stage : worker.stage with
    | polling =>
      simp only [step, Worker.events, withLog, Shared.housed, stage]
      split
      · exact ⟨trivial, .intro owner count⟩
      · cases worker.backlog.pop? with
        | none => exact ⟨trivial, .intro owner count⟩
        | some taken => exact ⟨trivial, .intro owner count⟩
    | waiting wait =>
      -- Both accesses turn out in one of the few ways that there are, and so in the same.
      have stage' : (worker.withLog log).stage = .waiting wait := stage
      rw [events_of_waiting stage] at kept ⊢
      rw [events_of_waiting stage'] at kept' ⊢
      rw [step_of_waiting stage, step_of_waiting stage']
      obtain ⟨same, memory', final, alike⟩ := (one.access restores kept stage wait.turn_step).agree
        (two.access restores kept' stage' wait.turn_step)
      refine ⟨same, ?_⟩
      rw [alike, proceed_withLog]
      apply Twin.intro <;> simpa [log_proceed]
    | expanding node =>
      cases computed : model.successors node.state with
      | error stop =>
        simp only [step, Worker.events, withLog, Shared.housed, stage, computed]
        exact ⟨trivial, .intro owner count⟩
      | ok states =>
        rcases counted : worker.outDegree.add states.length with ⟨fault | ⟨⟩, degrees⟩ <;>
        · simp only [step, Worker.events, withLog, Shared.housed, stage, computed, counted]
          exact ⟨trivial, .intro owner count⟩
    | sifting node remaining =>
      cases remaining with
      | nil =>
        simp only [step, Worker.events, withLog, Shared.housed, stage]
        exact ⟨trivial, .intro owner count⟩
      | cons state rest =>
        simp only [step, Worker.events, withLog, Shared.housed, stage]
        split <;> exact ⟨trivial, .intro owner count⟩
    | recording node state rest =>
      by_cases deep : node.level = levelMax
      · simp only [step, Worker.events, withLog, Shared.housed, stage, record, nextLevel,
          if_pos deep]
        exact ⟨trivial, .intro owner count⟩
      · have stage' : (worker.withLog log).stage = .recording node state rest := stage
        obtain ⟨uid, owner', count'⟩ :=
          append_eq_of_twin owner count ⟨node.uid, model.fingerprint state⟩
        have same : (worker.withLog log).discovery model node state =
            worker.discovery model node state := by
          simp only [discovery, withLog, uid]
        have noted : (worker.withLog log).noting model node state =
            (worker.noting model node state).withLog
              (log.append ⟨node.uid, model.fingerprint state⟩).2 := rfl
        rw [step_of_recording stage deep, step_of_recording stage' deep, same, noted,
          place_withLog]
        refine ⟨by simp only [Worker.events, stage, stage', same], ?_⟩
        apply Twin.intro <;> rw [log_place]
        · exact owner'
        · exact count'
    | claiming node child rest =>
      have stage' : (worker.withLog log).stage = .claiming node child rest := stage
      rw [step_of_claiming stage, step_of_claiming stage', stow_withLog]
      refine ⟨by simp only [Worker.events, stage, stage'], ?_⟩
      apply Twin.intro <;> rw [log_stow]
      · exact owner
      · exact count
    | publishing node page rest =>
      simp only [Worker.events, withLog, Shared.housed, stage] at kept kept'
      obtain ⟨here, memory, final, enqueued⟩ := exists_enqueue_of_kept kept
      obtain ⟨there, memory', final', enqueued'⟩ := exists_enqueue_of_kept kept'
      simp only [step, Worker.events, withLog, Shared.housed, stage, here, there, enqueued,
        enqueued']
      exact ⟨trivial, @Twin.intro _ _ _ _ { housing with memory := memory' } final' owner count⟩
    | flushing =>
      simp only [step, Worker.events, withLog, Shared.housed, stage]
      exact ⟨trivial, .intro (by simpa using owner) (by simpa using count)⟩
    | reporting | latching | unwinding =>
      simp only [step, Worker.events, withLog, Shared.housed, stage]
      exact ⟨trivial, .intro owner count⟩
    | stopped | broken =>
      simp only [step, Worker.events, withLog, Shared.housed, stage]
      rw [← stage]
      exact ⟨trivial, .intro owner count⟩

end Worker

/-! ## Conclusions -/

namespace Pool

variable {model : Model σ} {initial : List σ} {place home : Location} {past : History σ}
  {worker other : Worker σ} {shared alike : Shared σ} {launch launch' : Exploration.Launch σ}

/-- What twins end with differs in the directory only. -/
theorem conclude_of_twin (twin : worker.Twin shared other alike)
    (counts : launch'.initialStates = launch.initialStates)
    (one : Surveyed model initial place past ⟨[worker], shared⟩)
    (two : Surveyed model initial home past ⟨[other], alike⟩) (small : worker.log.size < 2 ^ 64) :
    (Exploration.conclude launch' ⟨[other], alike⟩).1 =
      (Exploration.conclude launch ⟨[worker], shared⟩).1.map
        ({ · with runDirectory := launch'.runDirectory }) := by
  cases twin with
  | @intro log housing disk owner count =>
    have sameFault : Exploration.firstFault? [worker.withLog log] =
        Exploration.firstFault? [worker] := rfl
    cases first : Exploration.firstFault? [worker] with
    | some fault =>
      rw [Exploration.conclude_of_firstFault? first,
        Exploration.conclude_of_firstFault? (sameFault.trans first)]
      rfl
    | none =>
      by_cases ended : shared.frontier.tail = .finished
      · have sameSummary : Exploration.summaryOf launch' ⟨[worker.withLog log],
            shared.housed housing disk⟩ = Exploration.summaryOf launch ⟨[worker], shared⟩ := by
          rw [Exploration.summaryOf, counts]
          rfl
        cases counted : Exploration.summaryOf launch ⟨[worker], shared⟩ with
        | error fault =>
          rw [one.conclude_of_summaryOf first ended counted,
            two.conclude_of_summaryOf first ended (sameSummary.trans counted)]
          rfl
        | ok summary =>
          obtain ⟨trace, leads⟩ := one.exists_leads
          have small' : (worker.withLog log).log.size < 2 ^ 64 := by
            rw [Log.size, Worker.withLog, count]
            exact small
          rw [one.conclude_eq first ended counted (by simpa [logs] using small) leads,
            two.conclude_eq first ended (sameSummary.trans counted) (by simpa [logs] using small')
              leads]
          show ((Exploration.verdictOn shared.report trace).mapError _).map _ = _
          cases Exploration.verdictOn shared.report trace <;> rfl
      · have live : (shared.housed housing disk).frontier.tail ≠ .finished := ended
        rw [conclude_of_live (sameFault.trans first) live, conclude_of_live first ended]
        rfl

end Pool

/-! ## Courses -/

namespace Exploration

variable {model : Model σ} {initial : List σ}

/-- Twins seed all states in the same way. -/
theorem seed_of_twin {states : List σ} {worker next other next' : Worker σ}
    {shared after alike after' : Shared σ} (twin : worker.Twin shared other alike)
    (one : seed model states worker shared = (.ok (), next, after))
    (two : seed model states other alike = (.ok (), next', after')) :
    seedEvents model states other alike = seedEvents model states worker shared ∧
      next.Twin after next' after' := by
  induction states generalizing worker shared other alike with
  | nil =>
    simp only [seed, Prod.mk.injEq, true_and] at one two
    obtain ⟨rfl, rfl⟩ := one
    obtain ⟨rfl, rfl⟩ := two
    exact ⟨rfl, twin⟩
  | cons state rest ih =>
    rcases first : worker.seed model state 1 shared with ⟨stop | answer, worker', shared'⟩
    · simp [seed, first] at one
    · rcases second : other.seed model state 1 alike with ⟨stop | answer', other', alike'⟩
      · simp [seed, second] at two
      · simp only [seed, first] at one
        simp only [seed, second] at two
        obtain ⟨same, later⟩ :=
          twin.seed (Worker.seeding_seed first) (Worker.seeding_seed second)
        obtain ⟨others, last⟩ := ih later one two
        simp only [seedEvents, first, second, same, others]
        exact ⟨trivial, last⟩

namespace Course

/-- The only worker that was just hired has nothing but an empty log. -/
theorem Hires.exists_novice {course : Course model initial .empty} {pool : Pool σ}
    (hires : course.Hires pool) (single : course.settings.workerCount = 1) :
    ∃ log : Log, pool.workers = [novice course.settings.localBacklog log] ∧ log.worker = 0 ∧
      log.count = 0 := by
  obtain ⟨worker, alone⟩ := List.length_eq_one_iff.mp (hires.length_eq.trans single)
  have hired := hires.each worker (by simp [alone])
  have ids := hires.ids
  rw [alone, single] at ids
  refine ⟨worker.log, ?_, List.singleton_inj.mp ids, hired.count⟩
  rw [alone, ← hired.blank]

section

variable {course other : Course model initial .empty} {pages retries millis : Nat}

/-- Runs whose settings differ in budgets only are launched with twins. -/
theorem twin_launch (single : course.settings.workerCount = 1)
    (alike : other.settings = { course.settings with
      inMemoryPages := pages
      donationRetries := retries
      pollMillis := millis }) :
    other.opening = course.opening ∧ ∃ worker twin, course.launch.pool.workers = [worker] ∧
      other.launch.pool.workers = [twin] ∧
      worker.Twin course.launch.pool.shared twin other.launch.pool.shared := by
  have single' : other.settings.workerCount = 1 := by
    rw [alike]
    exact single
  obtain ⟨place, ⟨workers, shared⟩, ready, hires, seeding, opening⟩ := course.exists_hires
  obtain ⟨place', ⟨workers', shared'⟩, ready', hires', seeding', opening'⟩ := other.exists_hires
  obtain ⟨log, rfl, owner, count⟩ := hires.exists_novice single
  obtain ⟨log', rfl, owner', count'⟩ := hires'.exists_novice single'
  have twin : (novice course.settings.localBacklog log).Twin shared
      (novice other.settings.localBacklog log') shared' := by
    have novices : novice other.settings.localBacklog log' =
        (novice course.settings.localBacklog log : Worker σ).withLog log' := by
      rw [alike]
      simp only [novice, Worker.withLog, owner, owner']
    have houses : shared' = shared.housed ⟨shared'.frontier.memoryPages,
        shared'.frontier.donationRetries, shared'.frontier.memory, shared'.frontier.spill⟩
          shared'.disk := by
      exact Shared.eq_housed (hires'.follows.workers.trans (alike ▸ hires.follows.workers.symm))
        (hires'.follows.sizing.trans (alike ▸ hires.follows.sizing.symm))
        (hires'.head.trans hires.head.symm) (ready'.tail.trans ready.tail.symm)
        (hires'.seen.trans hires.seen.symm) (ready'.report.trans ready.report.symm)
        (ready'.expanded.trans ready.expanded.symm)
    rw [novices, houses]
    exact .intro (owner'.trans owner.symm) (count'.trans count.symm)
  rcases one : seed model initial (novice course.settings.localBacklog log) shared with
    ⟨stop | ⟨⟩, worker, after⟩
  · simp [seedFirst, one] at seeding
  · rcases two : seed model initial (novice other.settings.localBacklog log') shared' with
      ⟨stop | ⟨⟩, worker', after'⟩
    · simp [seedFirst, two] at seeding'
    · simp only [seedFirst, one, Prod.mk.injEq, Except.ok.injEq] at seeding
      simp only [seedFirst, two, Prod.mk.injEq, Except.ok.injEq] at seeding'
      obtain ⟨same, twins⟩ := seed_of_twin twin one two
      rw [opening, opening', ← seeding.1, ← seeding'.1]
      exact ⟨same, worker, worker', rfl, rfl, twins⟩

/-- Runs with a single worker whose settings differ in budgets only have the same history, and their
workers are twins at any moment. -/
theorem exists_twin (lone : course.Lone) (lone' : other.Lone)
    (alike : other.settings = { course.settings with
      inMemoryPages := pages
      donationRetries := retries
      pollMillis := millis }) (schedule : List Nat) :
    other.history schedule = course.history schedule ∧
      ∃ worker twin, (course.pool schedule).workers = [worker] ∧
        (other.pool schedule).workers = [twin] ∧
        worker.Twin (course.pool schedule).shared twin (other.pool schedule).shared := by
  obtain ⟨place, worker, single, -, same, twin, single', twins⟩ := @Lone.step_induction _ _ _ _ lone
    (fun steps past worker shared => other.history (List.replicate steps 0) = past ∧
      ∃ twin, (other.pool (List.replicate steps 0)).workers = [twin] ∧
        worker.Twin shared twin (other.pool (List.replicate steps 0)).shared)
    (fun launched _ _ => by
      obtain ⟨same, worker, twin, alone, alone', twins⟩ := twin_launch lone.single alike
      rw [launched] at alone twins
      obtain rfl := List.singleton_inj.mp alone
      exact ⟨(List.append_nil _).trans same, twin, alone', twins⟩)
    (fun {place steps past worker shared} solitary kept before => by
      obtain ⟨rfl, twin, alone, twins⟩ := before
      obtain ⟨home, _, alone', solitary'⟩ := lone'.exists_solitary (List.replicate steps 0)
      obtain rfl := List.singleton_inj.mp (alone.symm.trans alone')
      obtain ⟨stepped, happened⟩ := other.step_of_single alone
      have kept' := lone'.refused_eq_nil (List.replicate steps 0 ++ [0])
      rw [happened, refused_append, List.append_eq_nil_iff] at kept'
      obtain ⟨same, later⟩ := twins.step lone.restores solitary solitary' kept kept'.2
      rw [List.replicate_succ', stepped, happened, same]
      exact ⟨rfl, _, rfl, later⟩)
    schedule
  obtain ⟨pools, histories⟩ := other.eq_replicate lone'.single schedule
  rw [pools, histories]
  exact ⟨same, worker, twin, single, single', twins⟩

/-- Budgets do not show. Take two runs with a single worker whose settings differ only in how many
pages wait in memory, after how many looks a page is given away, and how long a worker waits between
two looks. Let every state that can be reached be restored from what is written of it, and let no
page fail to be written. Then the same happens in both at any moment: they expand the same nodes in
the same order. As long as offsets in the log can be told apart, the runs end with the same outcome,
but for their directories: with the same verdict, node, cause, trace and summary, or with the
same failure or fault. The files of their logs have the same bytes. -/
theorem agree_of_budgets (course other : Course model initial .empty) (lone : course.Lone)
    (lone' : other.Lone)
    (alike : other.settings = { course.settings with
      inMemoryPages := pages
      donationRetries := retries
      pollMillis := millis })
    (small : ∀ log ∈ (course.launch.pool.settle model).logs, log.size < 2 ^ 64) :
    (∀ schedule, other.history schedule = course.history schedule ∧
      (other.pool schedule).shared.expanded = (course.pool schedule).shared.expanded) ∧
    other.result.expanded = course.result.expanded ∧
    other.result.outcome =
      course.result.outcome.map ({ · with runDirectory := other.launch.runDirectory }) ∧
    ∃ bytes, course.result.disk.read course.logPath = .ok bytes ∧
      other.result.disk.read other.logPath = .ok bytes := by
  have expanded (schedule : List Nat) :
      (other.pool schedule).shared.expanded = (course.pool schedule).shared.expanded := by
    obtain ⟨-, worker, twin, -, -, twins⟩ := exists_twin lone lone' alike schedule
    exact twins.expanded
  obtain ⟨turns, count, settles, result⟩ := lone.exists_result_eq
  obtain ⟨turns', count', settles', result'⟩ := lone'.exists_result_eq
  -- Both runs make the same number of steps.
  obtain ⟨pools, -⟩ := other.eq_of_count lone'.single (count'.trans count.symm)
  rw [pools] at result'
  rw [settles] at small
  obtain ⟨same, worker, twin, single, single', twins⟩ := exists_twin lone lone' alike turns
  obtain ⟨place, surveyed⟩ := course.exists_surveyed lone.staffed lone.restores turns
  obtain ⟨home, surveyed'⟩ := other.exists_surveyed lone'.staffed lone'.restores turns
  refine ⟨fun schedule => ⟨(exists_twin lone lone' alike schedule).1, expanded schedule⟩,
    ?_, ?_, ?_⟩
  · rw [result, result', expanded turns]
  · have whole : course.pool turns = ⟨[worker], (course.pool turns).shared⟩ := by rw [← single]
    have whole' : other.pool turns = ⟨[twin], (other.pool turns).shared⟩ := by rw [← single']
    have counts : other.launch.initialStates = course.launch.initialStates :=
      other.exists_hired.2.1.trans course.exists_hired.2.1.symm
    have short : worker.log.size < 2 ^ 64 := by
      apply small
      rw [Pool.logs, single]
      exact List.mem_cons_self
    rw [result, result', whole, whole']
    rw [whole] at surveyed
    rw [whole', same] at surveyed'
    exact Pool.conclude_of_twin twins counts surveyed surveyed' short
  · have file := lone'.read_conclude turns
    rw [same] at file
    rw [result, result']
    exact ⟨_, lone.read_conclude turns, file⟩

end

/-- A grid is explored with all pages in memory and with one, the others in files; in both runs the
same state turns out to exceed the bound. -/
theorem agree_of_budgets_of_bounded_sum :
    let grid : CounterGrid := ⟨2, 2, some 3⟩
    let turns := List.replicate 30 0
    ∃ course other : Course grid.model grid.initialStates .empty,
      course.settings.inMemoryPages = 1000 ∧ other.settings.inMemoryPages = 1 ∧
      course.settings.donationRetries = 10 ∧ other.settings.donationRetries = 0 ∧
      (course.pool turns).shared.frontier.spill.resident (course.pool turns).shared.disk = 0 ∧
      (other.pool turns).shared.frontier.spill.resident (other.pool turns).shared.disk = 1 ∧
      other.result.expanded = course.result.expanded ∧
      other.result.outcome =
        course.result.outcome.map ({ · with runDirectory := other.launch.runDirectory }) ∧
      ∃ bytes, course.result.disk.read course.logPath = .ok bytes ∧
        other.result.disk.read other.logPath = .ok bytes := by
  intro grid turns
  let settings : Settings := { Settings.standard ⟨["runs"]⟩ with
    workers := 1, pageSizing := .fixed 2, localBacklog := 0 }
  let course := (launch? settings grid.model grid.initialStates .empty 1 0 .empty).get
    (by decide +kernel)
  let other := (launch? { settings with
    inMemoryPages := 1
    donationRetries := 0
    pollMillis := 1 } grid.model grid.initialStates .empty 1 0 .empty).get (by decide +kernel)
  have settled : (course.pool (List.replicate 76 0)).isSettled = true := by decide +kernel
  have restores (state : GridState) : grid.model.Restores state :=
    grid.lossless_model.restores state
  have roomy := @roomy_of_fixed _ _ _ _ course 2 (by decide +kernel) (by decide) (by decide +kernel)
  have roomy' := @roomy_of_fixed _ _ _ _ other 2 (by decide +kernel) (by decide) (by decide +kernel)
  have small : ∀ log ∈ (course.launch.pool.settle grid.model).logs, log.size < 2 ^ 64 := by
    rw [Pool.settle, Pool.rounds_of_isSettled (by decide +kernel) settled (by decide)]
    decide +kernel
  obtain ⟨-, same⟩ := @agree_of_budgets _ _ _ 1 0 1 course other
    (roomy.lone (by decide +kernel) fun state _ => restores state)
    (roomy'.lone (by decide +kernel) fun state _ => restores state) (by decide +kernel) small
  exact ⟨course, other, by decide +kernel, by decide +kernel, by decide +kernel, by decide +kernel,
    by decide +kernel, by decide +kernel, same⟩

end Course

end Exploration

end Wavefront
