/-
# Seeding a pool

Before the workers begin, the first of them records the distinct initial states and puts
each on a page of its own. Seeding is a sequence of steps too, with its own events, and it
establishes what the workers' steps preserve: `Pool.Ready` says what a pool is like in the
midst of it.
-/

import Wavefront.Exploration.Launch
import Wavefront.Proofs.Pool.Discovery

namespace Wavefront

open History Trace

variable {σ : Type}

/-! ## One initial state -/

namespace Worker

variable {model : Model σ} {state : σ} {worker next : Worker σ} {shared after : Shared σ}
  {events : History σ}

/-- The node that recording an initial state makes. -/
def seedling (worker : Worker σ) (model : Model σ) (state : σ) : Node σ :=
  ⟨state, 1, (worker.log.appendInitial (model.fingerprint state)).1⟩

/-- The events that seeding a state stands for. -/
def seedEvents (model : Model σ) (state : σ) (worker : Worker σ) (shared : Shared σ) : History σ :=
  if shared.seen.contains (model.fingerprint state) then []
  else
    .recorded none (worker.seedling model state) ::
      shared.frontier.enqueueNodeEvents model (worker.seedling model state) shared.disk

/-- What seeding a state leads to if it succeeds. -/
inductive Seeding (model : Model σ) (state : σ) (worker : Worker σ) (shared : Shared σ) :
    Worker σ → Shared σ → History σ → Prop where
  /-- The state has been met before. -/
  | knows (known : shared.seen.contains (model.fingerprint state) = true) :
      Seeding model state worker shared worker
        { shared with seen := shared.seen.insert (model.fingerprint state) } []
  /-- The state is recorded and waits on a page of its own. -/
  | plants {page : Page σ} {frontier : Frontier σ} {disk : Disk}
      (new : shared.seen.contains (model.fingerprint state) = false)
      (added : shared.frontier.claim.1.add (worker.seedling model state) = .ok page)
      (enqueued : shared.frontier.claim.2.enqueue model page shared.disk =
        (.ok (), frontier, disk)) :
      Seeding model state worker shared
        { worker with
          log := (worker.log.appendInitial (model.fingerprint state)).2
          maxLevel := max worker.maxLevel 1 }
        { shared with
          frontier := frontier
          disk := disk
          seen := shared.seen.insert (model.fingerprint state) }
        [.recorded none (worker.seedling model state), .enqueued page]

theorem seeding_seed {answer : Option Uid}
    (seeded : worker.seed model state 1 shared = (.ok answer, next, after)) :
    Seeding model state worker shared next after (worker.seedEvents model state shared) := by
  unfold seed at seeded
  cases known : shared.seen.contains (model.fingerprint state) with
  | true =>
    simp only [Seen.meet, known, Bool.not_true, Bool.false_eq_true, if_false, Prod.mk.injEq]
      at seeded
    obtain ⟨-, rfl, rfl⟩ := seeded
    simpa [seedEvents, known] using Seeding.knows known
  | false =>
    simp only [Seen.meet, known, Bool.not_false, if_true, recordInitial, Frontier.enqueueNode]
      at seeded
    cases added : shared.frontier.claim.1.add (worker.seedling model state) with
    | error fault =>
      simp only [seedling] at added
      simp [added, Except.map] at seeded
    | ok page =>
      have put := added
      simp only [seedling] at put
      simp only [put] at seeded
      rcases enqueued : shared.frontier.claim.2.enqueue model page shared.disk with
        ⟨stop | ⟨⟩, frontier, disk⟩
      · simp [enqueued, Except.map] at seeded
      · simp only [enqueued, Except.map, Prod.mk.injEq] at seeded
        obtain ⟨-, rfl, rfl⟩ := seeded
        have planted := Seeding.plants known added enqueued
        simpa [seedEvents, known, Frontier.enqueueNodeEvents, added, Frontier.enqueueEvents,
          enqueued] using planted

/-- A worker that has not begun. -/
structure Fresh (worker : Worker σ) : Prop where
  held : worker.held = none
  backlog : worker.backlog.toList = []
  stage : worker.stage = .polling
  accepted : worker.accepted = 0
  processed : worker.processed = 0
  generated : worker.generated = 0
  outDegree : ∃ name, worker.outDegree = .empty name outDegreeBuckets

theorem Seeding.fresh (seeding : Seeding model state worker shared next after events)
    (fresh : worker.Fresh) : next.Fresh := by
  cases seeding with
  | knows => exact fresh
  | plants =>
    exact ⟨fresh.held, fresh.backlog, fresh.stage, fresh.accepted, fresh.processed, fresh.generated,
      fresh.outDegree⟩

namespace Fresh

theorem pages_eq (fresh : worker.Fresh) : worker.pages = [] := by
  simp [pages, fresh.held, fresh.stage]

theorem tickets_eq (fresh : worker.Fresh) : worker.tickets = [] := by
  simp [tickets, fresh.stage]

theorem nodes_eq (fresh : worker.Fresh) : worker.nodes = [] := by
  simp [nodes, fresh.pages_eq, fresh.backlog, fresh.stage]

theorem orderly (fresh : worker.Fresh) : worker.Orderly :=
  ⟨by simp [fresh.stage], by simp [fresh.stage]⟩

theorem provided (fresh : worker.Fresh) : worker.Provided :=
  ⟨by simp [fresh.pages_eq], by simp [fresh.held]⟩

end Fresh

end Worker

/-! ## All initial states -/

namespace Exploration

variable {model : Model σ} {initial done states : List σ} {worker next : Worker σ}
  {shared after : Shared σ} {past : History σ}

/-- The events that a seeding which succeeds stands for. -/
def seedEvents (model : Model σ) : List σ → Worker σ → Shared σ → History σ
  | [], _, _ => []
  | state :: rest, worker, shared =>
      let (_, worker', shared') := worker.seed model state 1 shared
      worker.seedEvents model state shared ++ seedEvents model rest worker' shared'

/-- What seeding one state after the other preserves holds when all have been seeded. -/
theorem seed_induction {invariant : List σ → History σ → Worker σ → Shared σ → Prop}
    (preserved : ∀ {done rest : List σ} {past : History σ} {state : σ} {worker next : Worker σ}
      {shared after : Shared σ} {events : History σ}, initial = done ++ state :: rest →
      worker.Seeding model state shared next after events → invariant done past worker shared →
      invariant (done ++ [state]) (past ++ events) next after)
    (whole : initial = done ++ states) (start : invariant done past worker shared)
    (seeded : seed model states worker shared = (.ok (), next, after)) :
    invariant initial (past ++ seedEvents model states worker shared) next after := by
  induction states generalizing done past worker shared with
  | nil =>
    simp only [seed, Prod.mk.injEq, true_and] at seeded
    obtain ⟨rfl, rfl⟩ := seeded
    rw [whole, List.append_nil]
    simpa [seedEvents] using start
  | cons state rest ih =>
    rcases first : worker.seed model state 1 shared with ⟨stop | answer, worker', shared'⟩
    · simp [seed, first] at seeded
    · simp only [seed, first] at seeded
      simp only [seedEvents, first]
      rw [← List.append_assoc]
      apply ih _ (preserved whole (Worker.seeding_seed first) start) seeded
      rw [whole, List.append_assoc]
      rfl

end Exploration

/-! ## Pools that are ready -/

namespace Pool

variable {model : Model σ} {initial done rest : List σ} {place : Location} {past events : History σ}
  {pool : Pool σ} {worker next : Worker σ} {others : List (Worker σ)} {shared after : Shared σ}
  {state : σ}

/-- A pool in which no worker has begun, and in which the states of a list have been seeded. -/
structure Ready (model : Model σ) (initial : List σ) (place : Location) (done : List σ)
    (past : History σ) (pool : Pool σ) : Prop where
  books : pool.shared.frontier.Balanced model place pool.shared.disk past [] []
  fresh : ∀ worker ∈ pool.workers, worker.Fresh
  apart : ∀ worker ∈ pool.workers, ¬ Spill.PageFileIn place worker.log.handle.place
  crew : pool.workers.length = pool.shared.frontier.workers
  positive : ∀ id, 0 < pool.shared.frontier.sizing.capacity id
  nodes : (History.nodes past).Perm (nodesOn (waiting past))
  logged : Logged model (recorded past) pool.logs pool.shared.disk
  recorded : Recorded model initial (recorded past)
  met : ∀ state ∈ done, pool.shared.seen.contains (model.fingerprint state) = true
  tail : pool.shared.frontier.tail = .ticket 0
  /-- Pages are enqueued in the order of their numbers. -/
  ordered : (enqueued past).map Page.id = List.range' 1 (enqueued past).length
  quiet : delivered past = [] ∧ forgone past = [] ∧ refused past = []
  expanded : pool.shared.expanded = []
  report : pool.shared.report = none

namespace Ready

/-- What the workers preserve holds before they begin. -/
theorem coherent (ready : Ready model initial place done past pool) :
    Coherent model initial place past pool := by
  have hands : pool.hands = [] :=
    List.flatMap_eq_nil_iff.mpr fun worker member => (ready.fresh worker member).pages_eq
  have tickets : pool.tickets = [] :=
    List.flatMap_eq_nil_iff.mpr fun worker member => (ready.fresh worker member).tickets_eq
  have nodes : pool.workers.flatMap Worker.nodes = [] :=
    List.flatMap_eq_nil_iff.mpr fun worker member => (ready.fresh worker member).nodes_eq
  obtain ⟨-, noneForgone, noneRefused⟩ := ready.quiet
  exact {
    sound := {
      books := by
        rw [hands, tickets]
        exact ready.books
      orderly := fun worker member => (ready.fresh worker member).orderly
      apart := ready.apart }
    watched := {
      crew := ready.crew
      left := by simp [noneForgone]
      lost := by simp [noneRefused]
      reasons := by simp [noneForgone]
      read := fun worker member => by simp [(ready.fresh worker member).stage]
      ended := fun worker member => by simp [(ready.fresh worker member).stage]
      latch := fun worker member => by simp [(ready.fresh worker member).stage] }
    conserved := {
      positive := ready.positive
      provided := fun worker member => (ready.fresh worker member).provided
      nodes := by simpa [ready.expanded, nodes, noneRefused] using ready.nodes
      causes := by
        have none : History.causes past = [] := by
          rw [← List.length_eq_zero_iff, length_causes, noneRefused]
          rfl
        simp [none] }
    logged := ready.logged
    explained := {
      recorded := ready.recorded
      sifts := fun worker member => by
        rw [(ready.fresh worker member).stage]
        exact trivial } }

/-- Seeding one more state leaves a pool ready. -/
theorem seed (whole : initial = done ++ state :: rest)
    (seeding : worker.Seeding model state shared next after events)
    (ready : Ready model initial place done past ⟨worker :: others, shared⟩) :
    Ready model initial place (done ++ [state]) (past ++ events) ⟨next :: others, after⟩ := by
  have member : worker ∈ worker :: others := List.mem_cons_self
  have fresh : ∀ other ∈ next :: others, other.Fresh := by
    intro other among
    rcases List.mem_cons.mp among with rfl | old
    · exact seeding.fresh (ready.fresh worker member)
    · exact ready.fresh other (List.mem_cons_of_mem _ old)
  have met : ∀ other ∈ done ++ [state],
      (shared.seen.insert (model.fingerprint state)).contains (model.fingerprint other) = true := by
    intro other among
    rcases List.mem_append.mp among with old | new
    · exact Seen.contains_insert_of_contains (ready.met other old)
    · simp [List.mem_singleton.mp new]
  cases seeding with
  | knows known =>
    rw [List.append_nil]
    exact { ready with met := met }
  | @plants page frontier disk new added enqueued =>
    have claimed := (ready.books.append_recorded none (worker.seedling model state)).claim.add added
    obtain ⟨books, changes⟩ := claimed.enqueue enqueued
    obtain ⟨memory, rfl⟩ := Frontier.eq_of_enqueue enqueued
    have split : past ++ [.recorded none (worker.seedling model state), .enqueued page] =
        past ++ [.recorded none (worker.seedling model state)] ++ [.enqueued page] := by simp
    have number : page.id = shared.frontier.head + 1 := by
      obtain ⟨-, rfl⟩ := Page.add_eq_ok_iff.mp added
      rfl
    have onPage : page.nodes.toList = [worker.seedling model state] := by
      obtain ⟨-, rfl⟩ := Page.add_eq_ok_iff.mp added
      rfl
    have waits : waiting (past ++ [.recorded none (worker.seedling model state), .enqueued page]) =
        waiting past ++ [page] := by
      rw [split, waiting_append_enqueued (claimed.notMem_answered List.mem_cons_self)]
      rw [waiting_append_of_nil rfl rfl]
    have found : Record.width * (findingsOf (History.recorded past) worker.log.worker).length =
        worker.log.size :=
      (ready.logged.size_eq (List.mem_map_of_mem member)).symm
    have logged := (@Logged.append _ _ _ (none, worker.seedling model state) _ _ 0 worker.log
      ready.logged rfl rfl).of_changes changes (by
        intro log among file
        rcases List.mem_cons.mp among with rfl | old
        · exact ready.apart worker member file
        · obtain ⟨other, there, rfl⟩ := List.mem_map.mp old
          exact ready.apart other (List.mem_cons_of_mem _ there) file)
    exact {
      books := split ▸ books
      fresh := fresh
      apart := fun other among => by
        rcases List.mem_cons.mp among with rfl | old
        · exact ready.apart worker member
        · exact ready.apart other (List.mem_cons_of_mem _ old)
      crew := ready.crew
      positive := ready.positive
      nodes := by
        rw [waits]
        simpa [onPage] using ready.nodes.append_right [worker.seedling model state]
      logged := by
        rw [recorded_append]
        exact logged
      recorded := by
        rw [recorded_append]
        refine ready.recorded.snoc (.seed rfl ?_) (by simp) ?_
        · rw [whole]
          apply Model.find?_of_apart
          intro earlier among same
          have known : shared.seen.contains (model.fingerprint earlier) = true :=
            ready.met earlier among
          rw [same] at known
          exact absurd known (by simp [new, Worker.seedling])
        · exact (congrArg UInt64.ofNat found).symm
      met := met
      tail := ready.tail
      ordered := by
        have ids : (History.enqueued past).length = shared.frontier.head := by
          simpa [ready.quiet.2.2] using ready.books.length_ids
        have grown : History.enqueued (past ++ [.recorded none (worker.seedling model state),
            .enqueued page]) = History.enqueued past ++ [page] := by simp
        rw [grown, List.map_append, List.length_append, List.length_singleton,
          List.range'_concat, ← ready.ordered, ids, List.map_singleton, number, Nat.one_mul,
          Nat.add_comm]
      quiet := by simpa using ready.quiet
      expanded := ready.expanded
      report := ready.report }

end Ready

end Pool

end Wavefront
