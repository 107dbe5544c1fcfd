/-
# A single worker searches breadth first

A worker that is alone and keeps no backlog of its own is in step with a breadth-first search
from the launch to the end of the run. So the states are expanded in the order in which the plain
search expands them; and when the search is over, so is the run, with the verdict, the counts, the
trace and the records that the search gives.
-/

import Wavefront.Proofs.Exploration.Budgets
import Wavefront.Proofs.Exploration.Lockstep

namespace Wavefront

open History Trace BreadthFirst

variable {σ : Type}

/-! ## Seeding -/

namespace Worker

variable {model : Model σ} {past events : History σ} {worker next : Worker σ}
  {shared after : Shared σ} {search : Search σ} {state : σ}

/-- Seeding a state does what offering it to the search does. -/
theorem Matches.seed (same : worker.Matches model past shared search) (fresh : worker.Fresh)
    (unanswered : answered past = []) (small : search.depth < 2 ^ 32)
    (met : ∀ print, shared.seen.contains print = true ↔ print ∈ search.seen)
    (seeding : worker.Seeding model state shared next after events) :
    next.Matches model (past ++ events) after (search.offer model none state) ∧
      ∀ print, after.seen.contains print = true ↔
        print ∈ (search.offer model none state).seen := by
  have phase := same.phase_at fresh.stage
  cases seeding with
  | knows known =>
    have old := (met _).mp known
    rw [Search.offer_of_mem old, List.append_nil]
    refine ⟨{ same with }, fun print => ?_⟩
    rw [Seen.contains_insert, Bool.or_eq_true, beq_iff_eq, met]
    constructor
    · rintro (rfl | known)
      · exact old
      · exact known
    · exact .inr
  | @plants page frontier disk new added enqueued =>
    have unmet : model.fingerprint state ∉ search.seen := by
      rw [← met, new]
      exact Bool.false_ne_true
    have seen : (search.offer model none state).seen =
        search.seen ++ [model.fingerprint state] := by
      rw [Search.offer_of_notMem unmet]
    have own : worker.seedling model state =
        (Visit.initial search.found.length state).node := by
      rw [Worker.seedling, Log.appendInitial, Log.append_fst, Log.size, same.owner, same.count]
      rfl
    have onPage : page.nodes.toList = [worker.seedling model state] := by
      obtain ⟨-, rfl⟩ := Page.add_eq_ok_iff.mp added
      rfl
    have waits : waiting (past ++ [.recorded none (worker.seedling model state), .enqueued page]) =
        waiting past ++ [page] := by
      rw [List.append_cons, waiting_append_enqueued (by simp [unanswered]),
        waiting_append_of_nil rfl rfl]
    have line : worker.line
          (past ++ [.recorded none (worker.seedling model state), .enqueued page]) =
        worker.line past ++ [worker.seedling model state] := by
      rw [Worker.line, Worker.line, waits]
      simp [pages, fresh.held, fresh.stage, onPage]
    have phase : (search.offer model none state).Phase shared.report worker.stage := by
      rw [fresh.stage]
      exact ⟨((search.offerAll_eq none [state]).2.2).trans phase.1, phase.2⟩
    refine ⟨?_, fun print => ?_⟩
    · have low : (Visit.make none search.found.length state).level < 2 ^ 32 :=
        (by decide : 1 < 2 ^ 32)
      refine same.discover (.initial worker.log.worker (model.fingerprint state)) unmet (by simp)
        own small low rfl ?_ line ?_
      · rfl
      · exact phase
    · rw [Seen.contains_insert, Bool.or_eq_true, beq_iff_eq, met, seen]
      simp [eq_comm, or_comm]

/-! ## The end of a run -/

variable {initial : List σ} {place : Location} {launch : Exploration.Launch σ}

/-- When the worker has come to its end, the search is over. -/
theorem InStep.isOver (inStep : worker.InStep model initial past shared search)
    (final : worker.stage.isFinal = true) :
    search = Search.after model initial shared.expanded.length ∧ search.isOver = true := by
  cases stage : worker.stage with
  | stopped =>
    refine ⟨inStep.eq_after stage rfl, ?_⟩
    rcases inStep.phase_at stage with ⟨going, quiet, empty⟩ | ⟨visit, cause, failed, told⟩
    · simp [Search.isOver, empty]
    · simp [Search.isOver, failed]
  | broken fault =>
    obtain ⟨visit, failed⟩ := inStep.phase_at stage
    exact ⟨inStep.eq_after stage rfl, by simp [Search.isOver, failed]⟩
  | _ => simp [stage, Stage.isFinal] at final

/-- The worker's counts make the summary of the search. -/
theorem Matches.summaryOf_eq (same : worker.Matches model past shared search)
    (size : shared.seen.size = search.found.length) :
    Exploration.summaryOf launch ⟨[worker], shared⟩ =
      .ok (search.summary launch.initialStates) := by
  obtain ⟨name, counted⟩ := same.degrees
  have regular := ((Histogram.regular_empty name outDegreeBuckets).addAll counted).1
  have merged := @Histogram.merge_empty _ "out-degree" _ regular
  have degrees : ((Histogram.empty "out-degree" outDegreeBuckets).addAll search.degrees).2 =
      worker.outDegree.rename "out-degree" := by
    have renamed :=
      (Histogram.empty name outDegreeBuckets).addAll_rename "out-degree" search.degrees
    rw [counted] at renamed
    exact congrArg Prod.snd renamed
  have level : max 0 (UInt32.ofNat search.depth) = UInt32.ofNat search.depth :=
    if_pos (UInt32.le_iff_toNat_le.mpr (Nat.zero_le _))
  simp only [Exploration.summaryOf, Exploration.summarize, Summary.empty, merged,
    Search.summary, degrees, same.generated, same.maxLevel, level, size]
  rfl

/-- The trail of a state discovered is the trace that leads to its node. -/
theorem Matches.leads (same : worker.Matches model past shared search)
    (rules : Recorded model initial (History.recorded past)) {visit : Visit σ}
    (member : visit ∈ search.found) :
    Leads model (History.recorded past) visit.node (visit.trail model) := by
  obtain ⟨path, route, trail⟩ := same.orderly.exists_route member
  rw [← same.recorded] at route
  refine ⟨path, route, ?_, trail.symm⟩
  rw [route.length_eq rules.founded]
  apply rules.level_le visit.finding
  rw [same.recorded]
  exact List.mem_map_of_mem member

/-- A run whose worker has stopped ends as the search does. -/
theorem InStep.conclude_of_stopped (inStep : worker.InStep model initial past shared search)
    (solitary : worker.Solitary model initial place past shared) (fits : search.Fits)
    (stage : worker.stage = .stopped) :
    (Exploration.conclude launch ⟨[worker], shared⟩).1 =
      search.outcome model launch.initialStates launch.runDirectory := by
  have stopped : Pool.Stopped ⟨[worker], shared⟩ := by
    intro other member
    rw [List.mem_singleton.mp member, stage]
  have sound : Exploration.firstFault? [worker] = none := by
    simp [Exploration.firstFault?, stage]
  have ended := solitary.surveyed.tail_of_stopped stopped (List.cons_ne_nil _ _)
  have size : shared.seen.size = search.found.length := by
    rw [(inStep.lists fits solitary).size, stage, inStep.orderly.seen]
    simp [Stage.met]
  have counted := @Matches.summaryOf_eq _ _ _ _ _ _ launch inStep.toMatches size
  have small : ∀ log ∈ Pool.logs ⟨[worker], shared⟩, log.size < 2 ^ 64 := by
    intro log member
    rw [List.mem_singleton.mp member, Log.size, inStep.count]
    exact fits.offsets
  rcases inStep.phase_at stage with ⟨going, quiet, empty⟩ | ⟨visit, cause, failed, told⟩
  · rw [@Pool.Surveyed.conclude_eq _ _ _ _ _ _ launch _ [] solitary.surveyed sound ended counted
      small (by simp [quiet])]
    simp only [Exploration.verdictOn, quiet, Search.outcome, going]
    rfl
  · have leads : ∀ node raised, shared.report = some ⟨some node, raised⟩ →
        Leads model (recorded past) node (visit.trail model) := by
      intro node raised reported
      rw [told] at reported
      obtain ⟨rfl, rfl⟩ := reported
      apply inStep.leads solitary.surveyed.coherent.explained.recorded
      have here := inStep.eq_after stage rfl
      rw [here] at failed
      obtain ⟨earlier, last, -⟩ := Search.exists_of_failure failed
      rw [Search.found, here, last]
      simp
    rw [@Pool.Surveyed.conclude_eq _ _ _ _ _ _ launch _ _ solitary.surveyed sound ended counted
      small leads]
    simp only [Exploration.verdictOn, told, Search.outcome, failed]
    cases cause.isOfModel <;> rfl

/-- A run ends as the search does. -/
theorem InStep.conclude_eq (inStep : worker.InStep model initial past shared search)
    (solitary : worker.Solitary model initial place past shared) (fits : search.Fits)
    (final : worker.stage.isFinal = true) :
    (Exploration.conclude launch ⟨[worker], shared⟩).1 =
      search.outcome model launch.initialStates launch.runDirectory := by
  cases stage : worker.stage with
  | stopped => exact inStep.conclude_of_stopped solitary fits stage
  | broken fault =>
    obtain ⟨visit, failed⟩ := inStep.phase_at stage
    have first : Exploration.firstFault? [worker] = some fault := by
      simp [Exploration.firstFault?, stage]
    rw [Exploration.conclude_of_firstFault? first]
    simp only [Search.outcome, failed]
  | _ => simp [stage, Stage.isFinal] at final

/-- The effort of a worker in step with a search that stays within the limits is bounded. -/
theorem InStep.effort_lt (inStep : worker.InStep model initial past shared search)
    (solitary : worker.Solitary model initial place past shared) (fits : search.Fits) :
    12 + worker.effort shared < Pool.patience := by
  have size := (inStep.lists fits solitary).size
  have met : worker.stage.met.length ≤ 1 := by cases worker.stage <;> simp [Stage.met]
  rw [List.length_append, List.length_map, inStep.orderly.seen, List.length_map] at size
  have expanded := inStep.length_expanded_le
  have few := fits.length_lt
  have generated := fits.generated
  have patience : Pool.patience = 2 ^ 72 := rfl
  have top : Histogram.counterMax = 2 ^ 64 - 1 := rfl
  rw [Worker.effort, inStep.generated, patience]
  omega

end Worker

/-! ## Runs -/

namespace Exploration.Course.Lone

variable {model : Model σ} {initial : List σ} {course : Course model initial .empty}

section

variable (lone : course.Lone) (direct : course.settings.localBacklog = 0)

include lone direct

/-- When the initial states have been seeded, the only worker is in step with the search that has
expanded nothing. -/
theorem exists_inStep_launch (fits : (Search.after model initial 0).Fits) :
    ∃ worker, course.launch.pool.workers = [worker] ∧
      worker.InStep model initial course.opening course.launch.pool.shared
        (Search.after model initial 0) := by
  obtain ⟨done, all, ⟨place, ready⟩, worker, single, same, -⟩ := @launch_induction _ _ _ _ course
    (fun done past pool => (∃ place, Pool.Ready model initial place done past pool) ∧
      ∃ worker, pool.workers = [worker] ∧
        worker.Matches model past pool.shared (Search.empty.offerAll model none done) ∧
        ∀ print, pool.shared.seen.contains print = true ↔
          print ∈ (Search.empty.offerAll model none done).seen)
    (fun {place pool} ready hires => by
      obtain ⟨log, single, owner, count⟩ := hires.exists_novice lone.single
      refine ⟨⟨place, ready⟩, _, single, ?_, fun print => ?_⟩
      · exact {
          owner := owner
          limit := direct
          count := count
          recorded := rfl
          line := rfl
          expanded := ready.expanded
          generated := rfl
          degrees := ⟨_, rfl⟩
          maxLevel := rfl
          orderly := ⟨rfl, rfl, by simp [Search.offerAll, Search.empty, Search.found]⟩
          phase := ⟨rfl, ready.report⟩ }
      · rw [hires.seen, Seen.contains_empty]
        simp [Search.offerAll, Search.empty])
    (fun {done rest past state worker next others shared after events} whole seeding each => by
      obtain ⟨⟨place, ready⟩, first, single, same, met⟩ := each
      obtain ⟨rfl, rfl⟩ := List.cons.inj single
      have grows :
          (Search.empty.offerAll model none done).Grows (Search.after model initial 0) := by
        rw [Search.after, whole, Search.offerAll_append]
        exact Search.grows_offerAll _ none _
      have small := (fits.of_grows grows).depth_lt
      obtain ⟨later, met⟩ := same.seed (ready.fresh worker (by simp))
        (by rw [answered, ready.quiet.1]; rfl) (by omega) met seeding
      refine ⟨⟨place, ready.seed whole seeding⟩, next, rfl, ?_⟩
      rw [Search.offerAll_append]
      exact ⟨later, met⟩)
  obtain rfl := all (by simp [single])
  have fresh := ready.fresh worker (by simp [single])
  have start : course.launch.pool.shared.expanded.length = 0 := by rw [ready.expanded]; rfl
  refine ⟨worker, single, { same with progress := ⟨none, ?_, by simp, ?_⟩ }⟩
  · rw [fresh.stage]
    rfl
  · rw [fresh.stage, start]
    rfl

/-- As long as the search stays within the limits, the only worker is in step with it. -/
theorem exists_inStep (schedule : List Nat)
    (fits : (Search.after model initial (course.pool schedule).shared.expanded.length).Fits) :
    ∃ place worker search, (course.pool schedule).workers = [worker] ∧
      worker.Solitary model initial place (course.history schedule) (course.pool schedule).shared ∧
      worker.InStep model initial (course.history schedule) (course.pool schedule).shared
        search := by
  obtain ⟨place, worker, single, solitary, each⟩ := @induction _ _ _ _ lone
    (fun _ past worker shared => (Search.after model initial shared.expanded.length).Fits →
      ∃ search, worker.InStep model initial past shared search)
    (fun {_ worker shared} launched _ _ fits => by
      obtain ⟨_, _, -, ready⟩ := course.exists_ready
      have start := ready.expanded
      rw [launched] at start
      have start : shared.expanded = [] := start
      rw [start] at fits
      obtain ⟨other, single, inStep⟩ := lone.exists_inStep_launch direct fits
      rw [launched] at single inStep
      obtain rfl := List.singleton_inj.mp single
      exact ⟨_, inStep⟩)
    (fun solitary turn kept before fits => by
      obtain ⟨search, inStep⟩ := before (fits.of_grows
        (Search.grows_after model initial turn.length_expanded_le))
      exact turn.inStep solitary lone.restores kept fits inStep)
    schedule
  obtain ⟨search, inStep⟩ := each fits
  exact ⟨place, worker, search, single, solitary, inStep⟩

/-- A run whose search stays within the limits comes to its end, and so has the search that has made
as many expansions. -/
theorem exists_inStep_of_fits {turns : List Nat} (patient : turns.count 0 = Pool.patience)
    (fits : (Search.after model initial (course.pool turns).shared.expanded.length).Fits) :
    ∃ place worker, course.pool turns = ⟨[worker], (course.pool turns).shared⟩ ∧
      worker.stage.isFinal = true ∧
      worker.Solitary model initial place (course.history turns) (course.pool turns).shared ∧
      worker.InStep model initial (course.history turns) (course.pool turns).shared
        (Search.after model initial (course.pool turns).shared.expanded.length) ∧
      (Search.after model initial (course.pool turns).shared.expanded.length).isOver = true := by
  obtain ⟨place, worker, search, single, solitary, inStep⟩ := lone.exists_inStep direct turns fits
  have settled := lone.isSettled_of_lt single (by
    rw [patient]
    exact inStep.effort_lt solitary (fits.of_grows inStep.grows))
  have final : worker.stage.isFinal = true :=
    List.all_eq_true.mp settled worker (by simp [single])
  obtain ⟨here, done⟩ := inStep.isOver final
  rw [here] at done inStep
  exact ⟨place, worker, by rw [← single], final, solitary, inStep, done⟩

/-- When the search is over, so is the run, and they have come to the same. -/
theorem exists_inStep_of_isOver {expansions : Nat}
    (ended : (Search.after model initial expansions).isOver = true)
    (fits : (Search.after model initial expansions).Fits) {turns : List Nat}
    (patient : turns.count 0 = Pool.patience) :
    ∃ place worker, course.pool turns = ⟨[worker], (course.pool turns).shared⟩ ∧
      worker.stage.isFinal = true ∧
      worker.Solitary model initial place (course.history turns) (course.pool turns).shared ∧
      worker.InStep model initial (course.history turns) (course.pool turns).shared
        (Search.after model initial expansions) := by
  obtain ⟨place, worker, whole, final, solitary, inStep, done⟩ :=
    lone.exists_inStep_of_fits direct patient (Search.fits_after ended fits _)
  rw [Search.after_eq_of_both done ended] at inStep
  exact ⟨place, worker, whole, final, solitary, inStep⟩

end

end Exploration.Course.Lone

namespace Exploration.Course

variable {model : Model σ} {initial : List σ}

/-- A run with a single worker that keeps no backlog of its own is a breadth-first search. Let every
state that can be reached be restored from what is written of it, and let no page fail to be
written. At any moment the worker has expanded the same states in the same order as the plain search
that has made as many expansions, and what it has discovered is the beginning of what that search
has discovered. If the plain search comes to its end, then so does the run: it expands the same
states in the same order, and its outcome is the same, with the verdict, the first state that fails
and its level, the trace that leads to it, and the summary. The log holds one record for each state
discovered, in the order of discovery and one after the other, and a record refers to that of the
state that its own was discovered from. All this holds as long as no level, no offset and no counter
reaches its limit, and whatever fingerprints collide. -/
theorem breadth_first_of_lone (course : Course model initial .empty) (lone : course.Lone)
    (direct : course.settings.localBacklog = 0) :
    (∀ schedule,
      let search := Search.after model initial (course.pool schedule).shared.expanded.length
      search.Fits →
        (course.pool schedule).shared.expanded.reverse = search.expanded.map Visit.node ∧
        nodes (course.history schedule) <+: search.found.map Visit.node) ∧
    ∀ expansions,
      let search := Search.after model initial expansions
      search.isOver = true → search.Fits →
        (course.launch.pool.settle model).isSettled = true ∧
        course.result.expanded = search.expanded.map Visit.node ∧
        course.result.outcome =
          search.outcome model initial.length course.launch.runDirectory ∧
        course.result.disk.read course.logPath = .ok (search.log model) ∧
        ∀ index visit, search.found[index]? = some visit →
          (∃ rest, Record.decode ((search.log model).drop (Record.width * index)) =
            .ok (visit.record model, rest)) ∧
          (visit.record model).predecessor? = visit.origin?.map
            (fun origin => ⟨0, UInt64.ofNat (Record.width * origin.index)⟩) ∧
          ∀ origin, visit.origin? = some origin → search.found[origin.index]? = some origin := by
  constructor
  · intro schedule search fits
    obtain ⟨place, worker, reached, single, solitary, inStep⟩ :=
      lone.exists_inStep direct schedule fits
    obtain ⟨origin, -, -, onward⟩ := inStep.progress
    have expanded := (@Search.offerAll_eq _ model reached origin worker.stage.owed).1
    rw [onward] at expanded
    constructor
    · rw [inStep.expanded, List.reverse_reverse, ← expanded]
    · rw [inStep.nodes_eq]
      exact inStep.grows.found.map _
  · intro expansions search ended fits
    obtain ⟨turns, patient, settles, same⟩ := lone.exists_result_eq
    obtain ⟨place, worker, whole, final, solitary, inStep⟩ :=
      lone.exists_inStep_of_isOver direct ended fits patient
    have orderly := inStep.orderly
    refine ⟨?_, ?_, ?_, ?_, fun index visit found => ?_⟩
    · rw [settles, whole, Pool.isSettled, List.all_cons, final]
      rfl
    · rw [same, inStep.expanded, List.reverse_reverse]
    · rw [same, whole, inStep.conclude_eq solitary fits final, course.exists_hired.2.1]
    · have file := lone.read_conclude turns
      rw [inStep.recorded, Search.recordsOf_findings] at file
      rw [same]
      exact file
    · have member := List.mem_of_getElem? found
      refine ⟨search.decode_log model found, orderly.predecessor?_record fits member, ?_⟩
      intro origin alike
      exact orderly.getElem?_index (orderly.origins visit member origin alike)

/-- A grid is explored with pages of two nodes, until a state turns out to exceed the bound. -/
theorem breadth_first_of_lone_of_bounded_sum :
    let grid : CounterGrid := ⟨2, 2, some 3⟩
    let search := Search.after grid.model grid.initialStates 9
    ∃ course : Course grid.model grid.initialStates .empty,
      course.settings.pageSizing = .fixed 2 ∧ course.settings.localBacklog = 0 ∧
      course.result.expanded.map Node.state =
        [⟨0, 0⟩, ⟨1, 0⟩, ⟨0, 1⟩, ⟨2, 0⟩, ⟨1, 1⟩, ⟨0, 2⟩, ⟨2, 1⟩, ⟨1, 2⟩, ⟨2, 2⟩] ∧
      course.result.outcome = search.outcome grid.model 1 course.launch.runDirectory ∧
      (search.failure.map fun failed => (failed.1.state, failed.1.node.level)) =
        some (⟨2, 2⟩, 5) ∧
      course.result.disk.read course.logPath = .ok (search.log grid.model) := by
  intro grid search
  let settings : Settings := { Settings.standard ⟨["runs"]⟩ with
    workers := 1, pageSizing := .fixed 2, localBacklog := 0 }
  let course := (launch? settings grid.model grid.initialStates .empty 1 0 .empty).get
    (by decide +kernel)
  have pages : course.settings.pageSizing = .fixed 2 := by decide +kernel
  have roomy := roomy_of_fixed pages (by decide) (by decide +kernel)
  have lone := roomy.lone (by decide +kernel) fun state _ => grid.lossless_model.restores state
  have direct : course.settings.localBacklog = 0 := by decide +kernel
  have ended : search.isOver = true := by decide +kernel
  have fits : search.Fits := ⟨by decide +kernel, by decide +kernel, by decide +kernel⟩
  obtain ⟨-, ends⟩ := course.breadth_first_of_lone lone direct
  obtain ⟨-, expanded, outcome, file, -⟩ := ends 9 ended fits
  refine ⟨course, pages, direct, ?_, outcome, by decide +kernel, file⟩
  rw [expanded]
  decide +kernel

end Exploration.Course

end Wavefront
