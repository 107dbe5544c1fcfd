/-
# A single worker comes to its end

If the states that can be reached have finitely many fingerprints, then a run with a single
worker is over after finitely many steps. It expands a node for each fingerprint at most, so
no level and no counter reaches its limit, and as the model does not break down, neither does
the run.
-/

import Mathlib.Algebra.Order.BigOperators.Group.List
import Mathlib.Algebra.Order.Group.Nat
import Mathlib.Data.Finset.Card
import Wavefront.Proofs.Exploration.Call
import Wavefront.Proofs.Exploration.Pace

namespace Wavefront

open History

variable {σ : Type}

/-- What is demanded of a model whose states can be explored to the end: it does not break down, its
states have the given fingerprints, and states with different fingerprints have fewer successors
together than a counter can count. -/
structure Model.Bounded (model : Model σ) (initial : List σ) (prints : Finset Fingerprint) :
    Prop where
  total : ∀ state fault, model.Reachable initial state →
    model.successors state ≠ .error (.fault fault)
  finite : ∀ state, model.Reachable initial state → model.fingerprint state ∈ prints
  few : prints.card < 2 ^ 32 - 1
  successors : ∀ states : List σ, (∀ state ∈ states, model.Reachable initial state) →
    (states.map model.fingerprint).Nodup → (states.filterMap model.outDegree?).sum < 2 ^ 64

/-- A model with a short list of states, and with few successors of each. -/
theorem Model.Bounded.of_closed {model : Model σ} {initial known : List σ} {width : Nat}
    (starts : initial ⊆ known)
    (closed : ∀ state ∈ known, ∀ states, model.successors state = .ok states → states ⊆ known)
    (total : ∀ state ∈ known, ∀ fault, model.successors state ≠ .error (.fault fault))
    (narrow : ∀ state ∈ known, ∀ states, model.successors state = .ok states →
      states.length ≤ width)
    (few : known.length < 2 ^ 32 - 1) (small : width < 2 ^ 32) :
    model.Bounded initial (known.map model.fingerprint).toFinset where
  total state fault reachable := total state (reachable.mem_of_closed starts closed) fault
  finite state reachable :=
    List.mem_toFinset.mpr (List.mem_map_of_mem (reachable.mem_of_closed starts closed))
  few := by
    apply Nat.lt_of_le_of_lt (List.toFinset_card_le _)
    rwa [List.length_map]
  successors states reachable distinct := by
    have known' : ∀ state ∈ states, state ∈ known := fun state member =>
      (reachable state member).mem_of_closed starts closed
    have length := (distinct.subperm (List.map_subset _ known')).length_le
    rw [List.length_map, List.length_map] at length
    have degrees : ∀ degree ∈ states.filterMap model.outDegree?, degree ≤ width := by
      intro degree member
      obtain ⟨state, among, counted⟩ := List.mem_filterMap.mp member
      unfold Model.outDegree? at counted
      split at counted
      · rename_i computed
        cases counted
        exact narrow state (known' state among) _ computed
      · cases counted
    calc (states.filterMap model.outDegree?).sum
        ≤ (states.filterMap model.outDegree?).length * width := List.sum_le_card_nsmul _ _ degrees
      _ ≤ 2 ^ 32 * width := Nat.mul_le_mul_right _ (by
          have := List.length_filterMap_le model.outDegree? states
          omega)
      _ < 2 ^ 64 := by omega

namespace Pool

variable {model : Model σ} {initial : List σ} {place : Location} {past : History σ} {pool : Pool σ}
  {prints : Finset Fingerprint} {launch : Exploration.Launch σ}

/-- Nodes are recorded for different fingerprints only. -/
theorem nodup_of_lists (lists : pool.shared.seen.Lists (pool.prints model past)) :
    ((History.nodes past).map fun node => model.fingerprint node.state).Nodup := by
  have all := lists.nodup
  rw [Pool.prints, List.map_append, List.map_map] at all
  exact all.of_append_left

/-- There are no more nodes than fingerprints. -/
theorem Surveyed.length_nodes_le (surveyed : Surveyed model initial place past pool)
    (bounded : model.Bounded initial prints)
    (lists : pool.shared.seen.Lists (pool.prints model past)) :
    (History.nodes past).length ≤ prints.card := by
  have distinct := nodup_of_lists lists
  have within : ((History.nodes past).map fun node => model.fingerprint node.state).toFinset ⊆
      prints := by
    intro print member
    obtain ⟨node, among, rfl⟩ := List.mem_map.mp (List.mem_toFinset.mp member)
    exact bounded.finite _ (surveyed.coherent.reachable node among)
  have count := Finset.card_le_card within
  rwa [List.toFinset_card_of_nodup distinct, List.length_map] at count

/-- Nodes with so few fingerprints do not lie as deep as can be said. -/
theorem Surveyed.level_ne (surveyed : Surveyed model initial place past pool)
    (bounded : model.Bounded initial prints)
    (lists : pool.shared.seen.Lists (pool.prints model past)) :
    ∀ node ∈ History.nodes past, node.level ≠ Worker.levelMax := by
  intro node member deep
  obtain ⟨item, among, rfl⟩ := List.mem_map.mp member
  have level := surveyed.coherent.explained.recorded.level_le item among
  have count := surveyed.length_nodes_le bounded lists
  rw [History.nodes, List.length_map] at count
  have few := bounded.few
  have top : Worker.levelMax.toNat = 2 ^ 32 - 1 := rfl
  rw [deep] at level
  omega

/-- A run that is not hindered does not end with a fault unless the model does. -/
theorem Surveyed.conclude_ne_fault (surveyed : Surveyed model initial place past pool)
    (settled : pool.isSettled = true) (staffed : pool.workers ≠ [])
    (free : ¬ Hindered past pool)
    (total : ∀ state fault, model.Reachable initial state →
      model.successors state ≠ .error (.fault fault))
    (small : ∀ log ∈ pool.logs, log.size < 2 ^ 64) (fault : Fault) :
    (Exploration.conclude launch pool).1 ≠ .error (.fault fault) := by
  cases first : Exploration.firstFault? pool.workers with
  | some raised =>
    obtain ⟨worker, member, broken⟩ := Exploration.exists_broken_of_firstFault? first
    have accounted := surveyed.accounted.stages worker member
    rw [broken] at accounted
    obtain ⟨node, expanded, raised⟩ := accounted
    obtain ⟨origin, rfl, failed⟩ := raised.resolve_left free
    have there := surveyed.coherent.conserved.expanded_subset (expanded origin rfl)
    exact absurd failed (total _ _ (surveyed.coherent.reachable origin there))
  | none =>
    have stopped := stopped_of_isSettled settled first
    have ended := surveyed.tail_of_stopped stopped staffed
    obtain ⟨summary, counted, -⟩ :=
      @exists_summaryOf_eq_ok _ _ _ _ launch surveyed.tallied surveyed.sounded free
    obtain ⟨trace, leads⟩ := surveyed.exists_leads
    rw [surveyed.conclude_eq first ended counted small leads]
    cases Exploration.verdictOn pool.shared.report trace <;> simp [Except.mapError, Except.map]

end Pool

namespace Exploration.Course

variable {model : Model σ} {initial : List σ} {prints : Finset Fingerprint}

namespace Lone

variable {course : Course model initial .empty}

section

variable (lone : course.Lone) (bounded : model.Bounded initial prints) (schedule : List Nat)

include lone bounded

/-- The fingerprints met are listed throughout. -/
theorem lists : (course.pool schedule).shared.seen.Lists
    ((course.pool schedule).prints model (course.history schedule)) := by
  obtain ⟨place, worker, single, -, lists⟩ := @induction _ _ _ _ lone
    (fun _ past worker shared => shared.seen.Lists (Pool.prints model past ⟨[worker], shared⟩))
    (fun launched _ _ => by
      obtain ⟨-, lists⟩ := course.exists_surveyed_launch lone.staffed
      rwa [launched] at lists)
    (fun {place steps past events worker next shared after} solitary turn _ lists => by
      have found : ([worker] : List (Worker σ))[0]? = some worker := rfl
      have surveyed := solitary.surveyed
      have listed : (Pool.mk [worker] shared).shared.seen.Lists
          (Pool.prints model past ⟨[worker], shared⟩ ++ []) := by rwa [List.append_nil]
      rcases Pool.lists_step_of_lists found turn listed with
        ⟨node, state, rest, stage, deep⟩ | still
      · have there := surveyed.coherent.mem_nodes_of_recording List.mem_cons_self stage
        exact absurd deep (surveyed.level_ne bounded lists node there)
      · rwa [List.append_nil] at still)
    schedule
  rwa [← single] at lists

/-- There are no more nodes than fingerprints, and no more were expanded. -/
theorem length_le : (History.nodes (course.history schedule)).length ≤ prints.card ∧
    (course.pool schedule).shared.expanded.length ≤ prints.card := by
  obtain ⟨place, surveyed⟩ := course.exists_surveyed lone.staffed lone.restores schedule
  have nodes := surveyed.length_nodes_le bounded (lone.lists bounded schedule)
  have conserved := surveyed.coherent.conserved.nodes.length_eq
  simp only [List.length_append] at conserved
  exact ⟨nodes, by omega⟩

/-- Nothing hinders the exploration. -/
theorem not_hindered : ¬ Pool.Hindered (course.history schedule) (course.pool schedule) := by
  obtain ⟨place, surveyed⟩ := course.exists_surveyed lone.staffed lone.restores schedule
  rintro (refused | ⟨node, member, deep⟩ | many)
  · exact refused (lone.refused_eq_nil schedule)
  · exact surveyed.level_ne bounded (lone.lists bounded schedule) node member deep
  · have few := (lone.length_le bounded schedule).2
    have limit := bounded.few
    have top : Histogram.counterMax = 2 ^ 64 - 1 := rfl
    omega

/-- So few successors are computed that they can be counted. -/
theorem sum_tally_lt : (model.tally (course.pool schedule).shared.expanded).sum < 2 ^ 64 := by
  obtain ⟨place, surveyed⟩ := course.exists_surveyed lone.staffed lone.restores schedule
  have coherent := surveyed.coherent
  have same : model.tally (course.pool schedule).shared.expanded =
      ((course.pool schedule).shared.expanded.map Node.state).filterMap model.outDegree? := by
    rw [List.filterMap_map]
    rfl
  rw [same]
  apply bounded.successors
  · intro state member
    obtain ⟨node, among, rfl⟩ := List.mem_map.mp member
    exact coherent.reachable node (coherent.conserved.expanded_subset among)
  · -- What was expanded is part of what was recorded.
    have distinct := Pool.nodup_of_lists (lone.lists bounded schedule)
    rw [(coherent.conserved.nodes.map _).nodup_iff] at distinct
    simp only [List.map_append, List.append_assoc] at distinct
    rw [List.map_map]
    exact distinct.of_append_left

/-- The effort of the whole run is bounded. -/
theorem effort_lt {worker : Worker σ} (single : (course.pool schedule).workers = [worker]) :
    12 + worker.effort (course.pool schedule).shared < Pool.patience := by
  obtain ⟨place, surveyed⟩ := course.exists_surveyed lone.staffed lone.restores schedule
  obtain ⟨nodes, expanded⟩ := lone.length_le bounded schedule
  have sum := lone.sum_tally_lt bounded schedule
  have generated := surveyed.tallied.generated
  have size := (lone.lists bounded schedule).size
  have met : worker.stage.met.length ≤ 1 := by cases worker.stage <;> simp [Stage.met]
  simp only [single, Pool.prints, List.map_cons, List.map_nil, List.sum_cons, List.sum_nil,
    List.flatMap_cons, List.flatMap_nil, List.append_nil, List.map_append, List.length_append,
    List.length_map] at generated size
  have few := bounded.few
  have patience : Pool.patience = 2 ^ 72 := rfl
  rw [Worker.effort, patience]
  omega

end

/-- A run with as many steps as the program has patience for comes to its end. -/
theorem isSettled (lone : course.Lone) (bounded : model.Bounded initial prints)
    {schedule : List Nat} (patient : schedule.count 0 = Pool.patience) :
    (course.pool schedule).isSettled = true := by
  obtain ⟨worker, single⟩ := lone.exists_workers_eq schedule
  apply lone.isSettled_of_lt single
  rw [patient]
  exact lone.effort_lt bounded _ single

/-- The logs are small. -/
theorem size_lt (lone : course.Lone) (bounded : model.Bounded initial prints)
    (schedule : List Nat) : ∀ log ∈ (course.pool schedule).logs, log.size < 2 ^ 64 := by
  intro log member
  obtain ⟨place, surveyed⟩ := course.exists_surveyed lone.staffed lone.restores schedule
  have nodes := (lone.length_le bounded schedule).1
  rw [History.nodes, List.length_map] at nodes
  have fewer : (Trace.findingsOf (recorded (course.history schedule)) log.worker).length ≤
      (recorded (course.history schedule)).length := List.length_filter_le _ _
  have few := bounded.few
  have width : Record.width = 18 := rfl
  rw [surveyed.coherent.logged.size_eq member, width]
  omega

/-- A run that has come to its end does not end with a fault. -/
theorem conclude_ne_fault (lone : course.Lone) (bounded : model.Bounded initial prints)
    {schedule : List Nat} (settled : (course.pool schedule).isSettled = true) (fault : Fault) :
    (conclude course.launch (course.pool schedule)).1 ≠ .error (.fault fault) := by
  obtain ⟨place, surveyed⟩ := course.exists_surveyed lone.staffed lone.restores schedule
  obtain ⟨worker, single⟩ := lone.exists_workers_eq schedule
  have team : (course.pool schedule).workers ≠ [] := by
    rw [single]
    exact List.cons_ne_nil _ _
  exact surveyed.conclude_ne_fault settled team (lone.not_hindered bounded schedule) bounded.total
    (lone.size_lt bounded schedule) fault

end Lone

/-- A run with a single worker returns. Let the states that can be reached have finitely many
fingerprints, let the model not break down, and let no page file fail to be written. Then every
call of the worker ends after two looks at most: the page that it looks for waits already; or it is
the page that the worker holds, which is given away after the first look and then found; or nothing
is left, and the frontier is finished. No more nodes are expanded than there are fingerprints. The
worker comes to its end before the program's patience does, and the run does not end with a
fault. -/
theorem returns_of_lone (course : Course model initial .empty) (lone : course.Lone)
    (bounded : model.Bounded initial prints) :
    (∀ schedule worker, (course.pool schedule).workers = [worker] →
      worker.stage.isBeginning = true →
      ∃ steps ≤ 7, ∃ ticket looks events last,
        (course.pool schedule).Proceeds model steps looks (.drawn ticket :: events) last ∧
          last.isWaiting 0 = false ∧
          CallEnds (course.history schedule) worker.held last ticket looks events) ∧
    (∀ schedule, (course.pool schedule).shared.expanded.length ≤ prints.card) ∧
    (course.launch.pool.settle model).isSettled = true ∧
    ∀ fault, course.result.outcome ≠ .error (.fault fault) := by
  obtain ⟨turns, patient, settles, same⟩ := lone.exists_result_eq
  have settled := lone.isSettled bounded patient
  refine ⟨fun schedule worker single beginning => lone.exists_callEnds single beginning,
    fun schedule => (lone.length_le bounded schedule).2, ?_, fun fault => ?_⟩
  · rw [settles]
    exact settled
  · rw [same]
    exact lone.conclude_ne_fault bounded settled fault

/-- A single worker explores a grid of four states with pages of four nodes, and comes to wait for
the page that it holds. -/
theorem returns_of_lone_of_square :
    let grid : CounterGrid := ⟨1, 1, none⟩
    ∃ course : Course grid.model grid.initialStates .empty, course.settings.workerCount = 1 ∧
      (∃ looks page last, CallEnds (course.history (List.replicate 21 0)) (some page) last page.id
        looks [.enqueued page, .delivered page.id page]) ∧
      (course.pool (List.replicate 40 0)).shared.expanded.length = 4 ∧
      (course.launch.pool.settle grid.model).isSettled = true ∧
      ∀ fault, course.result.outcome ≠ .error (.fault fault) := by
  intro grid
  let settings : Settings := { Settings.standard ⟨["runs"]⟩ with
    workers := 1, pageSizing := .fixed 4, inMemoryPages := 1, localBacklog := 1 }
  let course := (launch? settings grid.model grid.initialStates .empty 1 0 .empty).get
    (by decide +kernel)
  have single : course.settings.workerCount = 1 := by decide +kernel
  have pages : course.settings.pageSizing = .fixed 4 := by decide +kernel
  have roomy := roomy_of_fixed pages (by decide) (by decide +kernel)
  have lone := roomy.lone single fun state _ => grid.lossless_model.restores state
  have computed {state : GridState} {states : List GridState}
      (same : grid.model.successors state = .ok states) : grid.neighbours state = states :=
    Except.ok.inj same
  have bounded := @Model.Bounded.of_closed _ grid.model grid.initialStates
    [⟨0, 0⟩, ⟨1, 0⟩, ⟨0, 1⟩, ⟨1, 1⟩] 2 (by decide +kernel)
    (fun state member states same => computed same ▸
      (by decide +kernel : ∀ state ∈ _, grid.neighbours state ⊆ _) state member)
    (fun state _ fault raised => nomatch raised)
    (fun state member states same => computed same ▸
      (by decide +kernel : ∀ state ∈ _, (grid.neighbours state).length ≤ 2) state member)
    (by decide) (by decide)
  obtain ⟨calls, -, settled, faultless⟩ := course.returns_of_lone lone bounded
  obtain ⟨worker, alone⟩ := lone.exists_workers_eq (List.replicate 21 0)
  have waits : (course.pool (List.replicate 21 0)).workers.all (fun worker =>
      worker.stage.isBeginning && worker.held.isSome) = true := by decide +kernel
  rw [alone, List.all_cons, List.all_nil, Bool.and_true, Bool.and_eq_true,
    Option.isSome_iff_exists] at waits
  obtain ⟨beginning, page, held⟩ := waits
  obtain ⟨steps, -, ticket, looks, events, last, -, -, ends⟩ := calls _ worker alone beginning
  have nothing : waiting (course.history (List.replicate 21 0)) = [] := by decide +kernel
  rw [held] at ends
  refine ⟨course, single, ?_, by decide +kernel, settled, faultless⟩
  cases ends with
  | finds among =>
    rw [nothing] at among
    cases among
  | yields holding =>
    obtain rfl := Option.some.inj holding
    exact ⟨2, page, last, .yields holding⟩
  | finishes empty => cases empty

end Exploration.Course

end Wavefront
