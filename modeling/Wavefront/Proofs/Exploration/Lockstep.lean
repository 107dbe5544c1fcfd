/-
# In step with breadth-first search

A worker that is alone and keeps no backlog of its own puts every new node on a page, and
pages are delivered in the order in which they were begun. So the nodes that are yet to be
expanded form one line, however they are spread: the node that the worker is about to expand,
its backlog, the pages that wait, the page that it holds, and the node that it claims a page
for. The line is the queue of a plain breadth-first search. `Worker.InStep` says so, along with
all that the search has in common with the worker; while the worker looks at successors, the
search has those before it that remain.
-/

import Wavefront.Proofs.Exploration.Pace
import Wavefront.Proofs.Search.BreadthFirst

namespace Wavefront

open History BreadthFirst

variable {σ : Type}

/-! ## The line -/

namespace Stage

/-- The node that a worker has taken from its backlog and not expanded. -/
@[simp]
def ahead : Stage σ → List (Node σ)
  | expanding node => [node]
  | _ => []

/-- The node that a worker is about to put on a new page. -/
@[simp]
def behind : Stage σ → List (Node σ)
  | claiming _ child _ => [child]
  | _ => []

/-- The node whose successors a worker looks at. -/
def source? : Stage σ → Option (Node σ)
  | sifting node _ => some node
  | recording node _ _ => some node
  | claiming node _ _ => some node
  | publishing node _ _ => some node
  | _ => none

/-- The successors that a worker has not dealt with, the one about to be recorded first. -/
def owed (stage : Stage σ) : List σ := stage.met ++ stage.remaining

end Stage

namespace Worker

/-- The nodes that are yet to be expanded, in order. -/
def line (worker : Worker σ) (past : History σ) : List (Node σ) :=
  worker.stage.ahead ++ worker.backlog.toList ++ nodesOn (waiting past) ++ nodesOn worker.pages ++
    worker.stage.behind

end Worker

/-! ## The relation -/

namespace BreadthFirst.Search

/-- Nothing is left to be done. -/
def IsExhausted (search : Search σ) (report : Option (Report σ)) : Prop :=
  search.failure = none ∧ report = none ∧ search.queue = []

/-- The failure of a search has been reported. -/
def IsTold (search : Search σ) (report : Option (Report σ)) : Prop :=
  ∃ visit cause, search.failure = some (visit, .failure cause) ∧
    report = some ⟨some visit.node, cause⟩

/-- How a search fares, as far as the stage of the worker tells. -/
def Phase (search : Search σ) (report : Option (Report σ)) : Stage σ → Prop
  | .waiting (.latch _) => search.IsExhausted report
  | .flushing => search.IsExhausted report
  | .reporting node cause =>
      ∃ visit, node = some visit.node ∧ search.failure = some (visit, .failure cause) ∧
        report = none
  | .latching => search.IsTold report
  | .stopped => search.IsExhausted report ∨ search.IsTold report
  | .unwinding fault => ∃ visit, search.failure = some (visit, .fault fault)
  | .broken fault => ∃ visit, search.failure = some (visit, .fault fault)
  | _ => search.failure = none ∧ report = none

end BreadthFirst.Search

namespace Worker

/-- A worker and a search that have come to the same. -/
structure Matches (model : Model σ) (past : History σ) (worker : Worker σ) (shared : Shared σ)
    (search : Search σ) : Prop where
  owner : worker.log.worker = 0
  limit : worker.localLimit = 0
  count : worker.log.count = search.found.length
  recorded : recorded past = search.found.map Visit.finding
  line : worker.line past = search.queue.map Visit.node
  expanded : shared.expanded = (search.expanded.map Visit.node).reverse
  generated : worker.generated = search.degrees.sum
  degrees : ∃ name, (Histogram.empty name outDegreeBuckets).addAll search.degrees =
    (.ok (), worker.outDegree)
  maxLevel : worker.maxLevel = UInt32.ofNat search.depth
  orderly : search.Orderly model
  phase : search.Phase shared.report worker.stage

/-- A worker and a search that have come to the same, where the search will have made as many
expansions as the worker when it has dealt with the successors that remain. -/
structure InStep (model : Model σ) (initial : List σ) (past : History σ) (worker : Worker σ)
    (shared : Shared σ) (search : Search σ) : Prop
    extends worker.Matches model past shared search where
  progress : ∃ origin, origin.map Visit.node = worker.stage.source? ∧
    (∀ visit, origin = some visit → visit ∈ search.found) ∧
    search.offerAll model origin worker.stage.owed =
      Search.after model initial shared.expanded.length

variable {model : Model σ} {initial : List σ} {place : Location} {past events : History σ}
  {worker next : Worker σ} {shared after : Shared σ} {search : Search σ}

namespace Matches

theorem phase_at (same : worker.Matches model past shared search) {stage : Stage σ}
    (here : worker.stage = stage) : search.Phase shared.report stage :=
  here ▸ same.phase

/-- The nodes recorded are those discovered. -/
theorem nodes_eq (same : worker.Matches model past shared search) :
    History.nodes past = search.found.map Visit.node := by
  rw [History.nodes, same.recorded, List.map_map]
  rfl

/-- The fingerprints met are those that the search has met, and that of the state about to be
recorded. -/
theorem prints_eq (same : worker.Matches model past shared search) :
    Pool.prints model past ⟨[worker], shared⟩ =
      search.seen ++ worker.stage.met.map model.fingerprint := by
  rw [Pool.prints, same.nodes_eq, same.orderly.seen]
  simp [Visit.node]

/-- No more states have been expanded than discovered. -/
theorem length_expanded_le (same : worker.Matches model past shared search) :
    shared.expanded.length ≤ search.found.length := by
  rw [same.expanded, List.length_reverse, List.length_map, Search.found, List.length_append]
  exact Nat.le_add_right _ _

/-- A search within the limits does not hinder the worker. -/
theorem not_hindered (same : worker.Matches model past shared search)
    (fits : search.Fits) (kept : refused past = []) :
    ¬ Pool.Hindered past ⟨[worker], shared⟩ := by
  rintro (lost | ⟨node, member, deep⟩ | many)
  · exact lost kept
  · rw [same.nodes_eq] at member
    obtain ⟨visit, among, rfl⟩ := List.mem_map.mp member
    exact fits.level_ne visit among deep
  · have few := fits.length_lt
    have fewer := same.length_expanded_le
    have many : Histogram.counterMax < shared.expanded.length := many
    omega

/-- A worker that has recorded a new state has discovered what the search discovers. -/
theorem discover (same : worker.Matches model past shared search) {origin : Option (Visit σ)}
    {node : Node σ} {state : σ} {stage : Stage σ} (record : Record)
    (new : model.fingerprint state ∉ search.seen)
    (known : ∀ visit, origin = some visit → visit ∈ search.found)
    (own : node = (Visit.make origin search.found.length state).node)
    (small : search.depth < 2 ^ 32)
    (low : (Visit.make origin search.found.length state).level < 2 ^ 32)
    (noted : History.recorded events = [(origin.map Visit.node, node)])
    (expanded : after.expanded = shared.expanded)
    (line : ({ worker with stage := stage } : Worker σ).line (past ++ events) =
      worker.line past ++ [node])
    (phase : (search.offer model origin state).Phase after.report stage) :
    ({ worker with
      log := (worker.log.append record).2
      maxLevel := max worker.maxLevel node.level
      stage := stage } : Worker σ).Matches model (past ++ events) after
        (search.offer model origin state) := by
  subst own
  have found := @Search.found_offer _ _ _ origin _ new
  have orderly := same.orderly.offer known state
  have deepest := @Search.depth_offer _ _ _ origin _ new
  have queued := @Search.offer_of_notMem _ _ _ origin _ new
  exact {
    owner := same.owner
    limit := same.limit
    count := by
      rw [found, List.length_append, ← same.count]
      rfl
    recorded := by
      rw [recorded_append, same.recorded, noted, found, List.map_append, List.map_singleton,
        Visit.finding, Visit.origin?_make]
    line := by
      rw [queued, List.map_append, ← same.line]
      exact line
    expanded := by
      rw [queued]
      exact expanded.trans same.expanded
    generated := by
      rw [queued]
      exact same.generated
    degrees := by
      rw [queued]
      exact same.degrees
    maxLevel := by
      rw [deepest, ofNat_max small low, ← same.maxLevel]
      rfl
    orderly := orderly
    phase := phase }

end Matches

namespace InStep

theorem progress_at (inStep : worker.InStep model initial past shared search) {stage : Stage σ}
    (here : worker.stage = stage) :
    ∃ origin, origin.map Visit.node = stage.source? ∧
      (∀ visit, origin = some visit → visit ∈ search.found) ∧
      search.offerAll model origin stage.owed =
        Search.after model initial shared.expanded.length :=
  here ▸ inStep.progress

/-- What a search still has before it was made by as many expansions. -/
theorem grows (inStep : worker.InStep model initial past shared search) :
    search.Grows (Search.after model initial shared.expanded.length) := by
  obtain ⟨origin, -, -, same⟩ := inStep.progress
  rw [← same]
  exact search.grows_offerAll origin _

/-- Between two expansions the search is where as many expansions lead. -/
theorem eq_after (inStep : worker.InStep model initial past shared search) {stage : Stage σ}
    (here : worker.stage = stage) (done : stage.owed = []) :
    search = Search.after model initial shared.expanded.length := by
  obtain ⟨origin, -, -, same⟩ := inStep.progress_at here
  rwa [done] at same

/-- The fingerprints met are listed. -/
theorem lists (inStep : worker.InStep model initial past shared search) (fits : search.Fits)
    (solitary : worker.Solitary model initial place past shared) :
    shared.seen.Lists (search.seen ++ worker.stage.met.map model.fingerprint) := by
  rw [← inStep.prints_eq]
  exact solitary.surveyed.lists.resolve_left (inStep.not_hindered fits solitary.kept)

/-- What a worker does between two expansions, while the search stands still. -/
theorem move (inStep : worker.InStep model initial past shared search)
    {backlog : Fifo (Node σ)} {held : Option (Page σ)} {accepted processed : Nat}
    {before stage : Stage σ} (here : worker.stage = before)
    (silent : History.recorded events = []) (expanded : after.expanded = shared.expanded)
    (line : ({ worker with
      backlog := backlog
      held := held
      accepted := accepted
      processed := processed
      stage := stage } : Worker σ).line (past ++ events) = worker.line past)
    (phase : search.Phase after.report stage)
    (done : before.owed = []) (owed : stage.owed = []) (source : stage.source? = none) :
    ({ worker with
      backlog := backlog
      held := held
      accepted := accepted
      processed := processed
      stage := stage } : Worker σ).InStep model initial (past ++ events) after search where
  owner := inStep.owner
  limit := inStep.limit
  count := inStep.count
  recorded := by rw [recorded_append, silent, List.append_nil, inStep.recorded]
  line := line.trans inStep.line
  expanded := expanded.trans inStep.expanded
  generated := inStep.generated
  degrees := inStep.degrees
  maxLevel := inStep.maxLevel
  orderly := inStep.orderly
  phase := phase
  progress := ⟨none, source.symm, by simp, by
    rw [owed, expanded]
    exact inStep.eq_after here done⟩

/-! ## Accesses -/

/-- No access of a call lets the search go on. -/
theorem access (inStep : worker.InStep model initial past shared search) {wait : Wait σ}
    {accessed : Accessed σ} (solitary : worker.Solitary model initial place past shared)
    (stage : worker.stage = .waiting wait)
    (access : Access past worker.held shared.frontier shared.disk wait accessed events) :
    (worker.proceed accessed).InStep model initial (past ++ events)
      { shared with frontier := accessed.frontier, disk := accessed.disk } search := by
  have idle : worker.backlog.toList = [] := (solitary.sound.orderly worker (by simp)).waiting stage
  have line : worker.line past = nodesOn (waiting past) ++ nodesOn worker.held.toList ++
      nodesOn wait.pages := by
    simp [Worker.line, idle, stage, pages]
  have phase := inStep.phase_at stage
  cases access with
  | reads | draws | misses | rereads =>
    refine inStep.move stage rfl rfl ?_ phase rfl rfl rfl
    rw [Worker.line, waiting_append_of_nil rfl rfl, line]
    simp [idle, pages]
  | @receives ticket retries page rest _ _ waits same =>
    subst same
    refine inStep.move stage rfl rfl ?_ phase rfl rfl rfl
    rw [Worker.line, solitary.alone.waiting_delivered waits, line, waits]
    simp [idle, pages]
  | exhausts empty nothing =>
    have queue : search.queue = [] := by
      have none := inStep.line
      rw [line, nothing, empty] at none
      exact List.map_eq_nil_iff.mp none.symm
    refine inStep.move stage rfl rfl ?_ ⟨phase.1, phase.2, queue⟩ rfl rfl rfl
    rw [List.append_nil, line]
    simp [Worker.line, idle, pages]
  | yields holding =>
    refine inStep.move stage rfl rfl ?_ phase rfl rfl rfl
    rw [List.append_nil, line]
    simp [Worker.line, idle, pages, holding]
  | latches =>
    refine inStep.move stage rfl rfl ?_ phase rfl rfl rfl
    rw [Worker.line, waiting_append_of_nil rfl rfl, line]
    simp [idle, pages]
  | donates empty same fresh nothing =>
    refine inStep.move stage rfl rfl ?_ phase rfl rfl rfl
    rw [Worker.line, waiting_append_enqueued fresh, line, nothing]
    simp [idle, pages, empty]

/-! ## Expansions -/

/-- The node that a worker is about to expand is at the head of the queue. -/
theorem exists_queue_eq (inStep : worker.InStep model initial past shared search) {node : Node σ}
    (stage : worker.stage = .expanding node) :
    ∃ visit rest, search.queue = visit :: rest ∧ visit.node = node ∧
      ({ worker with stage := .polling } : Worker σ).line past = rest.map Visit.node := by
  have line := inStep.line
  rw [Worker.line, pages, stage] at line
  obtain ⟨visit, rest, queue, own, others⟩ := List.map_eq_cons_iff.mp line.symm
  exact ⟨visit, rest, queue, own, others.symm⟩

/-- A worker and the search fail at the same node. -/
theorem fail (inStep : worker.InStep model initial past shared search) {node : Node σ} {stop : Stop}
    (stage : worker.stage = .expanding node)
    (failed : model.successors node.state = .error stop) :
    ∃ later, ({ worker with stage := .ending (some node) stop } : Worker σ).InStep model initial
      past { shared with expanded := node :: shared.expanded } later := by
  obtain ⟨going, quiet⟩ := inStep.phase_at stage
  have here := inStep.eq_after stage rfl
  obtain ⟨visit, rest, queue, rfl, others⟩ := inStep.exists_queue_eq stage
  let later : Search σ :=
    { search with
      expanded := search.expanded ++ [visit]
      queue := rest
      failure := some (visit, stop) }
  have next : later = Search.after model initial (shared.expanded.length + 1) := by
    rw [Search.after, ← here]
    exact (Search.expand_of_error going queue failed).symm
  have found : later.found = search.found := Search.append_queue_eq queue
  refine ⟨later, { inStep with
    count := by rw [found]; exact inStep.count
    recorded := by rw [found]; exact inStep.recorded
    line := ?_
    expanded := by simp [later, inStep.expanded]
    maxLevel := by rw [Search.depth, found]; exact inStep.maxLevel
    orderly := inStep.orderly.of_found found rfl
    phase := ?_
    progress := ⟨none, ?_, by simp, ?_⟩ }⟩
  · cases stop <;> exact others
  · cases stop with
    | failure cause => exact ⟨visit, rfl, rfl, quiet⟩
    | fault fault => exact ⟨visit, rfl⟩
  · cases stop <;> rfl
  · cases stop <;> exact next

/-- A worker and the search expand the same node. -/
theorem expand (inStep : worker.InStep model initial past shared search) {node : Node σ}
    {states : List σ} {degrees : Histogram} (stage : worker.stage = .expanding node)
    (computed : model.successors node.state = .ok states)
    (counted : worker.outDegree.add states.length = (.ok (), degrees)) :
    ∃ later, ({ worker with
        generated := worker.generated + states.length
        outDegree := degrees
        stage := .sifting node states } : Worker σ).InStep model initial past
      { shared with expanded := node :: shared.expanded } later := by
  obtain ⟨going, quiet⟩ := inStep.phase_at stage
  have here := inStep.eq_after stage rfl
  obtain ⟨visit, rest, queue, rfl, others⟩ := inStep.exists_queue_eq stage
  let later : Search σ :=
    { search with
      expanded := search.expanded ++ [visit]
      queue := rest
      degrees := search.degrees ++ [states.length] }
  have next : later.offerAll model (some visit) states =
      Search.after model initial (shared.expanded.length + 1) := by
    rw [Search.after, ← here]
    exact (Search.expand_of_ok going queue computed).symm
  have found : later.found = search.found := Search.append_queue_eq queue
  obtain ⟨name, samples⟩ := inStep.degrees
  refine ⟨later, { inStep with
    count := by rw [found]; exact inStep.count
    recorded := by rw [found]; exact inStep.recorded
    line := others
    expanded := by simp [later, inStep.expanded]
    generated := by simp [later, inStep.generated]
    degrees := ⟨name, (Histogram.addAll_append samples _).trans counted⟩
    maxLevel := by rw [Search.depth, found]; exact inStep.maxLevel
    orderly := inStep.orderly.of_found found rfl
    phase := ⟨going, quiet⟩
    progress := ⟨some visit, rfl, ?_, next⟩ }⟩
  rintro _ ⟨⟩
  simp [later, Search.found]

/-- So few nodes are expanded that they can be counted. -/
theorem add_ne_error (inStep : worker.InStep model initial past shared search) (fits : search.Fits)
    (solitary : worker.Solitary model initial place past shared) {sample : Nat} {fault : Fault}
    {degrees : Histogram} : worker.outDegree.add sample ≠ (.error fault, degrees) := by
  intro counted
  have free := inStep.not_hindered fits solitary.kept
  obtain ⟨consistent, observed⟩ := solitary.surveyed.tallied.observed.resolve_left
    fun many => free (Pool.Limited.hindered (.inr many))
  have full := Histogram.counterMax_le_of_add_eq_error (consistent worker (by simp)) counted
  have fewer := model.length_tally_le shared.expanded
  have less := inStep.length_expanded_le
  have few := fits.length_lt
  simp only [List.map_cons, List.map_nil, List.sum_cons, List.sum_nil] at observed
  omega

/-! ## Discoveries -/

/-- The search stands still while a worker asks whether a successor is new. -/
theorem meet (inStep : worker.InStep model initial past shared search) {node : Node σ} {state : σ}
    {rest : List σ} {seen : Seen} (stage : worker.stage = .sifting node (state :: rest)) :
    ({ worker with stage := .recording node state rest } : Worker σ).InStep model initial past
      { shared with seen := seen } search := by
  have line := inStep.line
  have phase := inStep.phase_at stage
  have progress := inStep.progress_at stage
  rw [Worker.line, pages, stage] at line
  exact { inStep with
    line := line
    phase := phase
    progress := progress }

/-- A successor that a worker has met before has been met by the search. -/
theorem skip (inStep : worker.InStep model initial past shared search) {node : Node σ} {state : σ}
    {rest : List σ} {seen : Seen} (solitary : worker.Solitary model initial place past shared)
    (fits : search.Fits) (stage : worker.stage = .sifting node (state :: rest))
    (known : shared.seen.contains (model.fingerprint state) = true) :
    ({ worker with stage := .sifting node rest } : Worker σ).InStep model initial past
      { shared with seen := seen } search := by
  have lists := inStep.lists fits solitary
  rw [stage] at lists
  have old : model.fingerprint state ∈ search.seen := by
    simpa [Stage.met] using (lists.contains _).mp known
  have line := inStep.line
  have phase := inStep.phase_at stage
  rw [Worker.line, pages, stage] at line
  obtain ⟨origin, source, known, onward⟩ := inStep.progress_at stage
  have passed : search.offer model origin state = search := Search.offer_of_mem old
  have onward : (search.offer model origin state).offerAll model origin rest =
    Search.after model initial shared.expanded.length := onward
  rw [passed] at onward
  exact { inStep with
    line := line
    phase := phase
    progress := ⟨origin, source, known, onward⟩ }

/-- A worker that has recorded a new successor has discovered what the search has discovered, and
has yet to put it on a page. -/
theorem note (inStep : worker.InStep model initial past shared search) {node : Node σ} {state : σ}
    {rest : List σ} (solitary : worker.Solitary model initial place past shared)
    (fits : (Search.after model initial shared.expanded.length).Fits)
    (stage : worker.stage = .recording node state rest) :
    ∃ later, ({ worker.noting model node state with
        stage := .claiming node (worker.discovery model node state) rest } : Worker σ).InStep
      model initial (past ++ [.recorded (some node) (worker.discovery model node state)]) shared
      later := by
  obtain ⟨going, quiet⟩ := inStep.phase_at stage
  obtain ⟨origin, source, known, onward⟩ := inStep.progress_at stage
  obtain ⟨visit, rfl, rfl⟩ := Option.map_eq_some_iff.mp source
  have lists := inStep.lists (fits.of_grows inStep.grows) solitary
  have new : model.fingerprint state ∉ search.seen := by
    intro old
    have distinct := lists.nodup
    rw [stage] at distinct
    exact (List.nodup_append.mp distinct).2.2 _ old _ (by simp [Stage.met]) rfl
  -- The node that the worker makes is the one that belongs to the new discovery.
  have own : worker.discovery model visit.node state =
      (Visit.successor visit search.found.length state).node := by
    have level := Visit.level_node_successor visit search.found.length state
    rw [discovery, Log.append_fst, Log.size, inStep.owner, inStep.count, ← level]
    rfl
  have within := fits.of_grows inStep.grows
  have small := within.depth_lt
  have low : visit.level + 1 < 2 ^ 32 := by
    have below := within.levels visit (known visit rfl)
    omega
  have line : ({ worker with
        stage := .claiming visit.node (worker.discovery model visit.node state) rest } :
          Worker σ).line (past ++ [.recorded (some visit.node) (worker.discovery model visit.node
            state)]) =
      worker.line past ++ [worker.discovery model visit.node state] := by
    rw [Worker.line, Worker.line, waiting_append_of_nil rfl rfl, stage]
    simp [pages, stage]
  have phase : (search.offer model (some visit) state).failure = none ∧ shared.report = none :=
    ⟨((search.offerAll_eq (some visit) [state]).2.2).trans going, quiet⟩
  refine ⟨search.offer model (some visit) state,
    { inStep.discover _ new known own (by omega) low rfl rfl line phase with
      progress := ⟨some visit, rfl, ?_, onward⟩ }⟩
  rintro _ ⟨⟩
  rw [Search.found_offer new]
  exact List.mem_append_left _ (known visit rfl)

/-- Once the new node is on a page, it is at the end of the line as before. -/
theorem stow (inStep : worker.InStep model initial past shared search) {node child : Node σ}
    {rest : List σ} {page : Page σ} {before : Stage σ}
    (stage : worker.stage = .claiming node child rest)
    (stowed : Stowed { worker with held := none, stage := before } page node child rest next)
    (room : page.size < page.capacity)
    (carried : nodesOn worker.held.toList = page.nodes.toList)
    (expanded : after.expanded = shared.expanded) (report : after.report = shared.report) :
    next.InStep model initial past after search := by
  obtain ⟨going, quiet⟩ := inStep.phase_at stage
  obtain ⟨origin, source, known, onward⟩ := inStep.progress_at stage
  have line := inStep.line
  have none : (Stage.claiming node child rest).pages = [] := rfl
  rw [Worker.line, pages, stage, none, List.append_nil, carried] at line
  have grown {grown : Page σ} (added : page.add child = .ok grown) :
      nodesOn [grown] = page.nodes.toList ++ [child] := by
    obtain ⟨-, rfl⟩ := Page.add_eq_ok_iff.mp added
    simp
  cases stowed with
  | bursts full => simp [Page.add, room] at full
  | fills added full =>
    exact { inStep with
      line := by
        rw [← line]
        simp [Worker.line, pages, grown added]
      expanded := expanded.trans inStep.expanded
      phase := ⟨going, report.trans quiet⟩
      progress := ⟨origin, source, known, by rw [expanded]; exact onward⟩ }
  | holds added less =>
    exact { inStep with
      line := by
        rw [← line]
        simp [Worker.line, pages, grown added]
      expanded := expanded.trans inStep.expanded
      phase := ⟨going, report.trans quiet⟩
      progress := ⟨origin, source, known, by rw [expanded]; exact onward⟩ }

/-- A full page goes to the end of the pages that wait, where its nodes have been already. -/
theorem publish (inStep : worker.InStep model initial past shared search) {node : Node σ}
    {page : Page σ} {rest : List σ} {frontier : Frontier σ} {disk : Disk}
    (solitary : worker.Solitary model initial place past shared)
    (stage : worker.stage = .publishing node page rest) :
    ({ worker with stage := .sifting node rest } : Worker σ).InStep model initial
      (past ++ [.enqueued page]) { shared with frontier := frontier, disk := disk } search := by
  have empty := solitary.alone.held_eq_none solitary.sound (by rw [stage]; rfl)
  have fresh := (Alone.books solitary.sound).notMem_answered
    (show page ∈ worker.pages by simp [pages, stage])
  have line := inStep.line
  have phase := inStep.phase_at stage
  have progress := inStep.progress_at stage
  rw [Worker.line] at line
  exact { inStep with
    recorded := by
      rw [recorded_append, inStep.recorded]
      exact List.append_nil _
    line := by
      rw [← line, Worker.line, waiting_append_enqueued fresh]
      simp [pages, stage, empty]
    phase := phase
    progress := progress }

end InStep

/-! ## Steps -/

/-- The number of expansions does not fall. -/
theorem Turn.length_expanded_le (turn : Turn model worker shared next after events) :
    shared.expanded.length ≤ after.expanded.length := by
  obtain ⟨fresh, grown, -⟩ := turn.tally
  rw [grown, List.length_append]
  exact Nat.le_add_left _ _

/-- Whatever a worker does, there is a search that has done the same, as long as nothing reaches its
limit. -/
theorem Turn.inStep (turn : Turn model worker shared next after events)
    (solitary : worker.Solitary model initial place past shared)
    (restores : ∀ state, model.Reachable initial state → model.Restores state)
    (kept : refused events = [])
    (fits : (Search.after model initial after.expanded.length).Fits)
    (inStep : worker.InStep model initial past shared search) :
    ∃ later, next.InStep model initial (past ++ events) after later := by
  have before : (Search.after model initial shared.expanded.length).Fits :=
    fits.of_grows (Search.grows_after model initial turn.length_expanded_le)
  have within : search.Fits := before.of_grows inStep.grows
  cases turn with
  | rests =>
    rw [List.append_nil]
    exact ⟨search, inStep⟩
  | heeds stage reported =>
    have quiet : shared.report = none := (inStep.phase_at stage).2
    rw [quiet] at reported
    cases reported
  | idles stage =>
    have phase := inStep.phase_at stage
    refine ⟨search, inStep.move stage rfl rfl ?_ phase rfl rfl rfl⟩
    simp [line, pages, stage]
  | picks stage taken =>
    have phase := inStep.phase_at stage
    refine ⟨search, inStep.move stage rfl rfl ?_ phase rfl rfl rfl⟩
    simp [line, pages, stage, taken]
  | concludes stage =>
    have phase := inStep.phase_at stage
    refine ⟨search, inStep.move stage rfl rfl ?_ phase rfl rfl rfl⟩
    simp [line, pages, stage]
  | accesses stage turn =>
    exact ⟨search, inStep.access solitary stage (solitary.access restores kept stage turn)⟩
  | fails stage failed =>
    rw [List.append_nil]
    exact inStep.fail stage failed
  | overflows stage computed counted =>
    exact absurd counted (inStep.add_ne_error within solitary)
  | expands stage computed counted =>
    rw [List.append_nil]
    exact inStep.expand stage computed counted
  | meets stage new =>
    rw [List.append_nil]
    exact ⟨search, inStep.meet stage⟩
  | skips stage known =>
    rw [List.append_nil]
    exact ⟨search, inStep.skip solitary within stage known⟩
  | @sinks node _ _ stage deep =>
    obtain ⟨origin, source, known, -⟩ := inStep.progress_at stage
    obtain ⟨visit, rfl, rfl⟩ := Option.map_eq_some_iff.mp source
    exact absurd deep (within.level_ne visit (known visit rfl))
  | records stage room placed =>
    obtain ⟨later, noted⟩ := inStep.note solitary before stage
    cases placed with
    | keeps few =>
      have none : worker.localLimit = 0 := inStep.limit
      have less : worker.backlog.size < worker.localLimit := few
      omega
    | seeks empty => exact ⟨later, noted⟩
    | @stows page _ holding stowed =>
      have holds : worker.held = some page := holding
      have mine := solitary.surveyed.coherent.conserved.provided worker (by simp)
      have fits := (Alone.books solitary.sound).fits page (by simp [pages, holds])
      refine ⟨later, noted.stow rfl stowed (mine.lt_capacity holds fits) ?_ rfl rfl⟩
      simp [noting, holds]
  | claims stage stowed =>
    rw [List.append_nil]
    have empty := (solitary.sound.orderly worker (by simp)).claiming stage
    have same : ({ worker with held := none, stage := worker.stage } : Worker σ) = worker := by
      rw [← empty]
    rw [← same] at stowed
    refine ⟨search, inStep.stow stage stowed ?_ ?_ rfl rfl⟩
    · exact solitary.surveyed.coherent.conserved.positive _
    · simp [empty, Frontier.claim, Page.empty]
  | publishes stage enqueued => exact ⟨search, inStep.publish solitary stage⟩
  | strands => simp at kept
  | flushes stage =>
    have phase := inStep.phase_at stage
    rw [List.append_nil]
    refine ⟨search, { inStep with
      owner := (Log.worker_flush _ _).trans inStep.owner
      count := (Log.count_flush _ _).trans inStep.count
      line := ?_
      phase := .inl phase
      progress := ⟨none, rfl, by simp, inStep.eq_after stage rfl⟩ }⟩
    rw [← inStep.line]
    simp [line, pages, stage]
  | reports stage =>
    obtain ⟨visit, rfl, failed, quiet⟩ := inStep.phase_at stage
    refine ⟨search, inStep.move stage rfl rfl ?_ ⟨visit, _, failed, ?_⟩ rfl rfl rfl⟩
    · simp [line, pages, stage]
    · simp [Report.publish, quiet]
  | latches stage =>
    have told := inStep.phase_at stage
    refine ⟨search, inStep.move stage rfl rfl ?_ (.inr told) rfl rfl rfl⟩
    simp [line, pages, stage]
  | unwinds stage =>
    have phase := inStep.phase_at stage
    refine ⟨search, inStep.move stage rfl rfl ?_ phase rfl rfl rfl⟩
    simp [line, pages, stage]

end Worker

end Wavefront
