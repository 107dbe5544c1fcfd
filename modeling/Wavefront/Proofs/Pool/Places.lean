/-
# Where nodes and records are

A node goes from place to place: into a backlog, or onto a page and with it to memory or to a
file, and in the end it is expanded. `Pool.nodesAt` reads what is in a place off the workers, the
memory and the disk, and `Pool.recordAt` reads the trace logs. Unless a page was refused, the
places together have every node that was recorded, each of them once.
-/

import Wavefront.Proofs.Pool.Coverage

namespace Wavefront

open History Trace

variable {σ : Type}

/-! ## Page files -/

namespace Frontier

variable {model : Model σ} {place : Location} {frontier : Frontier σ} {disk : Disk}
  {past : History σ} {hands : List (Page σ)} {tickets : List Nat} {page : Page σ} {id : PageId}

/-- The page in the file of a number, if the file is there and can be read as a page. -/
def filed? (frontier : Frontier σ) (model : Model σ) (id : PageId) (disk : Disk) :
    Option (Page σ) :=
  match disk.read (frontier.spill.directory.child (Page.fileName id)) with
  | .error _ => none
  | .ok bytes => (Page.ofImage model id (frontier.sizing.capacity id) bytes).toOption

/-- The pages that can be read from files are those that wait and have no place in memory. -/
theorem Balanced.filed?_eq_some_iff
    (balanced : Balanced model place frontier disk past hands tickets)
    (restores : ∀ node ∈ nodesOn (waiting past), model.Restores node.state) :
    frontier.filed? model id disk = some page ↔
      page ∈ waiting past ∧ page.id = id ∧ frontier.keepsInMemory id = false := by
  have files := balanced.stocks.files
  have reads {page : Page σ} (waits : page ∈ waiting past)
      (spilled : frontier.keepsInMemory page.id = false) :
      frontier.filed? model page.id disk = some page := by
    obtain ⟨stamp, held⟩ := files.stored page ⟨waits, spilled⟩
    have read := Disk.read_eq_ok_iff.mpr ⟨_, _, files.located page ⟨waits, spilled⟩, held⟩
    have image := balanced.ofImage_eq waits spilled fun node member =>
      restores node (mem_nodesOn.mpr ⟨page, waits, member⟩)
    simp only [filed?, read, image, Except.toOption]
  constructor
  · intro found
    by_cases there : ∃ other ∈ waiting past, other.id = id ∧ frontier.keepsInMemory id = false
    · obtain ⟨other, waits, rfl, spilled⟩ := there
      obtain rfl := Option.some.inj ((reads waits spilled).symm.trans found)
      exact ⟨waits, rfl, spilled⟩
    · -- Nothing else lies in the directory under such a name.
      have vacant := files.vacant id fun other member same =>
        there ⟨other, member.1, same, same ▸ member.2⟩
      unfold filed? at found
      split at found
      · cases found
      · rename_i bytes read
        obtain ⟨target, stamp, located, held⟩ := Disk.read_eq_ok_iff.mp read
        have plain := Spill.plain_of_isPageFile (Spill.isPageFile_fileName id)
        obtain rfl := files.opens.eq_of_locate plain located
        rw [held] at vacant
        cases vacant
  · rintro ⟨waits, rfl, spilled⟩
    exact reads waits spilled

end Frontier

/-! ## Workers -/

/-- What a node is to the worker that has it. -/
inductive Part where
  /-- It is being expanded, or its expansion has failed. -/
  | expanding
  /-- It is in the backlog. -/
  | backlog
  /-- It is on the page that the worker keeps. -/
  | held
  /-- It is on its way to a page, or on a page that is being enqueued. -/
  | moving
deriving DecidableEq

/-- All that a node can be to a worker. -/
def Part.all : List Part := [expanding, backlog, held, moving]

namespace Stage

/-- The node that a worker has chosen to expand and not begun with. -/
def chosen : Stage σ → List (Node σ)
  | expanding node => [node]
  | _ => []

/-- The node that a worker has begun to expand, or whose failure it is about to report. -/
def begun : Stage σ → List (Node σ)
  | sifting node _ => [node]
  | recording node _ _ => [node]
  | claiming node _ _ => [node]
  | publishing node _ _ => [node]
  | reporting node _ => node.toList
  | _ => []

/-- The nodes that a worker is moving. -/
def moving : Stage σ → List (Node σ)
  | claiming _ child _ => [child]
  | stage => nodesOn stage.pages

end Stage

namespace Worker

/-- The nodes that a worker has. -/
def has (worker : Worker σ) : Part → List (Node σ)
  | .expanding => worker.stage.chosen ++ worker.stage.begun
  | .backlog => worker.backlog.toList
  | .held => nodesOn worker.held.toList
  | .moving => worker.stage.moving

/-- A worker has the node that it has begun with, and those that are still to be expanded. -/
theorem perm_has (worker : Worker σ) :
    (Part.all.flatMap worker.has).Perm (worker.nodes ++ worker.stage.begun) := by
  have parts : worker.stage.nodes ++ nodesOn worker.stage.pages =
      worker.stage.chosen ++ worker.stage.moving := by
    cases worker.stage <;> simp [Stage.chosen, Stage.moving]
  classical
  rw [List.perm_iff_count]
  intro node
  have counted := congrArg (List.count node) parts
  simp only [Part.all, has, nodes, pages, nodesOn_append, List.flatMap_cons, List.flatMap_nil,
    List.append_nil, List.count_append] at counted ⊢
  omega

end Worker

/-! ## Places -/

/-- A place where nodes can be. -/
inductive Spot where
  /-- Among those whose expansion is over. -/
  | expanded
  /-- With the worker at a position. -/
  | worker (position : Nat) (part : Part)
  /-- On the page of a number in memory. -/
  | memory (id : PageId)
  /-- On the page of a number in a file. -/
  | file (id : PageId)
deriving DecidableEq

namespace Pool

variable {model : Model σ} {initial : List σ} {place : Location} {past : History σ} {pool : Pool σ}
  {fingerprint : Fingerprint}

/-- The nodes that workers have begun to expand. -/
def begun (pool : Pool σ) : List (Node σ) := pool.workers.flatMap (·.stage.begun)

/-- The nodes in a place. -/
def nodesAt (model : Model σ) (pool : Pool σ) : Spot → List (Node σ)
  | .expanded => pool.shared.expanded.filter fun node =>
      model.fingerprint node.state ∉ pool.begun.map (model.fingerprint ·.state)
  | .worker position part => pool.workers[position]?.elim [] (·.has part)
  | .memory id => nodesOn pool.shared.frontier.memory.pages[id]?.toList
  | .file id => nodesOn (pool.shared.frontier.filed? model id pool.shared.disk).toList

/-- The fingerprint of the node with an index in a place, if there is one. -/
def printAt (model : Model σ) (pool : Pool σ) (place : Spot × Nat) : Option Fingerprint :=
  (pool.nodesAt model place.1)[place.2]?.map (model.fingerprint ·.state)

/-- The record with an index in the log of the worker at a position, if there is one. -/
def recordAt (pool : Pool σ) (entry : Nat × Nat) : Option Record :=
  (pool.workers[entry.1]?.elim [] (·.log.contents pool.shared.disk))[entry.2]?

/-- The worker at a position is about to record a state with a fingerprint. -/
def IsRecording (model : Model σ) (pool : Pool σ) (position : Nat) (fingerprint : Fingerprint) :
    Prop :=
  ∃ worker node state rest, pool.workers[position]? = some worker ∧
    worker.stage = .recording node state rest ∧ model.fingerprint state = fingerprint

/-! ## What is where -/

/-- The place of a page that waits. -/
def spotOf (pool : Pool σ) (page : Page σ) : Spot :=
  if pool.shared.frontier.keepsInMemory page.id then .memory page.id else .file page.id

/-- The places where there may be something. -/
def spots (past : History σ) (pool : Pool σ) : List Spot :=
  .expanded :: ((List.range pool.workers.length).flatMap fun position =>
    Part.all.map (.worker position)) ++ (waiting past).map pool.spotOf

/-- What the workers have, part by part. -/
theorem perm_parts (pool : Pool σ) :
    (((List.range pool.workers.length).flatMap fun position =>
      Part.all.map (Spot.worker position)).flatMap (pool.nodesAt model)).Perm
        (pool.workers.flatMap Worker.nodes ++ pool.begun) := by
  have each : (((List.range pool.workers.length).flatMap fun position =>
      Part.all.map (Spot.worker position)).flatMap (pool.nodesAt model)) =
        (List.range pool.workers.length).flatMap fun position =>
          pool.workers[position]?.elim [] fun worker => Part.all.flatMap worker.has := by
    rw [List.flatMap_assoc]
    apply List.flatMap_congr
    intro position _
    rw [List.flatMap_map]
    cases found : pool.workers[position]? <;> simp [nodesAt, found, Part.all]
  rw [each, flatMap_range_getElem?]
  exact (List.Perm.flatMap_left _ fun worker _ => worker.perm_has).trans
    (List.flatMap_append_perm _ _ _).symm

section

variable (coherent : Coherent model initial place past pool)
  (restores : ∀ node ∈ History.nodes past, model.Restores node.state)

include coherent restores

theorem Coherent.filed?_eq_some_iff {id : PageId} {page : Page σ} :
    pool.shared.frontier.filed? model id pool.shared.disk = some page ↔
      page ∈ waiting past ∧ page.id = id ∧ pool.shared.frontier.keepsInMemory id = false :=
  coherent.sound.books.filed?_eq_some_iff fun node member =>
    restores node (coherent.conserved.waiting_subset member)

/-- The place of a page that waits has the nodes on that page. -/
theorem Coherent.nodesAt_spotOf {page : Page σ} (waits : page ∈ waiting past) :
    pool.nodesAt model (pool.spotOf page) = page.nodes.toList := by
  unfold spotOf
  split
  · rename_i inMemory
    have found := (coherent.sound.books.stocks.memory page.id page).mpr ⟨waits, rfl, inMemory⟩
    rw [nodesAt, found, Option.toList_some, nodesOn_cons, nodesOn_nil, List.append_nil]
  · rename_i spilled
    have found := (coherent.filed?_eq_some_iff restores).mpr ⟨waits, rfl, by simpa using spilled⟩
    rw [nodesAt, found, Option.toList_some, nodesOn_cons, nodesOn_nil, List.append_nil]

/-- There is nothing anywhere else. -/
theorem Coherent.nodesAt_eq_nil {spot : Spot} (outside : spot ∉ pool.spots past) :
    pool.nodesAt model spot = [] := by
  have apart : ∀ page ∈ waiting past, pool.spotOf page ≠ spot := by
    rintro page waits rfl
    exact outside (List.mem_append_right _ (List.mem_map_of_mem waits))
  cases spot with
  | expanded => exact absurd List.mem_cons_self outside
  | worker position part =>
    refine elim_getElem?_eq_nil _ fun within => outside ?_
    have mine : .worker position part ∈ Part.all.map (Spot.worker position) :=
      List.mem_map_of_mem (by cases part <;> decide)
    exact List.mem_append_left _
      (List.mem_cons_of_mem _ (List.mem_flatMap.mpr ⟨position, within, mine⟩))
  | memory id =>
    cases found : pool.shared.frontier.memory.pages[id]? with
    | none =>
      rw [nodesAt, found]
      rfl
    | some page =>
      obtain ⟨waits, rfl, inMemory⟩ := (coherent.sound.books.stocks.memory _ _).mp found
      exact absurd (if_pos inMemory) (apart page waits)
  | file id =>
    cases found : pool.shared.frontier.filed? model id pool.shared.disk with
    | none =>
      rw [nodesAt, found]
      rfl
    | some page =>
      obtain ⟨waits, rfl, spilled⟩ := (coherent.filed?_eq_some_iff restores).mp found
      exact absurd (if_neg (by simp [spilled])) (apart page waits)

/-- The places together have every node recorded, each of them once. -/
theorem Coherent.perm_nodesAt
    (distinct : ((History.nodes past).map (model.fingerprint ·.state)).Nodup)
    (begun : pool.begun.Subperm pool.shared.expanded) (refused : History.refused past = []) :
    (History.nodes past).Perm ((pool.spots past).flatMap (pool.nodesAt model)) := by
  have all := coherent.conserved.nodes
  rw [refused, nodesOn_nil, List.append_nil] at all
  have expanded : pool.shared.expanded.Perm (pool.nodesAt model .expanded ++ pool.begun) := by
    rw [(all.map _).nodup_iff, List.append_assoc, List.map_append] at distinct
    exact perm_filter_append distinct.of_append_left begun
  have waits : ((waiting past).map pool.spotOf).flatMap (pool.nodesAt model) =
      nodesOn (waiting past) := by
    rw [List.flatMap_map]
    exact List.flatMap_congr fun page waits => coherent.nodesAt_spotOf restores waits
  have staff := @perm_parts _ model pool
  rw [spots, List.cons_append, List.flatMap_cons, List.flatMap_append, waits]
  classical
  rw [List.perm_iff_count] at all expanded staff ⊢
  intro node
  have total := all node
  have earlier := expanded node
  have parts := staff node
  simp only [List.count_append] at total earlier parts ⊢
  omega

end

/-! ## Records -/

/-- The findings of the worker at a position. -/
def findingsAt (past : History σ) (pool : Pool σ) (position : Nat) : List (Finding σ) :=
  pool.workers[position]?.elim [] fun worker => findingsOf (recorded past) worker.log.worker

/-- The records in the log of a worker are those of its findings. -/
theorem Coherent.map_recordAt (coherent : Coherent model initial place past pool)
    (entry : Nat × Nat) : (pool.recordAt entry).map Record.fingerprint =
      (pool.findingsAt past entry.1)[entry.2]?.map (model.fingerprint ·.2.state) := by
  unfold recordAt findingsAt
  cases found : pool.workers[entry.1]? with
  | none => rfl
  | some worker =>
    have mine : worker.log ∈ pool.logs := List.mem_map_of_mem (List.mem_of_getElem? found)
    have contents := (coherent.logged.hold.holds _ mine).contents_eq
    simp only [Option.elim_some, contents, recordsOf, List.getElem?_map, Option.map_map]
    congr 1
    funext item
    exact fingerprint_recordOf model item

/-- The logs together have every finding, each of them once. -/
theorem Coherent.perm_findingsAt (coherent : Coherent model initial place past pool) :
    (recorded past).Perm ((List.range pool.workers.length).flatMap (pool.findingsAt past)) := by
  have all := coherent.logged.perm_findingsOf
  rw [logs, List.flatMap_map] at all
  unfold findingsAt
  rw [flatMap_range_getElem?]
  exact all

theorem findingsAt_eq_nil {position : Nat} (outside : position ∉ List.range pool.workers.length) :
    pool.findingsAt past position = [] :=
  elim_getElem?_eq_nil _ outside

/-- What has a record has the fingerprint of a node that was recorded. -/
theorem Coherent.exists_node_of_recordAt (coherent : Coherent model initial place past pool)
    {entry : Nat × Nat} (found : (pool.recordAt entry).map Record.fingerprint = some fingerprint) :
    ∃ node ∈ History.nodes past, model.fingerprint node.state = fingerprint := by
  rw [coherent.map_recordAt] at found
  obtain ⟨item, known, same⟩ :=
    exists_of_place coherent.perm_findingsAt (fun _ => findingsAt_eq_nil) found
  exact ⟨item.2, List.mem_map_of_mem known, same⟩

/-- The reference of a node says where its record is. -/
theorem Coherent.exists_entry (coherent : Coherent model initial place past pool) {node : Node σ}
    (known : node ∈ History.nodes past) :
    ∃ position index worker, pool.workers[position]? = some worker ∧
      (pool.recordAt (position, index)).map Record.fingerprint =
        some (model.fingerprint node.state) ∧
      node.uid = ⟨worker.log.worker, UInt64.ofNat (Record.width * index)⟩ := by
  obtain ⟨item, among, rfl⟩ := List.mem_map.mp known
  obtain ⟨index, found, offset⟩ := coherent.explained.recorded.exists_index item among
  obtain ⟨log, there, own⟩ := List.mem_map.mp (coherent.logged.known item among)
  obtain ⟨worker, member, rfl⟩ := List.mem_map.mp there
  obtain ⟨position, here⟩ := List.mem_iff_getElem?.mp member
  refine ⟨position, index, worker, here, ?_, ?_⟩
  · rw [coherent.map_recordAt, findingsAt, here, Option.elim_some, own, found, Option.map_some]
  · rw [own, ← offset]

/-! ## States about to be recorded -/

/-- A state that is about to be recorded has been met. -/
theorem IsRecording.exists_met {position : Nat}
    (recording : pool.IsRecording model position fingerprint) :
    ∃ state ∈ pool.workers.flatMap (·.stage.met), model.fingerprint state = fingerprint := by
  obtain ⟨worker, node, state, rest, found, stage, same⟩ := recording
  refine ⟨state, List.mem_flatMap.mpr ⟨worker, List.mem_of_getElem? found, ?_⟩, same⟩
  rw [stage]
  exact List.mem_singleton_self state

/-- A state that has been met and not recorded is about to be recorded by one worker. -/
theorem existsUnique_isRecording {state : σ}
    (distinct : ((pool.workers.flatMap (·.stage.met)).map model.fingerprint).Nodup)
    (member : state ∈ pool.workers.flatMap (·.stage.met)) :
    ∃! position, pool.IsRecording model position (model.fingerprint state) := by
  let shelf (position : Nat) : List σ := pool.workers[position]?.elim [] (·.stage.met)
  have every : (pool.workers.flatMap (·.stage.met)).Perm
      ((List.range pool.workers.length).flatMap shelf) := by
    rw [flatMap_range_getElem?]
  have one := existsUnique_place every (fun _ => elim_getElem?_eq_nil _) distinct member
  have first {position : Nat}
      (recording : pool.IsRecording model position (model.fingerprint state)) :
      (shelf position)[0]?.map model.fingerprint = some (model.fingerprint state) := by
    obtain ⟨worker, node, other, rest, found, stage, same⟩ := recording
    simp [shelf, found, stage, Stage.met, same]
  obtain ⟨worker, among, mine⟩ := List.mem_flatMap.mp member
  obtain ⟨position, found⟩ := List.mem_iff_getElem?.mp among
  have recording : pool.IsRecording model position (model.fingerprint state) := by
    cases stage : worker.stage with
    | recording node other rest =>
      rw [stage] at mine
      exact ⟨worker, node, other, rest, found, stage, by rw [List.mem_singleton.mp mine]⟩
    | _ => simp [stage, Stage.met] at mine
  refine ⟨position, recording, fun other elsewhere => ?_⟩
  have same : (other, 0) = (position, 0) := one.unique (first elsewhere) (first recording)
  exact congrArg Prod.fst same

end Pool

end Wavefront
