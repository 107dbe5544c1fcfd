/-
# Nothing is lost, and nothing is in two places

A state that is met is recorded by the worker that met it, and the node made of it is passed on
until it is expanded. `Pool.InPlace` says that nothing is lost or doubled on the way: a
fingerprint that was accepted is about to be recorded by one worker, or else there is one node
with it, in one place, and one record of it, where the node says. It follows at any moment from
what every step preserves, as long as no page was refused and nobody has broken down.
-/

import Wavefront.Proofs.Pool.Assertions
import Wavefront.Proofs.Pool.Coverage
import Wavefront.Proofs.Pool.Places

namespace Wavefront

open History Trace

variable {σ : Type}

/-! ## Workers -/

namespace Stage

theorem begun_ending (node : Option (Node σ)) (stop : Stop) :
    (ending node stop).begun.Sublist node.toList := by
  cases stop with
  | failure cause => exact List.Sublist.refl _
  | fault fault => exact List.nil_sublist _

end Stage

namespace Worker

variable {model : Model σ} {worker next : Worker σ} {shared after : Shared σ} {events : History σ}
  {page : Page σ} {node child : Node σ} {rest : List σ}

theorem Stowed.begun (stowed : Stowed worker page node child rest next) :
    next.stage.begun.Sublist [node] := by
  cases stowed with
  | bursts => exact List.nil_sublist _
  | fills | holds => exact List.Sublist.refl _

/-- A worker has begun with a node that was added to those expanded, or it goes on with the one it
has begun with. -/
theorem Turn.begun (turn : Turn model worker shared next after events) :
    ∃ fresh, after.expanded = fresh ++ shared.expanded ∧
      next.stage.begun.Sublist (fresh ++ worker.stage.begun) := by
  have goes {later : Stage σ} (node : Node σ) (before : worker.stage.begun = [node])
      (now : later.begun.Sublist [node]) :
      ∃ fresh, shared.expanded = fresh ++ shared.expanded ∧
        later.begun.Sublist (fresh ++ worker.stage.begun) :=
    ⟨[], rfl, by rwa [before]⟩
  cases turn with
  | rests => exact ⟨[], rfl, List.Sublist.refl _⟩
  | heeds | idles | picks | concludes | sinks | flushes | reports | latches | unwinds =>
    exact ⟨[], rfl, List.nil_sublist _⟩
  | @accesses wait after events stage turn =>
    refine ⟨[], rfl, ?_⟩
    rcases after with ⟨progress, held, frontier, disk⟩
    cases progress with
    | waiting | delivered | finished => exact List.nil_sublist _
    | stopped stop =>
      exact (Stage.begun_ending none stop).trans (List.nil_sublist _)
  | @fails node stop =>
    exact ⟨[node], rfl,
      (Stage.begun_ending (some node) stop).trans (List.sublist_append_left _ _)⟩
  | @overflows node => exact ⟨[node], rfl, List.nil_sublist _⟩
  | @expands node => exact ⟨[node], rfl, List.sublist_append_left _ _⟩
  | meets stage | skips stage | publishes stage =>
    exact goes _ (by rw [stage]; rfl) (List.Sublist.refl _)
  | records stage room placed =>
    cases placed with
    | keeps | seeks => exact goes _ (by rw [stage]; rfl) (List.Sublist.refl _)
    | stows holding stowed => exact goes _ (by rw [stage]; rfl) stowed.begun
  | claims stage stowed => exact goes _ (by rw [stage]; rfl) stowed.begun
  | strands stage => exact goes _ (by rw [stage]; rfl) (Stage.begun_ending _ _)

/-- Whoever records a state that lies too deep breaks down. -/
theorem Turn.of_deep {state : σ} (turn : Turn model worker shared next after events)
    (recording : worker.stage = .recording node state rest) (deep : node.level = levelMax) :
    next.stage.fault? ≠ none := by
  cases turn with
  | sinks => exact Option.some_ne_none _
  | records stage room =>
    obtain ⟨rfl, -, -⟩ := Stage.recording.inj (recording.symm.trans stage)
    exact absurd deep room
  | rests final => simp [recording, Stage.isFinal] at final
  | heeds stage | idles stage | picks stage | accesses stage | fails stage | overflows stage
    | expands stage | concludes stage | meets stage | skips stage | claims stage
    | publishes stage | strands stage | flushes stage | reports stage | latches stage
    | unwinds stage => cases recording.symm.trans stage

/-- Whoever breaks down does not recover. -/
theorem Turn.fault?_ne_none (turn : Turn model worker shared next after events)
    (breaks : worker.stage.fault? ≠ none) : next.stage.fault? ≠ none := by
  cases turn with
  | rests => exact breaks
  | unwinds => exact Option.some_ne_none _
  | heeds stage | idles stage | picks stage | accesses stage | fails stage | overflows stage
    | expands stage | concludes stage | meets stage | skips stage | sinks stage | records stage
    | claims stage | publishes stage | strands stage | flushes stage | reports stage
    | latches stage =>
    rw [stage] at breaks
    exact absurd rfl breaks

end Worker

/-! ## Pools -/

namespace Pool

variable {model : Model σ} {initial : List σ} {place : Location} {past events : History σ}
  {pool : Pool σ} {position : Nat} {worker next : Worker σ} {shared : Shared σ}
  {known : List Fingerprint} {fingerprint : Fingerprint}

/-- One node has a fingerprint, and it is in one place; one record has the fingerprint; and the
reference of the node says where the record is. -/
structure Keeps (model : Model σ) (pool : Pool σ) (fingerprint : Fingerprint) : Prop where
  node : ∃! place, pool.printAt model place = some fingerprint
  record : ∃! entry, (pool.recordAt entry).map Record.fingerprint = some fingerprint
  refers : ∀ (place : Spot × Nat) (entry : Nat × Nat) (node : Node σ) (worker : Worker σ),
    (pool.nodesAt model place.1)[place.2]? = some node →
    model.fingerprint node.state = fingerprint → pool.workers[entry.1]? = some worker →
    (pool.recordAt entry).map Record.fingerprint = some fingerprint →
    node.uid = ⟨worker.log.worker, UInt64.ofNat (Record.width * entry.2)⟩

/-- Everything is in its place. -/
structure InPlace (model : Model σ) (known : Seen) (pool : Pool σ) : Prop where
  /-- A fingerprint that was accepted is kept, or else it has neither a node nor a record, and one
  worker is about to record it. -/
  accepted : ∀ fingerprint, pool.shared.seen.contains fingerprint = true →
    known.contains fingerprint = false →
    (pool.Keeps model fingerprint ∧ ∀ position, ¬ pool.IsRecording model position fingerprint) ∨
    ((∃! position, pool.IsRecording model position fingerprint) ∧
      (∀ place, pool.printAt model place ≠ some fingerprint) ∧
      ∀ entry, (pool.recordAt entry).map Record.fingerprint ≠ some fingerprint)
  /-- Nothing else has a node or a record, or is about to be recorded. -/
  only : ∀ fingerprint,
    (∃ place, pool.printAt model place = some fingerprint) ∨
    (∃ entry, (pool.recordAt entry).map Record.fingerprint = some fingerprint) ∨
    (∃ position, pool.IsRecording model position fingerprint) →
    pool.shared.seen.contains fingerprint = true ∧ known.contains fingerprint = false
  /-- What a worker has put into its backlog and not taken out is what is there. -/
  even : ∀ worker ∈ pool.workers,
    worker.processed ≤ worker.accepted ∧ worker.unexplored = worker.backlog.size

/-! ## Steps -/

/-- The nodes that workers have begun to expand are among those expanded, each of them once. -/
theorem begun_step (found : pool.workers[position]? = some worker)
    (turn : worker.Turn model pool.shared next shared events)
    (begun : pool.begun.Subperm pool.shared.expanded) :
    (Pool.begun ⟨pool.workers.set position next, shared⟩).Subperm shared.expanded := by
  obtain ⟨fresh, grown, goes⟩ := turn.begun
  have before := flatMap_perm_others (fun worker => worker.stage.begun) found
  have now := @flatMap_set_perm_others _ _ _ _ _ next (fun worker => worker.stage.begun) found
  let others := (pool.workers.eraseIdx position).flatMap (·.stage.begun)
  have mine : (next.stage.begun ++ others).Subperm (fresh ++ (worker.stage.begun ++ others)) := by
    rw [← List.append_assoc]
    exact goes.subperm.append (List.Subperm.refl _)
  have all : (fresh ++ (worker.stage.begun ++ others)).Subperm (fresh ++ pool.shared.expanded) :=
    (List.subperm_append_left fresh).mpr (before.symm.subperm.trans begun)
  rw [grown]
  exact now.subperm.trans (mine.trans all)

/-- What the places of nodes follow from, at any moment. -/
structure Guarded (model : Model σ) (initial : List σ) (place : Location)
    (known : List Fingerprint) (past : History σ) (pool : Pool σ) : Prop where
  coherent : Coherent model initial place past pool
  even : ∀ worker ∈ pool.workers, worker.Even
  begun : pool.begun.Subperm pool.shared.expanded
  /-- A state that is lost between meeting and recording it has broken its worker down. -/
  lists : (∃ worker ∈ pool.workers, worker.stage.fault? ≠ none) ∨
    pool.shared.seen.Lists (pool.prints model past ++ known)

theorem Guarded.step (faithful : ∀ state, model.Reachable initial state → model.Faithful state)
    (found : pool.workers[position]? = some worker)
    (turn : worker.Turn model pool.shared next shared events)
    (guarded : Guarded model initial place known past pool) :
    Guarded model initial place known (past ++ events)
      ⟨pool.workers.set position next, shared⟩ where
  coherent := guarded.coherent.step faithful found turn
  even := forall_mem_set guarded.even (turn.even (guarded.even worker (List.mem_of_getElem? found)))
  begun := begun_step found turn guarded.begun
  lists := by
    rcases guarded.lists with ⟨other, among, breaks⟩ | lists
    · rcases mem_set_of_mem found among with rfl | still
      · exact .inl ⟨next, mem_set_self found, turn.fault?_ne_none breaks⟩
      · exact .inl ⟨other, still, breaks⟩
    · rcases lists_step_of_lists found turn lists with ⟨_, _, _, recording, deep⟩ | still
      · exact .inl ⟨next, mem_set_self found, turn.of_deep recording deep⟩
      · exact .inr still

/-! ## What follows -/

namespace Guarded

variable (guarded : Guarded model initial place known past pool)
  (restores : ∀ node ∈ History.nodes past, model.Restores node.state)
  (refused : History.refused past = [])
  (whole : ∀ worker ∈ pool.workers, worker.stage.fault? = none)

include guarded whole in
theorem lists_of_whole : pool.shared.seen.Lists (pool.prints model past ++ known) :=
  guarded.lists.resolve_left fun ⟨worker, member, breaks⟩ => breaks (whole worker member)

include guarded whole in
/-- No two nodes have a fingerprint in common, nor do two states about to be recorded, or one of
each. -/
theorem nodup_prints : ((History.nodes past).map (model.fingerprint ·.state)).Nodup ∧
    ((pool.workers.flatMap (·.stage.met)).map model.fingerprint).Nodup ∧
    ∀ node ∈ History.nodes past, ∀ state ∈ pool.workers.flatMap (·.stage.met),
      model.fingerprint node.state ≠ model.fingerprint state := by
  have distinct := (guarded.lists_of_whole whole).nodup.of_append_left
  rw [prints, List.map_append, List.map_map] at distinct
  obtain ⟨nodes, states, apart⟩ := List.nodup_append.mp distinct
  exact ⟨nodes, states, fun node member state met =>
    apart _ (List.mem_map_of_mem member) _ (List.mem_map_of_mem met)⟩

include guarded whole in
/-- The fingerprints of nodes and of states about to be recorded are those accepted. -/
theorem mem_prints_iff {before : Seen} (listed : before.Lists known) :
    fingerprint ∈ pool.prints model past ↔
      pool.shared.seen.contains fingerprint = true ∧ before.contains fingerprint = false := by
  have lists := guarded.lists_of_whole whole
  rw [lists.contains, List.mem_append, ← Bool.not_eq_true, listed.contains]
  constructor
  · intro among
    exact ⟨.inl among, fun old => (List.nodup_append.mp lists.nodup).2.2 _ among _ old rfl⟩
  · rintro ⟨met, new⟩
    exact met.resolve_right new

include guarded whole restores refused in
/-- The node of a fingerprint is in one place, and its record is where the node says. -/
theorem keeps {node : Node σ} (member : node ∈ History.nodes past) :
    pool.Keeps model (model.fingerprint node.state) := by
  have coherent := guarded.coherent
  have distinct := (guarded.nodup_prints whole).1
  have every := coherent.perm_nodesAt restores distinct guarded.begun refused
  have record : ∃! entry, (pool.recordAt entry).map Record.fingerprint =
      some (model.fingerprint node.state) := by
    obtain ⟨item, among, rfl⟩ := List.mem_map.mp member
    simp only [coherent.map_recordAt]
    refine existsUnique_place coherent.perm_findingsAt (fun _ => findingsAt_eq_nil) ?_ among
    rwa [History.nodes, List.map_map] at distinct
  -- The reference of a node leads to some record of its fingerprint, and there is only one.
  refine ⟨?_, record, fun spot entry other worker there same found recorded => ?_⟩
  · exact existsUnique_place every (fun _ => coherent.nodesAt_eq_nil restores) distinct member
  · have known := shelf_subset every (fun _ => coherent.nodesAt_eq_nil restores) _
      (List.mem_of_getElem? there)
    obtain ⟨position, index, owner, here, mine, uid⟩ := coherent.exists_entry known
    rw [same] at mine
    obtain rfl := record.unique recorded mine
    obtain rfl := Option.some.inj (found.symm.trans here)
    exact uid

include guarded whole restores refused in
/-- Everything is in its place, unless a page was refused or somebody has broken down. -/
theorem inPlace {before : Seen} (listed : before.Lists known) : pool.InPlace model before := by
  have coherent := guarded.coherent
  obtain ⟨distinct, once, apart⟩ := guarded.nodup_prints whole
  have every := coherent.perm_nodesAt restores distinct guarded.begun refused
  have anywhere {fingerprint : Fingerprint} {spot : Spot × Nat}
      (there : pool.printAt model spot = some fingerprint) :
      ∃ node ∈ History.nodes past, model.fingerprint node.state = fingerprint :=
    exists_of_place every (fun _ => coherent.nodesAt_eq_nil restores) there
  refine ⟨fun fingerprint met new => ?_, fun fingerprint somewhere => ?_, fun worker member => ?_⟩
  · have among := (guarded.mem_prints_iff whole listed).mpr ⟨met, new⟩
    rw [prints, List.map_append, List.map_map] at among
    rcases List.mem_append.mp among with settled | pending
    · obtain ⟨node, member, rfl⟩ := List.mem_map.mp settled
      refine .inl ⟨guarded.keeps restores refused whole member, fun position recording => ?_⟩
      obtain ⟨state, awaits, same⟩ := recording.exists_met
      exact apart node member state awaits same.symm
    · obtain ⟨state, awaits, rfl⟩ := List.mem_map.mp pending
      refine .inr ⟨existsUnique_isRecording once awaits, fun spot there => ?_,
        fun entry there => ?_⟩
      · obtain ⟨node, member, same⟩ := anywhere there
        exact apart node member state awaits same
      · obtain ⟨node, member, same⟩ := coherent.exists_node_of_recordAt there
        exact apart node member state awaits same
  · apply (guarded.mem_prints_iff whole listed).mp
    rw [prints, List.map_append, List.map_map, List.mem_append]
    rcases somewhere with ⟨spot, there⟩ | ⟨entry, there⟩ | ⟨position, recording⟩
    · obtain ⟨node, member, rfl⟩ := anywhere there
      exact .inl (List.mem_map_of_mem member)
    · obtain ⟨node, member, rfl⟩ := coherent.exists_node_of_recordAt there
      exact .inl (List.mem_map_of_mem member)
    · obtain ⟨state, awaits, rfl⟩ := recording.exists_met
      exact .inr (List.mem_map_of_mem awaits)
  · have even := guarded.even worker member
    refine ⟨?_, by rw [even.unexplored, Fifo.size_eq_length]⟩
    rw [even]
    exact Nat.le_add_right _ _

end Guarded

end Pool

end Wavefront
