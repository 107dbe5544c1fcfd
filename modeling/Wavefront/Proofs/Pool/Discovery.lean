/-
# What the workers of a pool discover

A worker goes through the successors of a node in their order. `Stage.Sifts` says how far it
has come: the successors before the one at hand have been met, so a successor that is new
has no one before it with the same fingerprint. Therefore every node that is recorded
obeys the rules of `Trace.Recorded`, whoever records what in between and however many
states share a fingerprint.
-/

import Wavefront.Proofs.Pool.Conservation
import Wavefront.Proofs.Pool.Exhaustion
import Wavefront.Proofs.Pool.Logbook

namespace Wavefront

open History Trace

variable {σ : Type}

namespace Seen

variable {seen : Seen} {fingerprint added : Fingerprint}

theorem contains_insert_of_contains (known : seen.contains fingerprint = true) :
    (seen.insert added).contains fingerprint = true := by
  simp [known]

end Seen

/-- A state with a fingerprint that no one before it has is the first with its fingerprint. -/
theorem Model.find?_of_apart {model : Model σ} {done rest : List σ} {state : σ}
    (apart : ∀ earlier ∈ done, model.fingerprint earlier ≠ model.fingerprint state) :
    (done ++ state :: rest).find? (model.fingerprint · == model.fingerprint state) =
      some state := by
  rw [List.find?_append, List.find?_eq_none.mpr, Option.none_or]
  · simp
  · intro earlier member
    simpa using apart earlier member

/-! ## Workers -/

/-- The expansion of a node has come past some of its successors, and they have all been met. -/
structure Sifting (model : Model σ) (shared : Shared σ) (node : Node σ) (done rest : List σ) :
    Prop where
  begun : node ∈ shared.expanded
  computed : model.successors node.state = .ok (done ++ rest)
  met : ∀ state ∈ done, shared.seen.contains (model.fingerprint state) = true

namespace Sifting

variable {model : Model σ} {shared after : Shared σ} {node : Node σ} {done rest : List σ}
  {state : σ}

theorem mono (sifting : Sifting model shared node done rest)
    (expanded : shared.expanded ⊆ after.expanded)
    (seen : ∀ fingerprint, shared.seen.contains fingerprint = true →
      after.seen.contains fingerprint = true) : Sifting model after node done rest where
  begun := expanded sifting.begun
  computed := sifting.computed
  met state member := seen _ (sifting.met state member)

theorem pass (sifting : Sifting model shared node done (state :: rest))
    (met : shared.seen.contains (model.fingerprint state) = true) :
    Sifting model shared node (done ++ [state]) rest where
  begun := sifting.begun
  computed := by
    rw [sifting.computed, List.append_assoc]
    rfl
  met other member := by
    rcases List.mem_append.mp member with earlier | this
    · exact sifting.met other earlier
    · rw [List.mem_singleton.mp this]
      exact met

end Sifting

/-- How far the expansion at hand has come. -/
def Stage.Sifts (model : Model σ) (shared : Shared σ) : Stage σ → Prop
  | sifting node rest => ∃ done, Sifting model shared node done rest
  | recording node state rest =>
      shared.seen.contains (model.fingerprint state) = true ∧
        ∃ done, Sifting model shared node done (state :: rest) ∧
          ∀ earlier ∈ done, model.fingerprint earlier ≠ model.fingerprint state
  | claiming node _ rest => ∃ done, Sifting model shared node done rest
  | publishing node _ rest => ∃ done, Sifting model shared node done rest
  | _ => True

namespace Stage

variable {model : Model σ} {shared after : Shared σ} {stage : Stage σ}

theorem Sifts.mono (sifts : stage.Sifts model shared) (expanded : shared.expanded ⊆ after.expanded)
    (seen : ∀ fingerprint, shared.seen.contains fingerprint = true →
      after.seen.contains fingerprint = true) : stage.Sifts model after := by
  cases stage with
  | sifting | claiming | publishing =>
    obtain ⟨done, sifting⟩ := sifts
    exact ⟨done, sifting.mono expanded seen⟩
  | recording node state rest =>
    obtain ⟨met, done, sifting, apart⟩ := sifts
    exact ⟨seen _ met, done, sifting.mono expanded seen, apart⟩
  | polling | waiting | expanding | flushing | reporting | latching | unwinding | stopped
    | broken => exact sifts

theorem sifts_ending (node : Option (Node σ)) (stop : Stop) :
    (ending node stop).Sifts model shared := by
  cases stop <;> exact trivial

end Stage

namespace Worker

variable {model : Model σ} {worker next : Worker σ} {shared after : Shared σ} {events : History σ}

/-- Nothing that was expanded or met is forgotten. -/
theorem Turn.grows (turn : Turn model worker shared next after events) :
    shared.expanded ⊆ after.expanded ∧ ∀ fingerprint, shared.seen.contains fingerprint = true →
      after.seen.contains fingerprint = true := by
  cases turn with
  | fails | overflows | expands => exact ⟨List.subset_cons_self _ _, fun _ known => known⟩
  | meets | skips =>
    exact ⟨List.Subset.refl _, fun _ known => Seen.contains_insert_of_contains known⟩
  | rests | heeds | idles | picks | accesses | concludes | sinks | records | claims | publishes
    | strands | flushes | reports | latches | unwinds =>
    exact ⟨List.Subset.refl _, fun _ known => known⟩

theorem Stowed.sifts {page : Page σ} {node child : Node σ} {rest done : List σ}
    (stowed : Stowed worker page node child rest next)
    (sifting : Sifting model shared node done rest) :
    next.stage.Sifts model shared := by
  cases stowed with
  | bursts => exact trivial
  | fills | holds => exact ⟨done, sifting⟩

theorem Turn.sifts (turn : Turn model worker shared next after events)
    (sifts : worker.stage.Sifts model shared) : next.stage.Sifts model after := by
  obtain ⟨expanded, seen⟩ := turn.grows
  cases turn with
  | rests => exact sifts
  | heeds | idles | picks | overflows | concludes | sinks | flushes | reports | latches | unwinds =>
    exact trivial
  | fails | strands => exact Stage.sifts_ending _ _
  | @accesses wait after events stage turn =>
    rcases after with ⟨progress, held, frontier, disk⟩
    cases progress with
    | waiting | delivered | finished => exact trivial
    | stopped stop => exact Stage.sifts_ending _ _
  | @expands node states _ stage computed =>
    exact ⟨[], List.mem_cons_self, computed, by simp⟩
  | @meets node state rest stage new =>
    rw [stage] at sifts
    obtain ⟨done, sifting⟩ := sifts
    refine ⟨by simp, done, sifting.mono expanded seen, fun earlier member same => ?_⟩
    have known := sifting.met earlier member
    rw [same, new] at known
    cases known
  | skips stage known =>
    rw [stage] at sifts
    obtain ⟨done, sifting⟩ := sifts
    exact ⟨_, (sifting.mono expanded seen).pass (by simp)⟩
  | records stage room placed =>
    rw [stage] at sifts
    obtain ⟨met, done, sifting, -⟩ := sifts
    have passed := sifting.pass met
    cases placed with
    | keeps | seeks => exact ⟨_, passed⟩
    | stows holding stowed => exact stowed.sifts passed
  | claims stage stowed =>
    rw [stage] at sifts
    obtain ⟨done, sifting⟩ := sifts
    exact stowed.sifts (sifting.mono expanded seen)
  | publishes stage =>
    rw [stage] at sifts
    obtain ⟨done, sifting⟩ := sifts
    exact ⟨done, sifting.mono expanded seen⟩

/-- A step records at most one node, by the rules, and at the end of the worker's log. -/
theorem Turn.recorded (initial : List σ) (turn : Turn model worker shared next after events)
    (sifts : worker.stage.Sifts model shared) :
    History.recorded events = [] ∨ ∃ parent node, History.recorded events = [(some parent, node)] ∧
      parent ∈ shared.expanded ∧ Founded model initial (some parent, node) ∧
      node.uid = ⟨worker.log.worker, UInt64.ofNat worker.log.size⟩ := by
  cases turn with
  | @records node state rest _ stage room placed =>
    rw [stage] at sifts
    obtain ⟨met, done, sifting, apart⟩ := sifts
    exact .inr ⟨node, worker.discovery model node state, rfl, sifting.begun,
      .step rfl room sifting.computed (Model.find?_of_apart apart), rfl⟩
  | accesses stage turn => exact .inl (by cases turn <;> rfl)
  | rests | heeds | idles | picks | fails | overflows | expands | concludes | meets | skips | sinks
    | claims | publishes | strands | flushes | reports | latches | unwinds => exact .inl rfl

end Worker

/-! ## Pools -/

namespace Pool

variable {model : Model σ} {initial : List σ} {place : Location} {past events : History σ}
  {pool : Pool σ} {position : Nat} {worker next : Worker σ} {shared : Shared σ}

/-- What was recorded obeys the rules, and so will what is recorded next. -/
structure Explained (model : Model σ) (initial : List σ) (past : History σ) (pool : Pool σ) :
    Prop where
  recorded : Recorded model initial (recorded past)
  sifts : ∀ worker ∈ pool.workers, worker.stage.Sifts model pool.shared

theorem Explained.step (found : pool.workers[position]? = some worker)
    (turn : worker.Turn model pool.shared next shared events) (conserved : Conserved past pool)
    (logged : Logged model (History.recorded past) pool.logs pool.shared.disk)
    (explained : Explained model initial past pool) :
    Explained model initial (past ++ events) ⟨pool.workers.set position next, shared⟩ := by
  have member := List.mem_of_getElem? found
  have sifts := explained.sifts worker member
  refine ⟨?_, forall_mem_set (fun other old => ?_) (turn.sifts sifts)⟩
  · rw [recorded_append]
    rcases turn.recorded initial sifts with none | ⟨parent, node, one, begun, founded, uid⟩
    · rw [none, List.append_nil]
      exact explained.recorded
    · rw [one]
      refine explained.recorded.snoc founded ?_ ?_
      · intro origin same
        obtain rfl := Option.some.inj same
        exact conserved.expanded_subset begun
      · rw [uid, logged.size_eq (List.mem_map_of_mem member)]
  · exact (explained.sifts other old).mono turn.grows.1 turn.grows.2

/-- The books, the nodes and the logs of a pool are in order, and so is what was recorded. -/
structure Consistent (model : Model σ) (initial : List σ) (place : Location) (past : History σ)
    (pool : Pool σ) : Prop where
  sound : Sound model place past pool
  conserved : Conserved past pool
  logged : Logged model (recorded past) pool.logs pool.shared.disk
  explained : Explained model initial past pool

/-- Everything that is known of a pool in the midst of a run. -/
structure Coherent (model : Model σ) (initial : List σ) (place : Location) (past : History σ)
    (pool : Pool σ) : Prop extends Consistent model initial place past pool where
  watched : Watched past pool

theorem Consistent.reachable (consistent : Consistent model initial place past pool) :
    ∀ node ∈ History.nodes past, model.Reachable initial node.state := by
  intro node member
  obtain ⟨item, among, rfl⟩ := List.mem_map.mp member
  exact consistent.explained.recorded.reachable item among

/-- A node whose successors are being recorded was recorded before. -/
theorem Consistent.mem_nodes_of_recording {node : Node σ} {state : σ} {rest : List σ}
    (consistent : Consistent model initial place past pool) (member : worker ∈ pool.workers)
    (stage : worker.stage = .recording node state rest) : node ∈ History.nodes past := by
  have sifts := consistent.explained.sifts worker member
  rw [stage] at sifts
  obtain ⟨-, done, sifting, -⟩ := sifts
  exact consistent.conserved.expanded_subset sifting.begun

theorem Consistent.step
    (faithful : ∀ state, model.Reachable initial state → model.Faithful state)
    (found : pool.workers[position]? = some worker)
    (turn : worker.Turn model pool.shared next shared events)
    (consistent : Consistent model initial place past pool) :
    Consistent model initial place (past ++ events)
      ⟨pool.workers.set position next, shared⟩ where
  sound := consistent.sound.step found turn
  conserved := consistent.conserved.step found turn consistent.sound
    fun node member => faithful _ (consistent.reachable node member)
  logged := logged_step found turn consistent.sound consistent.logged
  explained := consistent.explained.step found turn consistent.conserved consistent.logged

theorem Coherent.step
    (faithful : ∀ state, model.Reachable initial state → model.Faithful state)
    (found : pool.workers[position]? = some worker)
    (turn : worker.Turn model pool.shared next shared events)
    (coherent : Coherent model initial place past pool) :
    Coherent model initial place (past ++ events) ⟨pool.workers.set position next, shared⟩ :=
  ⟨coherent.toConsistent.step faithful found turn,
    coherent.watched.step found turn coherent.sound⟩

end Pool

end Wavefront
