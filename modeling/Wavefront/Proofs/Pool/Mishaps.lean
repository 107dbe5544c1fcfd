/-
# Pools amid mishaps

A mishap is a step like any other as far as the books, the nodes and the logs are concerned: they
are kept along every schedule, whatever comes in the way of its steps. So is the reason why workers
leave, and none of them breaks down for a mishap.

Who was about to leave in good order may now leave with a report, so that a pool in which nothing
is left to do need not stay as it is. What is needed of a worker that finds the frontier exhausted,
that it holds no page, follows from counting alone.
-/

import Wavefront.Proofs.Pool.Assertions
import Wavefront.Proofs.Pool.Blame
import Wavefront.Proofs.Worker.Mishaps

namespace Wavefront

open History Trace

variable {σ : Type}

namespace Pool

/-! ## Schedules -/

/-- The events of the steps that workers make along a schedule that says which mishaps come in
their way. -/
def eventsAmid (model : Model σ) :
    (schedule : List (Nat × Option Mishap)) → Pool σ → History σ
  | [], _ => []
  | turn :: rest, pool =>
      (match pool.workers[turn.1]? with
        | none => []
        | some worker => worker.eventsAmid model turn.2 pool.shared) ++
        eventsAmid model rest (pool.stepAmid model turn)

variable {model : Model σ}

/-- What every step and every mishap of every worker preserves is preserved along every schedule. -/
theorem followAmid_induction (invariant : History σ → Pool σ → Prop)
    (turns : ∀ {past : History σ} {pool : Pool σ} {position : Nat} {worker next : Worker σ}
      {shared : Shared σ} {events : History σ}, pool.workers[position]? = some worker →
      worker.Turn model pool.shared next shared events → invariant past pool →
      invariant (past ++ events) ⟨pool.workers.set position next, shared⟩)
    (mishaps : ∀ {past : History σ} {pool : Pool σ} {position : Nat} {worker next : Worker σ}
      {shared : Shared σ} {events : History σ}, pool.workers[position]? = some worker →
      worker.Failing model pool.shared next shared events → invariant past pool →
      invariant (past ++ events) ⟨pool.workers.set position next, shared⟩)
    {past : History σ} {pool : Pool σ} (start : invariant past pool)
    (schedule : List (Nat × Option Mishap)) :
    invariant (past ++ pool.eventsAmid model schedule) (pool.followAmid model schedule) := by
  induction schedule generalizing past pool with
  | nil => simpa [eventsAmid, followAmid] using start
  | cons turn rest ih =>
    rw [eventsAmid, ← List.append_assoc]
    apply ih
    rcases found : pool.workers[turn.1]? with _ | worker
    · simpa [stepAmid, found] using start
    · simp only [stepAmid, found]
      rcases worker.turn_or_failing model turn.2 pool.shared with turned | failing
      · exact turns found turned start
      · exact mishaps found failing start

/-! ## Mishaps -/

variable {initial : List σ} {place : Location} {past events : History σ} {pool : Pool σ}
  {position : Nat} {worker next : Worker σ} {shared : Shared σ}

theorem Sound.of_failing (found : pool.workers[position]? = some worker)
    (failing : worker.Failing model pool.shared next shared events)
    (sound : Sound model place past pool) :
    Sound model place (past ++ events) ⟨pool.workers.set position next, shared⟩ := by
  refine sound.set found (failing.balanced (sound.split found)).1 failing.orderly ?_
  obtain ⟨⟨_, _, rfl⟩, -⟩ := failing.eq
  rfl

theorem Heeded.of_failing (found : pool.workers[position]? = some worker)
    (failing : worker.Failing model pool.shared next shared events) (heeded : Heeded pool) :
    Heeded ⟨pool.workers.set position next, shared⟩ := by
  obtain ⟨node, cause, stage, -⟩ := failing.stage_eq
  have calm := failing.ne_latching
  obtain ⟨-, disk, rfl⟩ := failing.eq
  constructor
  · exact forall_mem_set heeded.ended (by simp [stage])
  · exact forall_mem_set heeded.latching (by simp [stage])
  · exact forall_mem_set heeded.leaving (by simp [stage, Worker.IsLeaving])
  · intro reported
    rcases heeded.latched reported with ended | ⟨other, old, latching⟩
    · exact .inl ended
    · rcases mem_set_of_mem found old with rfl | still
      · exact absurd latching calm
      · exact .inr ⟨other, still, latching⟩

theorem Conserved.of_failing (found : pool.workers[position]? = some worker)
    (failing : worker.Failing model pool.shared next shared events)
    (conserved : Conserved past pool) :
    Conserved (past ++ events) ⟨pool.workers.set position next, shared⟩ := by
  have provided := failing.provided (conserved.provided worker (List.mem_of_getElem? found))
  have moved := failing.nodes_perm
  have causes := failing.causes
  obtain ⟨noneEnqueued, noneDelivered, -⟩ := failing.quiet
  obtain ⟨-, disk, rfl⟩ := failing.eq
  refine @Conserved.set _ _ _ _ _ _ _ _ [] conserved found rfl provided rfl moved ?_ causes
  rw [waiting_append_of_nil noneEnqueued (by rw [answered, noneDelivered]; rfl), noneEnqueued,
    noneDelivered]
  simp

theorem Explained.of_failing
    (failing : worker.Failing model pool.shared next shared events)
    (explained : Explained model initial past pool) :
    Explained model initial (past ++ events) ⟨pool.workers.set position next, shared⟩ := by
  obtain ⟨node, cause, stage, -⟩ := failing.stage_eq
  obtain ⟨-, -, noneRecorded⟩ := failing.quiet
  obtain ⟨-, disk, rfl⟩ := failing.eq
  refine ⟨?_, forall_mem_set (fun other old => ?_) (by rw [stage]; trivial)⟩
  · rw [recorded_append, noneRecorded, List.append_nil]
    exact explained.recorded
  · exact (explained.sifts other old).mono (List.Subset.refl _) fun _ known => known

theorem Consistent.of_failing (found : pool.workers[position]? = some worker)
    (failing : worker.Failing model pool.shared next shared events)
    (consistent : Consistent model initial place past pool) :
    Consistent model initial place (past ++ events)
      ⟨pool.workers.set position next, shared⟩ where
  sound := consistent.sound.of_failing found failing
  conserved := consistent.conserved.of_failing found failing
  logged := logged_set found (failing.logging (consistent.sound.split found)) consistent.sound
    consistent.logged
  explained := consistent.explained.of_failing failing

theorem Tallied.of_failing (found : pool.workers[position]? = some worker)
    (failing : worker.Failing model pool.shared next shared events)
    (tallied : Tallied model pool) :
    Tallied model ⟨pool.workers.set position next, shared⟩ := by
  obtain ⟨⟨maxLevel, stage, rfl⟩, disk, rfl⟩ := failing.eq
  constructor
  · rw [sum_map_set_others (·.generated) found]
    exact sum_map_others (·.generated) found ▸ tallied.generated
  · rcases tallied.observed with many | ⟨consistent, observed⟩
    · exact .inl many
    · refine .inr ⟨forall_mem_set consistent (consistent worker (List.mem_of_getElem? found)), ?_⟩
      rw [sum_map_set_others (·.outDegree.observations) found]
      exact sum_map_others (·.outDegree.observations) found ▸ observed

theorem Steady.of_failing (found : pool.workers[position]? = some worker)
    (failing : worker.Failing model pool.shared next shared events)
    (steady : Steady model past pool) :
    Steady model (past ++ events) ⟨pool.workers.set position next, shared⟩ := by
  obtain ⟨node, cause, stage, -⟩ := failing.stage_eq
  have even : next.Even := by
    obtain ⟨⟨_, _, rfl⟩, -⟩ := failing.eq
    exact (steady.even worker (List.mem_of_getElem? found)).of_eq rfl rfl rfl
  obtain ⟨-, disk, rfl⟩ := failing.eq
  refine ⟨?_, forall_mem_set steady.even even, forall_mem_set steady.patient (by simp [stage])⟩
  rcases steady.whole with (⟨node, member, deep⟩ | many) | whole
  · exact .inl (.inl ⟨node, by simp [member], deep⟩)
  · exact .inl (.inr many)
  · exact .inr (forall_mem_set whole (by simp [stage]))

/-! ## Counting -/

/-- Whoever forwent a ticket has left, and a value of `tail` that was read is the number of a ticket
that was drawn. -/
structure Counted (past : History σ) (pool : Pool σ) : Prop where
  crew : pool.workers.length = pool.shared.frontier.workers
  left : (forgone past).length ≤ (pool.workers.map (·.stage.isOver.toNat)).sum
  read : ∀ worker ∈ pool.workers, ∀ {ticket retries last},
    worker.stage = .waiting (.rereadHead ticket retries (.ticket last)) →
      last ≤ (drawn past).length

/-- If the last ticket exceeds the last page number by the number of workers, then nobody has a
page: the tickets that were not answered belong to different workers. -/
theorem Counted.held_eq_none (counted : Counted past pool) (sound : Sound model place past pool)
    (found : pool.workers[position]? = some worker) {ticket retries last : Nat}
    (stage : worker.stage = .waiting (.rereadHead ticket retries (.ticket last)))
    (full : last = pool.shared.frontier.head + pool.shared.frontier.workers) :
    worker.held = none := by
  have member := List.mem_of_getElem? found
  have drawn := counted.read worker member stage
  have tickets := sound.books.length_tickets
  have crew := counted.crew
  have left := counted.left
  have each := length_tickets_add pool.workers
  have outstanding : pool.tickets.length = (pool.workers.flatMap Worker.tickets).length := rfl
  obtain ⟨noHands, -⟩ := sound.books.spent (by omega)
  have empty : worker.pages = [] := List.flatMap_eq_nil_iff.mp noHands worker member
  rw [Worker.pages, List.append_eq_nil_iff] at empty
  simpa using empty.1

theorem Counted.step (found : pool.workers[position]? = some worker)
    (turn : worker.Turn model pool.shared next shared events) (sound : Sound model place past pool)
    (counted : Counted past pool) :
    Counted (past ++ events) ⟨pool.workers.set position next, shared⟩ := by
  obtain ⟨_, _, _, same, -⟩ := turn.frontier_eq
  constructor
  · rw [List.length_set, same]
    exact counted.crew
  · have before := sum_map_others (·.stage.isOver.toNat) found
    have leaves := turn.length_forgone
    have left := counted.left
    rw [sum_map_set_others _ found, forgone_append, List.length_append]
    omega
  · intro other among ticket retries last stage
    rw [drawn_append, List.length_append]
    rcases mem_of_mem_set among with rfl | old
    · obtain ⟨read, -⟩ := turn.of_rereadHead stage
      have tail : last = (drawn past).length := by simpa [← read] using sound.books.tail
      omega
    · have known := counted.read other old stage
      omega

theorem Counted.of_failing (found : pool.workers[position]? = some worker)
    (failing : worker.Failing model pool.shared next shared events)
    (counted : Counted past pool) :
    Counted (past ++ events) ⟨pool.workers.set position next, shared⟩ := by
  obtain ⟨node, cause, reporting, -⟩ := failing.stage_eq
  have leaves := failing.length_forgone
  obtain ⟨-, disk, rfl⟩ := failing.eq
  constructor
  · rw [List.length_set]
    exact counted.crew
  · have before := sum_map_others (·.stage.isOver.toNat) found
    have left := counted.left
    rw [sum_map_set_others _ found, forgone_append, List.length_append]
    omega
  · refine forall_mem_set (fun other old ticket retries last stage => ?_) (by simp [reporting])
    rw [drawn_append, List.length_append]
    exact Nat.le_add_right_of_le (counted.read other old stage)

end Pool

end Wavefront
