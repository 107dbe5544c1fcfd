/-
# The assertions that a worker makes

A worker breaks down if the model does, or if something turns out that it relies on: that the page
which it fills has room, that a page which it gives away holds something and is not there already,
that nobody finds the frontier exhausted who holds a page, and that levels and counters stay within
their limits. All but the last follow from the books of the pool. So no worker breaks down unless a
limit is reached, whatever files cannot be written or read; and what a worker counts down never
exceeds what it has counted up.
-/

import Wavefront.Proofs.Pool.Counters
import Wavefront.Proofs.Pool.Discovery

namespace Wavefront

open History

variable {σ : Type}

/-- How often a call has looked in vain while its caller held a page. -/
@[simp]
def Wait.retries : Wait σ → Nat
  | look _ retries => retries
  | rereadTail _ retries => retries
  | rereadHead _ retries _ => retries
  | _ => 0

namespace Stage

/-- The fault of a worker that breaks down or has broken down. -/
@[simp]
def fault? : Stage σ → Option Fault
  | unwinding fault => some fault
  | broken fault => some fault
  | _ => none

/-- How often a worker has looked in vain while it held a page. -/
@[simp]
def retries : Stage σ → Nat
  | waiting wait => wait.retries
  | _ => 0

theorem retries_ending (node : Option (Node σ)) (stop : Stop) : (ending node stop).retries = 0 := by
  cases stop <;> rfl

end Stage

/-! ## Workers -/

namespace Worker

variable {model : Model σ} {worker next : Worker σ} {shared after : Shared σ} {events : History σ}
  {page : Page σ} {node child : Node σ} {rest : List σ}

/-- What a worker has put into its backlog is what it has taken out and what is still there. -/
def Even (worker : Worker σ) : Prop :=
  worker.accepted = worker.processed + worker.backlog.toList.length

theorem Even.unexplored (even : worker.Even) :
    worker.unexplored = worker.backlog.toList.length := by
  rw [Worker.unexplored, even]
  exact Nat.add_sub_cancel_left _ _

theorem Even.of_eq (even : worker.Even) (accepted : next.accepted = worker.accepted)
    (processed : next.processed = worker.processed) (backlog : next.backlog = worker.backlog) :
    next.Even := by
  rw [Even, accepted, processed, backlog]
  exact even

theorem Stowed.even (stowed : Stowed worker page node child rest next) (even : worker.Even) :
    next.Even := by
  cases stowed <;> exact even.of_eq rfl rfl rfl

/-- A worker counts what it puts into its backlog and what it takes out. -/
theorem Turn.even (turn : Turn model worker shared next after events) (even : worker.Even) :
    next.Even := by
  cases turn with
  | rests | heeds | idles | fails | overflows | expands | concludes | meets | skips | sinks
    | publishes | strands | flushes | reports | latches | unwinds => exact even.of_eq rfl rfl rfl
  | @picks node backlog stage taken =>
    rw [Even, taken, List.length_cons] at even
    show worker.accepted = worker.processed + 1 + backlog.toList.length
    omega
  | @accesses _ accessed _ stage turn =>
    rcases accessed with ⟨progress, held, frontier, disk⟩
    cases progress with
    | waiting | finished | stopped => exact even.of_eq rfl rfl rfl
    | delivered page =>
      show worker.accepted + page.size =
        worker.processed + (worker.backlog.pushAll page.nodes.toList).toList.length
      rw [Fifo.toList_pushAll, List.length_append, Array.length_toList, even, Nat.add_assoc]
      rfl
  | records stage room placed =>
    cases placed with
    | keeps =>
      show worker.accepted + 1 = worker.processed + (worker.backlog.push _).toList.length
      rw [Fifo.toList_push, List.length_append, even, Nat.add_assoc]
      rfl
    | seeks => exact even.of_eq rfl rfl rfl
    | stows holding stowed =>
      exact stowed.even (even.of_eq rfl rfl rfl)
  | claims stage stowed => exact stowed.even even

theorem Stowed.retries_eq (stowed : Stowed worker page node child rest next) :
    next.stage.retries = 0 := by
  cases stowed <;> rfl

/-- A worker gives its page up before it has looked in vain too often. -/
theorem Turn.retries_le (turn : Turn model worker shared next after events)
    (patient : worker.stage.retries ≤ shared.frontier.donationRetries) :
    next.stage.retries ≤ after.frontier.donationRetries := by
  have begins (none : next.stage.retries = 0) :
      next.stage.retries ≤ after.frontier.donationRetries := none ▸ Nat.zero_le _
  cases turn with
  | rests => exact patient
  | heeds | idles | picks | overflows | expands | concludes | meets | skips | sinks | publishes
    | flushes | reports | latches | unwinds => exact begins rfl
  | fails | strands => exact begins (Stage.retries_ending _ _)
  | accesses stage turn =>
    rw [stage] at patient
    cases turn with
    | closed | reads | draws | outrun | receives | chokes | ends | exhausts | breaks | yields
      | latches | donates => exact begins rfl
    | refuses => exact begins (Stage.retries_ending _ _)
    | misses taken =>
      obtain ⟨memory, rfl⟩ := Frontier.eq_of_take taken
      exact patient
    | rereads => exact patient
    | retries going more =>
      rcases more with ⟨-, rfl⟩ | ⟨-, less, rfl⟩
      · exact patient
      · exact less
  | records stage room placed =>
    cases placed with
    | keeps | seeks => exact begins rfl
    | stows holding stowed => exact begins stowed.retries_eq
  | claims stage stowed => exact begins stowed.retries_eq

/-- A page with room takes a node. -/
theorem Stowed.fault?_eq (stowed : Stowed worker page node child rest next)
    (room : page.size < page.capacity) : next.stage.fault? = none := by
  cases stowed with
  | bursts full => simp [Page.add, room] at full
  | fills | holds => rfl

end Worker

/-! ## Pools -/

namespace Pool

variable {model : Model σ} {initial : List σ} {place : Location} {past events : History σ}
  {pool : Pool σ} {position : Nat} {worker next : Worker σ} {shared : Shared σ}

/-- No worker breaks down unless a limit is reached, as long as nobody who finds the frontier
exhausted holds a page. -/
theorem Consistent.fault?_turn (consistent : Consistent model initial place past pool)
    (tallied : Tallied model pool) (found : pool.workers[position]? = some worker)
    (turn : worker.Turn model pool.shared next shared events)
    (calm : ∀ state, model.Reachable initial state → ∀ fault,
      model.successors state ≠ .error (.fault fault))
    (unheld : ∀ {ticket retries last},
      worker.stage = .waiting (.rereadHead ticket retries (.ticket last)) →
      last = pool.shared.frontier.head + pool.shared.frontier.workers → worker.held = none)
    (whole : worker.stage.fault? = none) :
    Limited model (past ++ events) ⟨pool.workers.set position next, shared⟩ ∨
      next.stage.fault? = none := by
  have member := List.mem_of_getElem? found
  have books := consistent.sound.split found
  have provided := consistent.conserved.provided worker member
  have causes := turn.causes books provided
  cases turn with
  | rests => exact .inr whole
  | heeds | idles | picks | expands | concludes | meets | skips | publishes | flushes | reports
    | latches => exact .inr rfl
  | @fails node stop stage failed =>
    have known : node ∈ History.nodes past :=
      consistent.conserved.nodes_subset member (by simp [Worker.nodes, stage])
    cases stop with
    | failure cause => exact .inr rfl
    | fault fault => exact absurd failed (calm _ (consistent.reachable node known) fault)
  | overflows stage computed counted =>
    exact .inl (.inr (tallied.lt_of_overflow found computed counted))
  | accesses stage turn =>
    cases turn with
    | closed | reads | draws | outrun | misses | receives | chokes | rereads | ends | exhausts
      | retries | yields | latches | donates => exact .inr rfl
    | breaks holding exhausted =>
      rw [unheld stage (exhausted_ticket_iff.mp exhausted)] at holding
      cases holding
    | @refuses _ _ stop =>
      obtain ⟨failure, rfl⟩ := causes stop (by simp)
      exact .inr rfl
  | @sinks node _ _ stage deep =>
    have known := consistent.mem_nodes_of_recording member stage
    exact .inl (.inl ⟨node, by simp [known], deep⟩)
  | records stage room placed =>
    cases placed with
    | keeps | seeks => exact .inr rfl
    | @stows page _ holding stowed =>
      have holds : worker.held = some page := holding
      have mine : page ∈ worker.pages := List.mem_append_left _ (Option.mem_toList.mpr holds)
      have fits := books.fits page (List.mem_append_left _ (List.mem_append_left _ mine))
      exact .inr (stowed.fault?_eq (provided.lt_capacity holds fits))
  | claims stage stowed =>
    exact .inr (stowed.fault?_eq (consistent.conserved.positive _))
  | @strands _ _ _ stop =>
    obtain ⟨failure, rfl⟩ := causes stop (by simp)
    exact .inr rfl
  | unwinds stage =>
    rw [stage] at whole
    cases whole

/-- The assertions of all workers hold, unless a limit is reached. -/
structure Steady (model : Model σ) (past : History σ) (pool : Pool σ) : Prop where
  whole : Limited model past pool ∨ ∀ worker ∈ pool.workers, worker.stage.fault? = none
  even : ∀ worker ∈ pool.workers, worker.Even
  patient : ∀ worker ∈ pool.workers,
    worker.stage.retries ≤ pool.shared.frontier.donationRetries

theorem Steady.step (found : pool.workers[position]? = some worker)
    (turn : worker.Turn model pool.shared next shared events)
    (consistent : Consistent model initial place past pool) (tallied : Tallied model pool)
    (calm : ∀ state, model.Reachable initial state → ∀ fault,
      model.successors state ≠ .error (.fault fault))
    (unheld : ∀ {ticket retries last},
      worker.stage = .waiting (.rereadHead ticket retries (.ticket last)) →
      last = pool.shared.frontier.head + pool.shared.frontier.workers → worker.held = none)
    (steady : Steady model past pool) :
    Steady model (past ++ events) ⟨pool.workers.set position next, shared⟩ := by
  have member := List.mem_of_getElem? found
  obtain ⟨_, _, _, same, -⟩ := turn.frontier_eq
  refine ⟨?_, ?_, ?_⟩
  · rcases steady.whole with limited | whole
    · exact .inl (limited.step turn)
    · exact (consistent.fault?_turn tallied found turn calm unheld
        (whole worker member)).imp_right (forall_mem_set whole)
  · exact forall_mem_set steady.even (turn.even (steady.even worker member))
  · refine forall_mem_set ?_ (turn.retries_le (steady.patient worker member))
    show ∀ other ∈ pool.workers, other.stage.retries ≤ shared.frontier.donationRetries
    rw [same]
    exact steady.patient

end Pool

end Wavefront
