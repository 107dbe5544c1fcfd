/-
# No standstill

When every worker waits and is about to look for its page, nobody works, and a run would
come to a standstill if nobody could obtain a page. It does not. Page numbers and tickets
are counted against one another: as long as nobody has left, every page number belongs to
a page that was enqueued or that somebody holds, and every ticket that is not answered
belongs to one of those who wait. Either somebody waits for a page that is there or that
one of them holds, or all tickets that are waited for lie past the last page number, and
then there are exactly as many of those as workers.
-/

import Wavefront.Proofs.Pool.Exhaustion
import Wavefront.Proofs.Pool.Patience

namespace Wavefront

open History

variable {σ : Type}

namespace Pool

variable {model : Model σ} {place : Location} {past : History σ} {pool : Pool σ}
  {position : Nat} {worker : Worker σ}

/-- Somebody waits for a page that is there to be taken. -/
def Supplied (pool : Pool σ) : Prop :=
  ∃ worker ∈ pool.workers, ∃ ticket, worker.stage.ticket? = some ticket ∧
    pool.shared.frontier.isResident ticket pool.shared.disk = true

/-- Somebody waits for a page that somebody holds, or holds it itself. -/
def Entangled (pool : Pool σ) : Prop :=
  ∃ holder ∈ pool.workers, ∃ page, holder.held = some page ∧
    ∃ waiter ∈ pool.workers, waiter.stage.ticket? = some page.id

instance (pool : Pool σ) : Decidable pool.Supplied :=
  decidable_of_iff (∃ worker ∈ pool.workers, worker.stage.ticket?.any
    (pool.shared.frontier.isResident · pool.shared.disk) = true)
    (by simp only [Supplied, Option.any_eq_true])

/-! ## Everybody waits -/

/-- Nobody has left while everybody looks for a page. -/
theorem sum_isOver_of_isLooking {workers : List (Worker σ)}
    (looking : ∀ worker ∈ workers, worker.stage.isLooking = true) :
    (workers.map (·.stage.isOver.toNat)).sum = 0 := by
  apply List.sum_eq_zero
  intro count member
  obtain ⟨worker, among, rfl⟩ := List.mem_map.mp member
  obtain ⟨ticket, retries, stage⟩ := Stage.exists_of_isLooking (looking worker among)
  simp [stage, Stage.isOver]

/-- There are as many tickets as workers while everybody looks for a page. -/
theorem length_tickets_of_isLooking {workers : List (Worker σ)}
    (looking : ∀ worker ∈ workers, worker.stage.isLooking = true) :
    (workers.flatMap Worker.tickets).length = workers.length := by
  induction workers with
  | nil => rfl
  | cons worker rest ih =>
    obtain ⟨ticket, retries, stage⟩ := Stage.exists_of_isLooking (looking worker (by simp))
    have others := ih fun other member => looking other (List.mem_cons_of_mem _ member)
    simp [Worker.tickets, stage, others]

/-- If everybody looks for a page that is neither there nor in anybody's hands, then the tickets
that are waited for are as many as there are workers, and all lie past the last page number. -/
theorem Watched.eq_of_isLooking (watched : Watched past pool)
    (sound : Sound model place past pool) {last : Nat}
    (tail : pool.shared.frontier.tail = .ticket last)
    (looking : ∀ worker ∈ pool.workers, worker.stage.isLooking = true)
    (staffed : pool.workers ≠ []) (unsupplied : ¬ pool.Supplied)
    (untangled : ¬ pool.Entangled) :
    last = pool.shared.frontier.head + pool.shared.frontier.workers := by
  have books := sound.books
  have nobodyLeft := sum_isOver_of_isLooking looking
  have noneForgone : forgone past = [] :=
    List.length_eq_zero_iff.mp (Nat.le_zero.mp (nobodyLeft ▸ watched.left))
  have noneRefused : refused past = [] :=
    List.length_eq_zero_iff.mp (Nat.le_zero.mp (nobodyLeft ▸ watched.lost))
  have drawn : last = (drawn past).length := by simpa [tail] using books.tail
  have tickets := books.length_tickets
  have outstanding : pool.tickets.length = pool.workers.length :=
    length_tickets_of_isLooking looking
  rw [noneForgone, List.length_nil, outstanding, watched.crew] at tickets
  -- Whoever waits has a ticket past the last page number.
  have beyond : ∀ ticket ∈ pool.tickets, pool.shared.frontier.head < ticket := by
    intro ticket member
    obtain ⟨waiter, among, has⟩ := List.mem_flatMap.mp member
    have waits : waiter.stage.ticket? = some ticket := by simpa [Worker.tickets] using has
    by_contra within
    have positive : ticket ∈ History.drawn past := books.tickets.mem_iff.mp (by simp [member])
    rw [books.order, List.mem_range'_1] at positive
    have handedOut : ticket ∈ List.range' 1 pool.shared.frontier.head := by
      rw [List.mem_range'_1]
      omega
    have unanswered : ticket ∉ History.answered past := by
      have distinct := books.nodup_tickets.of_append_left
      intro twice
      exact (List.nodup_append.mp distinct).2.2 ticket member ticket twice rfl
    rw [← books.ids.mem_iff, noneRefused] at handedOut
    simp only [List.map_nil, List.append_nil, List.mem_append, List.mem_map] at handedOut
    rcases handedOut with ⟨page, there, rfl⟩ | ⟨page, there, rfl⟩
    · obtain ⟨holder, member, mine⟩ := List.mem_flatMap.mp there
      obtain ⟨_, _, stage⟩ := Stage.exists_of_isLooking (looking holder member)
      exact untangled ⟨holder, member, page, by simpa [Worker.pages, stage] using mine,
        waiter, among, waits⟩
    · exact unsupplied ⟨waiter, among, page.id, waits,
        books.stocks.isResident_iff.mpr ⟨page, mem_waiting.mpr ⟨there, unanswered⟩, rfl⟩⟩
  -- So every page number belongs to a ticket that was answered.
  have some : ∃ ticket, ticket ∈ pool.tickets := by
    apply List.exists_mem_of_length_pos
    rw [outstanding]
    exact List.length_pos_iff.mpr staffed
  obtain ⟨ticket, member⟩ := some
  have later := beyond ticket member
  have known : ticket ∈ History.drawn past := books.tickets.mem_iff.mp (by simp [member])
  rw [books.order, List.mem_range'_1] at known
  have all : (List.range' 1 pool.shared.frontier.head).Subperm (History.answered past) := by
    apply List.subperm_of_subset List.nodup_range'
    intro number within
    rw [List.mem_range'_1] at within
    have taken : number ∈ History.drawn past := by
      rw [books.order, List.mem_range'_1]
      omega
    have settled := books.tickets.mem_iff.mpr taken
    rw [noneForgone, List.append_nil] at settled
    rcases List.mem_append.mp settled with waited | answered
    · have past := beyond number waited
      omega
    · exact answered
  have enough := all.length_le
  rw [List.length_range'] at enough
  have atMost := books.length_answered_le
  have ids := books.length_ids
  omega

/-- Whenever everybody looks for a page, somebody waits for a page that is there, or for one that
somebody holds, or nothing is left to do. -/
theorem Watched.standstill (watched : Watched past pool) (sound : Sound model place past pool)
    {last : Nat} (tail : pool.shared.frontier.tail = .ticket last)
    (looking : ∀ worker ∈ pool.workers, worker.stage.isLooking = true)
    (staffed : pool.workers ≠ []) :
    pool.Supplied ∨ pool.Entangled ∨
      last = pool.shared.frontier.head + pool.shared.frontier.workers ∧ pool.Drained past := by
  by_cases supplied : pool.Supplied
  · exact .inl supplied
  · by_cases entangled : pool.Entangled
    · exact .inr (.inl entangled)
    · have full := watched.eq_of_isLooking sound tail looking staffed supplied entangled
      exact .inr (.inr ⟨full, (watched.count sound tail).2 full⟩)

end Pool

/-! ## The last poll -/

namespace Wait

/-- A poll that begins when nothing is left to do, with the number of accesses after which the
frontier is marked finished. -/
inductive Closing (last : Nat) : Wait σ → (left : Nat) → Prop where
  | looks {ticket retries : Nat} : Closing last (.look ticket retries) 4
  | rereads {ticket retries : Nat} : Closing last (.rereadTail ticket retries) 3
  | decides {ticket retries : Nat} : Closing last (.rereadHead ticket retries (.ticket last)) 2
  | latches {ticket : Nat} : Closing last (.latch ticket) 1

end Wait

namespace Worker

variable {model : Model σ} {place : Location} {worker next : Worker σ} {shared after : Shared σ}
  {past events : History σ} {hands : List (Page σ)} {tickets : List Nat}

/-- When nothing is left to do, every access brings the last poll closer to its end. -/
theorem Turn.closing {wait : Wait σ} {left : Nat}
    (turn : Turn model worker shared next after events)
    (books : shared.frontier.Balanced model place shared.disk past (worker.pages ++ hands)
      (worker.tickets ++ tickets))
    (nothing : waiting past = []) (stage : worker.stage = .waiting wait)
    (held : worker.held = none)
    (tail : shared.frontier.tail = .finished ∨
      shared.frontier.tail = .ticket (shared.frontier.head + shared.frontier.workers))
    (closing : wait.Closing (shared.frontier.head + shared.frontier.workers) left) :
    after.frontier.tail = .finished ∨
      ∃ later, next.stage = .waiting later ∧
        later.Closing (shared.frontier.head + shared.frontier.workers) (left - 1) := by
  rcases tail with ended | open'
  · obtain ⟨_, _, _, same, -, stays⟩ := turn.frontier_eq
    left
    rw [same]
    exact stays ended
  have noneWaits {page : Page σ} : page ∉ waiting past := by simp [nothing]
  obtain ⟨accessed, access, rfl, rfl⟩ := turn.of_waiting stage
  rw [held] at access
  cases closing with
  | looks =>
    cases access with
    | misses => exact .inr ⟨_, rfl, .rereads⟩
    | receives taken =>
      obtain ⟨page, waits, -⟩ := books.take_waiting taken
      exact absurd waits noneWaits
    | chokes taken =>
      obtain ⟨-, -, page, waits, -⟩ := books.take_error taken
      exact absurd waits noneWaits
  | rereads =>
    cases access with
    | rereads =>
      rw [open']
      exact .inr ⟨_, rfl, .decides⟩
  | decides =>
    cases access with
    | exhausts => exact .inr ⟨_, rfl, .latches⟩
    | breaks holding => cases holding
    | yields holding => cases holding
    | retries going =>
      rw [exhausted_ticket_iff.mpr rfl] at going
      cases going
  | latches =>
    cases access with
    | latches => exact .inl rfl

end Worker

namespace Pool

variable {model : Model σ} {place : Location} {past : History σ} {pool : Pool σ}
  {position : Nat} {worker : Worker σ}

/-- A step in a drained pool leaves the counters that its workers compare where they are. -/
theorem Drained.counters_stepAt (drained : pool.Drained past) (sound : Sound model place past pool)
    (watched : Watched past pool) (turn : Nat) :
    (pool.stepAt model turn).shared.frontier.head = pool.shared.frontier.head ∧
      (pool.stepAt model turn).shared.frontier.workers = pool.shared.frontier.workers := by
  cases found : pool.workers[turn]? with
  | none => simp [stepAt, found]
  | some mover =>
    have made := mover.turn_step model pool.shared
    obtain ⟨-, head, -, -⟩ := drained.turn found made sound watched
    obtain ⟨_, _, _, same, -, -⟩ := made.frontier_eq
    simp only [stepAt, found]
    exact ⟨head, by rw [same]⟩

/-- When nothing is left to do, a poll that begins marks the frontier finished, whatever others
do in between. -/
theorem Drained.tail_eq_finished {wait : Wait σ} {left : Nat} {schedule : List Nat}
    (drained : pool.Drained past) (sound : Sound model place past pool)
    (watched : Watched past pool) (found : pool.workers[position]? = some worker)
    (stage : worker.stage = .waiting wait)
    (closing : wait.Closing (pool.shared.frontier.head + pool.shared.frontier.workers) left)
    (enough : left ≤ schedule.count position) :
    (pool.follow model schedule).shared.frontier.tail = .finished := by
  induction schedule generalizing past pool worker wait left with
  | nil =>
    rw [List.count_nil] at enough
    cases closing <;> omega
  | cons turn rest ih =>
    show ((pool.stepAt model turn).follow model rest).shared.frontier.tail = .finished
    obtain ⟨sound', watched'⟩ := watched.follow sound [turn]
    have drained' : (pool.stepAt model turn).Drained _ := drained.follow sound watched [turn]
    obtain ⟨head, crew⟩ := drained.counters_stepAt sound watched turn
    obtain ⟨next, same, ⟨rfl, made⟩ | ⟨other, rfl⟩⟩ := exists_getElem?_stepAt model found turn
    · have nothing : waiting past = [] :=
        (sound.books.spent (by rw [drained.answered.length_eq, List.length_range'])).2.2.1
      have tail : pool.shared.frontier.tail = .finished ∨ pool.shared.frontier.tail =
          .ticket (pool.shared.frontier.head + pool.shared.frontier.workers) :=
        drained.drawn ▸ sound.books.tail
      have bare := drained.bare worker (List.mem_of_getElem? found)
      rcases made.closing (sound.split found) nothing stage bare.held tail closing with
        ended | ⟨later, waits, closer⟩
      · exact tail_follow ended rest
      · rw [List.count_cons_self] at enough
        exact ih drained' sound' watched' same waits (by rw [head, crew]; exact closer) (by omega)
    · rw [List.count_cons_of_ne other] at enough
      exact ih drained' sound' watched' same stage (by rw [head, crew]; exact closing) enough

end Pool

end Wavefront
