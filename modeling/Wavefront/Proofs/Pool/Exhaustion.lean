/-
# Exhaustion

A waiting worker compares `tail` with `head`, which it has read one after the other while
the other workers went on. That the comparison means anything rests on counting: a
ticket is answered, or its worker waits on it, or its worker has left; so `tail`
exceeds `head` by at most the number of workers, and if it does by all of that, then
every page was delivered and everybody waits. Nobody can do anything about that any
more, so `head` is then the same at the second read as at the first.

`Watched` is the invariant that carries this: it says of a worker between the two
reads what its first read is worth.
-/

import Wavefront.Proofs.Pool.Books

namespace Wavefront

open History

variable {σ : Type}

/-- The test for the end compares two counters. -/
theorem exhausted_ticket_iff {head last workers : Nat} :
    exhausted head (.ticket last) workers = true ↔ last = head + workers := by
  simp only [exhausted, Bool.and_eq_true, decide_eq_true_eq, beq_iff_eq]
  omega

/-- Whether a worker has left the exploration for good. -/
def Stage.isOver : Stage σ → Bool
  | flushing | reporting .. | latching | unwinding _ | stopped | broken _ => true
  | _ => false

/-! ## Workers that have nothing -/

/-- A worker has no page and no node, and waits on a ticket past the last page number or has
left because the frontier is finished. -/
structure Worker.Bare (frontier : Frontier σ) (worker : Worker σ) : Prop where
  held : worker.held = none
  backlog : worker.backlog.toList = []
  stage : (∃ wait ticket, worker.stage = .waiting wait ∧ wait.pages = [] ∧
      wait.ticket? = some ticket ∧ frontier.head < ticket) ∨
    (frontier.tail = .finished ∧ (worker.stage = .flushing ∨ worker.stage = .stopped))

namespace Worker

variable {model : Model σ} {place : Location} {worker next : Worker σ} {shared after : Shared σ}
  {past events : History σ} {hands : List (Page σ)} {tickets : List Nat}

/-- What others do to the frontier does not give a bare worker anything. -/
theorem Bare.of_frontier {frontier later : Frontier σ} (bare : worker.Bare frontier)
    (head : later.head = frontier.head)
    (tail : frontier.tail = .finished → later.tail = .finished) :
    worker.Bare later := by
  refine ⟨bare.held, bare.backlog, ?_⟩
  rcases bare.stage with ⟨wait, ticket, waits, empty, has, beyond⟩ | ⟨ended, left⟩
  · exact .inl ⟨wait, ticket, waits, empty, has, head ▸ beyond⟩
  · exact .inr ⟨tail ended, left⟩

/-- A bare worker stays bare as long as no pages wait, and leaves `head` alone. -/
theorem Bare.turn (bare : worker.Bare shared.frontier)
    (turn : Turn model worker shared next after events)
    (books : shared.frontier.Balanced model place shared.disk past (worker.pages ++ hands)
      (worker.tickets ++ tickets))
    (nothing : waiting past = [])
    (read : ∀ {ticket retries}, worker.stage = .waiting (.rereadHead ticket retries .finished) →
      shared.frontier.tail = .finished) :
    next.Bare after.frontier ∧ after.frontier.head = shared.frontier.head ∧ answered events = [] ∧
      drawn events = [] := by
  rcases bare.stage with ⟨wait, ticket, waits, empty, has, beyond⟩ | ⟨ended, flushing | stopped⟩
  · obtain ⟨accessed, access, rfl, rfl⟩ := turn.of_waiting waits
    have noneWaits {page : Page σ} : page ∉ waiting past := by simp [nothing]
    rw [bare.held] at access
    have settled {progress : Progress σ} {frontier : Frontier σ} {disk : Disk}
        (same : frontier.head = shared.frontier.head)
        (goes : (∃ later, progress = .waiting later ∧ later.pages = [] ∧
            later.ticket? = some ticket) ∨ (progress = .finished ∧ frontier.tail = .finished)) :
        (worker.proceed ⟨progress, none, frontier, disk⟩).Bare frontier := by
      rcases goes with ⟨later, rfl, clear, still⟩ | ⟨rfl, ended⟩
      · exact ⟨rfl, bare.backlog, .inl ⟨later, ticket, rfl, clear, still, same ▸ beyond⟩⟩
      · exact ⟨rfl, bare.backlog, .inr ⟨ended, .inl rfl⟩⟩
    cases access with
    | closed | reads | draws | outrun => cases has
    | breaks holding | yields holding => cases holding
    | donates | refuses => cases empty
    | misses taken =>
      obtain ⟨memory, rfl⟩ := Frontier.eq_of_take taken
      exact ⟨settled rfl (.inl ⟨_, rfl, rfl, has⟩), rfl, rfl, rfl⟩
    | receives taken =>
      obtain ⟨page, waiting, -⟩ := books.take_waiting taken
      exact absurd waiting noneWaits
    | chokes taken =>
      obtain ⟨-, -, page, waiting, -⟩ := books.take_error taken
      exact absurd waiting noneWaits
    | rereads | exhausts | retries => exact ⟨settled rfl (.inl ⟨_, rfl, rfl, has⟩), rfl, rfl, rfl⟩
    | ends => exact ⟨settled rfl (.inr ⟨rfl, read waits⟩), rfl, rfl, rfl⟩
    | latches => exact ⟨settled rfl (.inr ⟨rfl, rfl⟩), rfl, rfl, rfl⟩
  · obtain ⟨rfl, rfl, rfl⟩ := turn.of_flushing flushing
    exact ⟨⟨bare.held, bare.backlog, .inr ⟨ended, .inr rfl⟩⟩, rfl, rfl, rfl⟩
  · obtain ⟨rfl, rfl, rfl⟩ := turn.of_isFinal (by rw [stopped]; rfl)
    exact ⟨bare, rfl, rfl, rfl⟩

/-- A worker has a ticket or has left, and not both. -/
theorem length_tickets_add (worker : Worker σ) :
    worker.tickets.length + worker.stage.isOver.toNat ≤ 1 := by
  unfold tickets
  cases worker.stage with
  | waiting wait => cases wait <;> simp [Stage.isOver]
  | _ => simp [Stage.isOver]

/-- A worker whose ticket is forgone leaves with it. -/
theorem Turn.length_forgone (turn : Turn model worker shared next after events) :
    (forgone events).length + worker.stage.isOver.toNat ≤ next.stage.isOver.toNat := by
  cases turn with
  | rests => simp
  | heeds stage | idles stage | picks stage | overflows stage | expands stage | concludes stage
    | meets stage | skips stage | sinks stage | publishes stage | flushes stage | reports stage
    | latches stage | unwinds stage => simp [stage, Stage.isOver]
  | @fails _ stop stage | @strands _ _ _ stop _ _ stage =>
    cases stop <;> simp [stage, Stage.isOver, Stage.ending]
  | accesses stage turn =>
    cases turn with
    | closed | reads | draws | outrun | misses | receives | rereads | exhausts | retries | yields
      | donates => simp [stage, Stage.isOver]
    | chokes | ends | breaks | latches => simp [stage, Stage.isOver, proceed, Stage.ending]
    | @refuses _ _ stop => cases stop <;> simp [stage, Stage.isOver, proceed, Stage.ending]
  | records stage room placed => simp [stage, Stage.isOver]
  | claims stage stowed => simp [stage, Stage.isOver]

/-- A worker whose page is refused leaves. -/
theorem Turn.length_refused (turn : Turn model worker shared next after events) :
    (refused events).length + worker.stage.isOver.toNat ≤ next.stage.isOver.toNat := by
  have stays (none : refused events = []) :
      (refused events).length + worker.stage.isOver.toNat ≤ next.stage.isOver.toNat := by
    have leaves := turn.length_forgone
    rw [none, List.length_nil]
    omega
  cases turn with
  | rests | heeds | idles | picks | fails | overflows | expands | concludes | meets | skips | sinks
    | records | claims | publishes | flushes | reports | latches | unwinds => exact stays rfl
  | @strands _ _ _ stop _ _ stage => cases stop <;> simp [stage, Stage.isOver, Stage.ending]
  | accesses stage turn =>
    cases turn with
    | closed | reads | draws | outrun | misses | receives | chokes | rereads | ends | exhausts
      | breaks | retries | yields | latches | donates => exact stays rfl
    | @refuses _ _ stop => cases stop <;> simp [stage, Stage.isOver, proceed, Stage.ending]

/-- A worker about to reread `head` has reread `tail` just now. -/
theorem Turn.of_rereadHead {ticket retries : Nat} {tail : Tail}
    (turn : Turn model worker shared next after events)
    (stage : next.stage = .waiting (.rereadHead ticket retries tail)) :
    tail = shared.frontier.tail ∧ after.frontier = shared.frontier := by
  cases turn with
  | rests final => simp [stage, Stage.isFinal] at final
  | heeds | idles | picks | overflows | expands | concludes | meets | skips | sinks | publishes
    | flushes | reports | latches | unwinds => simp at stage
  | @fails _ stop | @strands _ _ _ stop => cases stop <;> simp [Stage.ending] at stage
  | accesses _ turn =>
    cases turn with
    | rereads =>
      simp only [proceed, Stage.waiting.injEq, Wait.rereadHead.injEq] at stage
      exact ⟨stage.2.2.symm, rfl⟩
    | closed | reads | draws | outrun | misses | receives | chokes | ends | exhausts | breaks
      | retries | yields | latches | donates => simp [proceed, receive, Stage.ending] at stage
    | @refuses _ _ stop => cases stop <;> simp [proceed, Stage.ending] at stage
  | records _ room placed =>
    cases placed with
    | keeps | seeks => simp at stage
    | stows holding stowed => exact absurd stage (stowed.stage_ne.2 _)
  | claims _ stowed => exact absurd stage (stowed.stage_ne.2 _)

/-- A worker about to mark the frontier finished has found it exhausted just now. -/
theorem Turn.of_latch {ticket : Nat} (turn : Turn model worker shared next after events)
    (stage : next.stage = .waiting (.latch ticket)) :
    ∃ retries last, worker.stage = .waiting (.rereadHead ticket retries (.ticket last)) ∧
      exhausted shared.frontier.head (.ticket last) shared.frontier.workers = true := by
  cases turn with
  | rests final => simp [stage, Stage.isFinal] at final
  | heeds | idles | picks | overflows | expands | concludes | meets | skips | sinks | publishes
    | flushes | reports | latches | unwinds => simp at stage
  | @fails _ stop | @strands _ _ _ stop => cases stop <;> simp [Stage.ending] at stage
  | accesses before turn =>
    cases turn with
    | exhausts empty exhausted =>
      simp only [proceed, Stage.waiting.injEq, Wait.latch.injEq] at stage
      subst stage
      exact ⟨_, _, before, exhausted⟩
    | closed | reads | draws | outrun | misses | receives | chokes | rereads | ends | breaks
      | retries | yields | latches | donates => simp [proceed, receive, Stage.ending] at stage
    | @refuses _ _ stop => cases stop <;> simp [proceed, Stage.ending] at stage
  | records _ room placed =>
    cases placed with
    | keeps | seeks => simp at stage
    | stows holding stowed => exact absurd stage (stowed.stage_ne.2 _)
  | claims _ stowed => exact absurd stage (stowed.stage_ne.2 _)

/-- A ticket is forgone because the frontier is finished, or because of a page that was enqueued
and cannot be read or that was refused. -/
theorem Turn.forgone_reason (turn : Turn model worker shared next after events)
    (books : shared.frontier.Balanced model place shared.disk past (worker.pages ++ hands)
      (worker.tickets ++ tickets))
    (read : ∀ {ticket retries}, worker.stage = .waiting (.rereadHead ticket retries .finished) →
      shared.frontier.tail = .finished)
    (bare : ∀ {ticket retries last},
      worker.stage = .waiting (.rereadHead ticket retries (.ticket last)) →
      last = shared.frontier.head + shared.frontier.workers → worker.held = none) :
    ∀ ticket ∈ forgone events, after.frontier.tail = .finished ∨
      ticket ∈ (enqueued past).map Page.id ∨ refused events ≠ [] := by
  intro ticket member
  cases turn with
  | rests | heeds | idles | picks | fails | overflows | expands | concludes | meets | skips | sinks
    | records | claims | publishes | strands | flushes | reports | latches | unwinds =>
    simp at member
  | accesses stage turn =>
    cases turn with
    | closed | reads | draws | outrun | misses | receives | rereads | exhausts | retries | yields
      | donates => simp at member
    | chokes taken =>
      obtain ⟨-, -, page, waits, same, -⟩ := books.take_error taken
      obtain rfl : ticket = _ := by simpa using member
      exact .inr (.inl (List.mem_map.mpr ⟨page, (mem_waiting.mp waits).1, same⟩))
    | ends => exact .inl (read stage)
    | breaks holding exhausted =>
      have none := bare stage (exhausted_ticket_iff.mp exhausted)
      rw [none] at holding
      cases holding
    | latches => exact .inl rfl
    | refuses => exact .inr (.inr (by simp))

end Worker

/-! ## The invariant -/

namespace Pool

variable {model : Model σ} {place : Location} {past events : History σ} {pool : Pool σ}
  {position : Nat} {worker next : Worker σ} {shared : Shared σ}

/-- Every page was delivered, no worker has anything, and no more tickets will be drawn. -/
structure Drained (past : History σ) (pool : Pool σ) : Prop where
  answered : (answered past).Perm (List.range' 1 pool.shared.frontier.head)
  bare : ∀ worker ∈ pool.workers, worker.Bare pool.shared.frontier
  drawn : (drawn past).length = pool.shared.frontier.head + pool.shared.frontier.workers

/-- What is known of workers that wait or have left, and of the tickets they had. -/
structure Watched (past : History σ) (pool : Pool σ) : Prop where
  crew : pool.workers.length = pool.shared.frontier.workers
  /-- Whoever forwent a ticket has left. -/
  left : (forgone past).length ≤ (pool.workers.map (·.stage.isOver.toNat)).sum
  /-- Whoever lost a page has left. -/
  lost : (refused past).length ≤ (pool.workers.map (·.stage.isOver.toNat)).sum
  reasons : ∀ ticket ∈ forgone past, pool.shared.frontier.tail = .finished ∨
    ticket ∈ (enqueued past).map Page.id ∨ refused past ≠ []
  /-- A value of `tail` that was read is still worth something. -/
  read : ∀ worker ∈ pool.workers, ∀ {ticket retries last},
    worker.stage = .waiting (.rereadHead ticket retries (.ticket last)) →
      last ≤ pool.shared.frontier.head + pool.shared.frontier.workers ∧
        (last = pool.shared.frontier.head + pool.shared.frontier.workers → pool.Drained past)
  ended : ∀ worker ∈ pool.workers, ∀ {ticket retries},
    worker.stage = .waiting (.rereadHead ticket retries .finished) →
      pool.shared.frontier.tail = .finished
  latch : ∀ worker ∈ pool.workers, ∀ {ticket}, worker.stage = .waiting (.latch ticket) →
    pool.Drained past

/-! ## Counting -/

theorem length_tickets_add (workers : List (Worker σ)) :
    (workers.flatMap Worker.tickets).length + (workers.map (·.stage.isOver.toNat)).sum ≤
      workers.length := by
  induction workers with
  | nil => simp
  | cons worker rest ih =>
    have one := worker.length_tickets_add
    simp only [List.flatMap_cons, List.length_append, List.map_cons, List.sum_cons,
      List.length_cons]
    omega

/-- If there are as many tickets as workers, then every worker waits on one. -/
theorem exists_ticket_of_length_le {workers : List (Worker σ)}
    (enough : workers.length ≤ (workers.flatMap Worker.tickets).length) :
    ∀ worker ∈ workers, ∃ ticket, worker.stage.ticket? = some ticket := by
  induction workers with
  | nil => simp
  | cons worker rest ih =>
    have one := worker.length_tickets_add
    have others := length_tickets_add rest
    simp only [List.flatMap_cons, List.length_append, List.length_cons] at enough
    intro other member
    rcases List.mem_cons.mp member with rfl | later
    · cases has : other.stage.ticket? with
      | some ticket => exact ⟨ticket, rfl⟩
      | none =>
        simp only [Worker.tickets, has, Option.toList_none, List.length_nil] at enough
        omega
    · exact ih (by omega) other later

/-- The last ticket exceeds the last page number by at most the number of workers, and if it does
by all of that, nothing is left. -/
theorem Watched.count (watched : Watched past pool) (sound : Sound model place past pool)
    {last : Nat} (tail : pool.shared.frontier.tail = .ticket last) :
    last ≤ pool.shared.frontier.head + pool.shared.frontier.workers ∧
      (last = pool.shared.frontier.head + pool.shared.frontier.workers → pool.Drained past) := by
  have books := sound.books
  have drawn : last = (drawn past).length := by simpa [tail] using books.tail
  have tickets := books.length_tickets
  have ids := books.length_ids
  have answers := books.length_answered_le
  have crew := watched.crew
  have left := watched.left
  have each := length_tickets_add pool.workers
  have outstanding : pool.tickets.length = (pool.workers.flatMap Worker.tickets).length := rfl
  refine ⟨by omega, fun full => ?_⟩
  obtain ⟨noHands, noneRefused, nothing, every, answered⟩ := books.spent (by omega)
  -- Nobody has left: there is no reason for which a ticket might have been forgone.
  have noneForgone : forgone past = [] := by
    apply List.eq_nil_iff_forall_not_mem.mpr
    intro ticket member
    rcases watched.reasons ticket member with ended | enqueued | refused
    · simp [tail] at ended
    · have again := answered.mem_iff.mpr (every.mem_iff.mp enqueued)
      have distinct := books.nodup_tickets
      rw [List.append_assoc, List.nodup_append] at distinct
      have apart := (List.nodup_append.mp distinct.2.1).2.2
      exact apart ticket again ticket member rfl
    · exact refused noneRefused
  rw [noneForgone, List.length_nil] at tickets
  have enough : pool.workers.length ≤ (pool.workers.flatMap Worker.tickets).length := by
    have same := answered.length_eq
    rw [List.length_range'] at same
    omega
  have all := exists_ticket_of_length_le enough
  refine ⟨answered, fun worker member => ?_, drawn ▸ full⟩
  obtain ⟨ticket, has⟩ := all worker member
  have empty : worker.pages = [] := List.flatMap_eq_nil_iff.mp noHands worker member
  rw [Worker.pages, List.append_eq_nil_iff] at empty
  have beyond : pool.shared.frontier.head < ticket := by
    have outstanding : ticket ∈ pool.tickets :=
      List.mem_flatMap.mpr ⟨worker, member,
        by rw [Worker.tickets, has]; exact List.mem_singleton_self _⟩
    have unanswered : ticket ∉ History.answered past := by
      have distinct := books.nodup_tickets.of_append_left
      intro twice
      exact (List.nodup_append.mp distinct).2.2 ticket outstanding ticket twice rfl
    have positive : ticket ∈ History.drawn past := books.tickets.mem_iff.mp (by simp [outstanding])
    rw [answered.mem_iff, List.mem_range'_1] at unanswered
    rw [books.order, List.mem_range'_1] at positive
    omega
  cases stage : worker.stage with
  | waiting wait =>
    rw [stage] at has empty
    exact ⟨by simpa using empty.1, (sound.orderly worker member).waiting stage,
      .inl ⟨wait, ticket, stage, empty.2, has, beyond⟩⟩
  | _ => simp [stage] at has

/-! ## Steps -/

/-- A step in a drained pool leaves its worker bare, and `head` where it is. -/
theorem Drained.turn (found : pool.workers[position]? = some worker)
    (turn : worker.Turn model pool.shared next shared events) (sound : Sound model place past pool)
    (watched : Watched past pool) (drained : pool.Drained past) :
    next.Bare shared.frontier ∧ shared.frontier.head = pool.shared.frontier.head ∧
      History.answered events = [] ∧ History.drawn events = [] := by
  have member := List.mem_of_getElem? found
  have enough : pool.shared.frontier.head ≤ (History.answered past).length := by
    rw [drained.answered.length_eq, List.length_range']
  obtain ⟨-, -, nothing, -, -⟩ := sound.books.spent enough
  exact (drained.bare worker member).turn turn (sound.split found) nothing
    (watched.ended worker member)

/-- Once drained, a pool stays drained. -/
theorem Drained.step (found : pool.workers[position]? = some worker)
    (turn : worker.Turn model pool.shared next shared events) (sound : Sound model place past pool)
    (watched : Watched past pool) (drained : pool.Drained past) :
    Drained (past ++ events) ⟨pool.workers.set position next, shared⟩ := by
  obtain ⟨bare, head, quiet, noneDrawn⟩ := drained.turn found turn sound watched
  obtain ⟨_, _, _, same, -, stays⟩ := turn.frontier_eq
  refine ⟨?_, fun other among => ?_, ?_⟩
  · rw [answered_append, quiet, List.append_nil, head]
    exact drained.answered
  · rcases mem_of_mem_set among with rfl | old
    · exact bare
    · refine (drained.bare other old).of_frontier head fun ended => ?_
      rw [same]
      exact stays ended
  · have crew : shared.frontier.workers = pool.shared.frontier.workers := by rw [same]
    rw [drawn_append, noneDrawn, List.append_nil, head, crew]
    exact drained.drawn

/-- Whoever finds the frontier exhausted holds no page, because nobody does. -/
theorem Watched.held_eq_none (watched : Watched past pool)
    (found : pool.workers[position]? = some worker) {ticket retries last : Nat}
    (stage : worker.stage = .waiting (.rereadHead ticket retries (.ticket last)))
    (full : last = pool.shared.frontier.head + pool.shared.frontier.workers) :
    worker.held = none := by
  have member := List.mem_of_getElem? found
  exact (((watched.read worker member stage).2 full).bare worker member).held

/-- A step keeps the watch. -/
theorem Watched.step (found : pool.workers[position]? = some worker)
    (turn : worker.Turn model pool.shared next shared events) (sound : Sound model place past pool)
    (watched : Watched past pool) :
    Watched (past ++ events) ⟨pool.workers.set position next, shared⟩ := by
  have member := List.mem_of_getElem? found
  obtain ⟨head, tail, memory, same, grows, stays⟩ := turn.frontier_eq
  have crew : shared.frontier.workers = pool.shared.frontier.workers := by rw [same]
  have rises : pool.shared.frontier.head ≤ shared.frontier.head := by
    rw [same]
    exact grows
  have remains (ended : pool.shared.frontier.tail = .finished) :
      shared.frontier.tail = .finished := by
    rw [same]
    exact stays ended
  constructor
  · rw [List.length_set, crew]
    exact watched.crew
  · have before := sum_map_others (·.stage.isOver.toNat) found
    have leaves := turn.length_forgone
    have left := watched.left
    rw [sum_map_set_others _ found, forgone_append, List.length_append]
    omega
  · have before := sum_map_others (·.stage.isOver.toNat) found
    have leaves := turn.length_refused
    have lost := watched.lost
    rw [sum_map_set_others _ found, refused_append, List.length_append]
    omega
  · intro ticket among
    rw [forgone_append] at among
    rcases List.mem_append.mp among with old | new
    · rcases watched.reasons ticket old with ended | enqueued | refused
      · exact .inl (remains ended)
      · exact .inr (.inl (by simp [enqueued]))
      · exact .inr (.inr (by simp [refused]))
    · rcases turn.forgone_reason (sound.split found) (watched.ended worker member)
        (watched.held_eq_none found) ticket new with ended | enqueued | refused
      · exact .inl ended
      · exact .inr (.inl (by simp [enqueued]))
      · exact .inr (.inr (by simp [refused]))
  · intro other among ticket retries last stage
    suffices known : last ≤ pool.shared.frontier.head + pool.shared.frontier.workers ∧
        (last = pool.shared.frontier.head + pool.shared.frontier.workers → pool.Drained past) by
      dsimp only
      refine ⟨by omega, fun full => ?_⟩
      exact (known.2 (by omega)).step found turn sound watched
    rcases mem_of_mem_set among with rfl | old
    · obtain ⟨read, -⟩ := turn.of_rereadHead stage
      exact watched.count sound read.symm
    · exact watched.read other old stage
  · intro other among ticket retries stage
    rcases mem_of_mem_set among with rfl | old
    · obtain ⟨read, -⟩ := turn.of_rereadHead stage
      exact remains read.symm
    · exact remains (watched.ended other old stage)
  · intro other among ticket stage
    suffices drained : pool.Drained past from drained.step found turn sound watched
    rcases mem_of_mem_set among with rfl | old
    · obtain ⟨retries, last, stage, exhausted⟩ := turn.of_latch stage
      exact (watched.read worker member stage).2 (exhausted_ticket_iff.mp exhausted)
    · exact watched.latch other old stage

/-! ## Runs -/

/-- The books and the watch are kept along every schedule. -/
theorem Watched.follow (sound : Sound model place past pool) (watched : Watched past pool)
    (schedule : List Nat) :
    Sound model place (past ++ pool.events model schedule) (pool.follow model schedule) ∧
      Watched (past ++ pool.events model schedule) (pool.follow model schedule) :=
  follow_induction (fun past pool => Sound model place past pool ∧ Watched past pool)
    (fun found turn both => ⟨both.1.step found turn, both.2.step found turn both.1⟩)
    ⟨sound, watched⟩ schedule

/-- A pool that is drained stays drained along every schedule. -/
theorem Drained.follow (sound : Sound model place past pool) (watched : Watched past pool)
    (drained : pool.Drained past) (schedule : List Nat) :
    Drained (past ++ pool.events model schedule) (pool.follow model schedule) := by
  have all := follow_induction
    (fun past pool => Sound model place past pool ∧ Watched past pool ∧ Drained past pool)
    (fun found turn each => ⟨each.1.step found turn, each.2.1.step found turn each.1,
      each.2.2.step found turn each.1 each.2.1⟩)
    ⟨sound, watched, drained⟩ schedule
  exact all.2.2

/-- A frontier that is finished stays finished along every schedule. -/
theorem tail_follow (ended : pool.shared.frontier.tail = .finished) (schedule : List Nat) :
    (pool.follow model schedule).shared.frontier.tail = .finished := by
  have all := @follow_induction σ model (fun _ pool => pool.shared.frontier.tail = .finished)
    (fun _ turn before => by
      obtain ⟨_, _, _, same, -, stays⟩ := turn.frontier_eq
      rw [same]
      exact stays before)
    [] pool ended schedule
  exact all

end Pool

end Wavefront
