/-
# A worker that is alone

With a single worker nothing happens while it waits, so its frontier is a queue of pages:
they are enqueued in the order of their numbers and delivered in the same order, and the
page that the worker holds is the newest. `Worker.Alone` says so. When the worker looks for
a page, either the oldest page that waits is the one it looks for; or nothing waits, and then
it holds the very page that it looks for, or it holds none and nothing is left at all.

So the tests that a waiting worker makes have only one outcome each, and `Worker.Access`
lists the few ways in which an access can turn out. In particular the worker never looks in
vain twice: how often it may do so is never asked.
-/

import Wavefront.Proofs.Pool.Conservation
import Wavefront.Proofs.Pool.Exhaustion

namespace Wavefront

open History

variable {σ : Type}

/-- Pages with consecutive numbers, without those that have the first so many of them. -/
theorem filter_notMem_range' {pages : List (Page σ)} {start taken : Nat}
    (ids : pages.map Page.id = List.range' start pages.length) :
    pages.filter (·.id ∉ List.range' start taken) = pages.drop taken := by
  induction pages generalizing start taken with
  | nil => simp
  | cons first rest ih =>
    rw [List.map_cons, List.length_cons, List.range'_succ, List.cons.injEq] at ids
    obtain ⟨own, others⟩ := ids
    cases taken with
    | zero => simp
    | succ taken =>
      rw [List.filter_cons_of_neg (by simp [own, List.range'_succ]), List.drop_succ_cons,
        ← ih others]
      apply List.filter_congr
      intro page member
      have later : page.id ∈ List.range' (start + 1) rest.length :=
        others ▸ List.mem_map_of_mem member
      simp only [List.mem_range'_1] at later ⊢
      rw [decide_eq_decide]
      omega

namespace Wait

/-- The ticket of a call that has looked for its page in vain. -/
def missed? : Wait σ → Option Nat
  | rereadTail ticket _ => some ticket
  | rereadHead ticket _ _ => some ticket
  | donate ticket _ => some ticket
  | _ => none

end Wait

namespace Worker

variable {model : Model σ} {place : Location} {worker next : Worker σ} {shared after : Shared σ}
  {past events : History σ} {page : Page σ} {ticket retries : Nat}

/-- What is known of the only worker of a pool. -/
structure Alone (past : History σ) (worker : Worker σ) (shared : Shared σ) : Prop where
  /-- Pages are enqueued in the order of their numbers. -/
  enqueued : (enqueued past).map Page.id = List.range' 1 (enqueued past).length
  /-- Tickets are answered in the order of their numbers. -/
  answered : answered past = List.range' 1 (answered past).length
  /-- A page in the worker's hands is the newest. -/
  newest : ∀ page ∈ worker.pages, page.id = (History.enqueued past).length + 1
  /-- Only the worker finishes the frontier or reports an error, and then it leaves. -/
  live : worker.stage.isOver = false →
    shared.frontier.tail ≠ .finished ∧ shared.report = none
  /-- Nobody else takes a ticket. -/
  seen : ∀ {seen}, worker.stage = .waiting (.advance seen) → shared.frontier.tail = .ticket seen
  read : ∀ {ticket retries tail}, worker.stage = .waiting (.rereadHead ticket retries tail) →
    tail = shared.frontier.tail
  /-- Nobody else enqueues a page. -/
  missed : ∀ {wait ticket}, worker.stage = .waiting wait → wait.missed? = some ticket →
    ∀ page ∈ waiting past, page.id ≠ ticket

/-! ## What follows at once -/

namespace Alone

/-- The pages that wait are the last ones enqueued. -/
theorem waiting_eq (alone : worker.Alone past shared) :
    waiting past = (History.enqueued past).drop (History.answered past).length := by
  rw [waiting, alone.answered, List.length_range']
  exact filter_notMem_range' alone.enqueued

/-- The oldest page that waits is that of the next ticket. -/
theorem id_of_waiting {rest : List (Page σ)} (alone : worker.Alone past shared)
    (waits : waiting past = page :: rest) : page.id = (History.answered past).length + 1 := by
  have first : (History.enqueued past)[(History.answered past).length]? = some page := by
    rw [← List.head?_drop, ← alone.waiting_eq, waits, List.head?_cons]
  have numbered := congrArg (·[(History.answered past).length]?) alone.enqueued
  simp only [List.getElem?_map, first, Option.map_some] at numbered
  obtain ⟨within, -⟩ := List.getElem?_eq_some_iff.mp first
  rw [List.getElem?_range' within, Option.some.injEq] at numbered
  rw [numbered, Nat.one_mul, Nat.add_comm]

/-- The pages that wait have different numbers. -/
theorem nodup_waiting (alone : worker.Alone past shared) : ((waiting past).map Page.id).Nodup := by
  apply (List.filter_sublist.map _).nodup
  rw [alone.enqueued]
  exact List.nodup_range'

/-- A page with the number of the next ticket that waits is the oldest. -/
theorem waiting_of_mem (alone : worker.Alone past shared) (waits : page ∈ waiting past)
    (next : page.id = (History.answered past).length + 1) :
    ∃ rest, waiting past = page :: rest := by
  cases all : waiting past with
  | nil =>
    rw [all] at waits
    cases waits
  | cons first rest =>
    rw [all] at waits
    rcases List.mem_cons.mp waits with rfl | later
    · exact ⟨rest, rfl⟩
    · exfalso
      have ids := alone.nodup_waiting
      rw [all, List.map_cons, List.nodup_cons] at ids
      apply ids.1
      rw [alone.id_of_waiting all, ← next]
      exact List.mem_map_of_mem later

/-- When the oldest page has been delivered, the others wait. -/
theorem waiting_delivered {rest : List (Page σ)} (alone : worker.Alone past shared)
    (waits : waiting past = page :: rest) :
    waiting (past ++ [.delivered page.id page]) = rest := by
  have ids := alone.nodup_waiting
  rw [waits, List.map_cons, List.nodup_cons] at ids
  rw [waiting_append_delivered, waits, List.filter_cons_of_neg (by simp), List.filter_eq_self]
  intro other member
  have apart : other.id ≠ page.id := fun same => ids.1 (same ▸ List.mem_map_of_mem member)
  simpa using apart

section

variable (sound : Pool.Sound model place past ⟨[worker], shared⟩)
  (watched : Pool.Watched past ⟨[worker], shared⟩)

include sound

theorem books :
    shared.frontier.Balanced model place shared.disk past worker.pages worker.tickets := by
  have books := sound.books
  simp only [Pool.hands, Pool.tickets, List.flatMap_cons, List.flatMap_nil, List.append_nil]
    at books
  exact books

theorem length_pages_le (alone : worker.Alone past shared) : worker.pages.length ≤ 1 := by
  have distinct := (books sound).nodup_ids.of_append_left.of_append_left
  have newest := alone.newest
  cases pages : worker.pages with
  | nil => simp
  | cons first rest =>
    rw [pages] at distinct newest
    cases rest with
    | nil => simp
    | cons second rest =>
      have same := (newest first (by simp)).trans (newest second (by simp)).symm
      simp [same] at distinct

/-- A worker that is about to enqueue a page holds no other. -/
theorem held_eq_none (alone : worker.Alone past shared) (ready : worker.stage.pages = [page]) :
    worker.held = none := by
  have single := alone.length_pages_le sound
  rw [pages, ready, List.length_append, List.length_singleton] at single
  exact Option.toList_eq_nil_iff.mp (List.length_eq_zero_iff.mp (by omega))

omit sound in
/-- A worker that has not left has lost nothing. -/
theorem quiet (watched : Pool.Watched past ⟨[worker], shared⟩)
    (busy : worker.stage.isOver = false) :
    forgone past = [] ∧ refused past = [] := by
  have left := watched.left
  have lost := watched.lost
  simp only [List.map_cons, List.map_nil, List.sum_cons, List.sum_nil, busy, Bool.toNat_false]
    at left lost
  exact ⟨List.length_eq_zero_iff.mp (by omega), List.length_eq_zero_iff.mp (by omega)⟩

include watched

theorem head_eq (busy : worker.stage.isOver = false) :
    shared.frontier.head = worker.pages.length + (History.enqueued past).length := by
  have ids := (books sound).length_ids
  rw [(quiet watched busy).2] at ids
  exact ids.symm

theorem tail_eq (alone : worker.Alone past shared) (busy : worker.stage.isOver = false) :
    shared.frontier.tail = .ticket (worker.tickets.length + (History.answered past).length) := by
  have tickets := (books sound).length_tickets
  rw [(quiet watched busy).1] at tickets
  rcases (books sound).tail with ended | still
  · exact absurd ended (alone.live busy).1
  · rw [still, ← tickets]
    rfl

/-- The ticket of the worker is the first that was not answered. -/
theorem ticket_eq (alone : worker.Alone past shared) (has : worker.stage.ticket? = some ticket) :
    ticket = (History.answered past).length + 1 := by
  have tickets : worker.tickets = [ticket] := by rw [Worker.tickets, has, Option.toList_some]
  have busy : worker.stage.isOver = false := by
    have one := worker.length_tickets_add
    rw [tickets, List.length_singleton] at one
    cases left : worker.stage.isOver with
    | false => rfl
    | true =>
      rw [left, Bool.toNat_true] at one
      omega
  have drawn := (books sound).tickets
  have length := (books sound).length_tickets
  have distinct := (books sound).nodup_tickets
  rw [tickets, (quiet watched busy).1] at drawn length distinct
  simp only [List.length_singleton, List.length_nil, List.append_nil, List.singleton_append,
    List.nodup_cons] at drawn length distinct
  have member : ticket ∈ History.drawn past := drawn.mem_iff.mp List.mem_cons_self
  have fresh := distinct.1
  rw [alone.answered, List.mem_range'_1] at fresh
  rw [(books sound).order, List.mem_range'_1] at member
  omega

/-- A worker that has looked in vain has been given every page that was enqueued. -/
theorem length_eq_of_missed (alone : worker.Alone past shared) {wait : Wait σ}
    (stage : worker.stage = .waiting wait) (missed : wait.missed? = some ticket) :
    (History.enqueued past).length = (History.answered past).length ∧
      ticket = (History.answered past).length + 1 := by
  have has : worker.stage.ticket? = some ticket := by
    rw [stage]
    cases wait <;> first | exact missed | cases missed
  have own := alone.ticket_eq sound watched has
  refine ⟨?_, own⟩
  have fewer := (books sound).length_answered_le
  by_contra more
  cases waits : waiting past with
  | nil =>
    rw [alone.waiting_eq, List.drop_eq_nil_iff] at waits
    omega
  | cons first rest =>
    refine alone.missed stage missed first (by simp [waits]) ?_
    rw [alone.id_of_waiting waits, own]

end

/-! ## Steps -/

/-- A step that neither enqueues nor delivers, and after which the worker does not wait with
anything in mind. -/
theorem move (alone : worker.Alone past shared) (noneEnqueued : History.enqueued events = [])
    (noneAnswered : History.answered events = [])
    (newest : ∀ page ∈ next.pages, page.id = (History.enqueued past).length + 1)
    (live : next.stage.isOver = false → after.frontier.tail ≠ .finished ∧ after.report = none)
    (mindless : ∀ {wait}, next.stage = .waiting wait →
      wait.missed? = none ∧ (∀ seen, wait ≠ .advance seen) ∧
        ∀ ticket retries tail, wait ≠ .rereadHead ticket retries tail) :
    next.Alone (past ++ events) after where
  enqueued := by simpa [noneEnqueued] using alone.enqueued
  answered := by simpa [noneAnswered] using alone.answered
  newest page member := by simpa [noneEnqueued] using newest page member
  live := live
  seen stage := absurd rfl ((mindless stage).2.1 _)
  read stage := absurd rfl ((mindless stage).2.2 _ _ _)
  missed stage missed := by
    rw [(mindless stage).1] at missed
    cases missed

/-- A page that the worker enqueues is the next in order. -/
theorem enqueue (alone : worker.Alone past shared) (mine : page ∈ worker.pages)
    (empty : next.pages = [])
    (live : next.stage.isOver = false → after.frontier.tail ≠ .finished ∧ after.report = none)
    (mindless : ∀ {wait}, next.stage = .waiting wait → ∃ ticket, wait = .look ticket 0) :
    next.Alone (past ++ [.enqueued page]) after where
  enqueued := by
    have own := alone.newest page mine
    have length : (History.enqueued (past ++ [.enqueued page])).length =
        (History.enqueued past).length + 1 := by simp
    rw [length, List.range'_concat, ← alone.enqueued]
    simp [own, Nat.add_comm]
  answered := by simpa using alone.answered
  newest page member := by
    rw [empty] at member
    cases member
  live := live
  seen stage := by
    obtain ⟨ticket, same⟩ := mindless stage
    cases same
  read stage := by
    obtain ⟨ticket, same⟩ := mindless stage
    cases same
  missed stage missed := by
    obtain ⟨ticket, rfl⟩ := mindless stage
    cases missed

end Alone

theorem Stowed.id_eq {node child : Node σ} {rest : List σ}
    (stowed : Stowed worker page node child rest next) (empty : worker.held = none) :
    ∀ other ∈ next.pages, other.id = page.id := by
  have grows {grown : Page σ} (added : page.add child = .ok grown) : grown.id = page.id := by
    obtain ⟨-, rfl⟩ := Page.add_eq_ok_iff.mp added
    rfl
  cases stowed with
  | bursts full => simp [pages]
  | fills added full => simpa [pages, empty] using grows added
  | holds added room => simpa [pages] using grows added

/-- An access of its call leaves a worker alone. -/
theorem Alone.access_step {wait : Wait σ} {accessed : Accessed σ}
    (alone : worker.Alone past shared)
    (sound : Pool.Sound model place past ⟨[worker], shared⟩)
    (watched : Pool.Watched past ⟨[worker], shared⟩) (stage : worker.stage = .waiting wait)
    (turn : Wait.Turn model worker.held shared.frontier shared.disk wait accessed events) :
    (worker.proceed accessed).Alone (past ++ events)
      { shared with frontier := accessed.frontier, disk := accessed.disk } := by
  have live := alone.live (by rw [stage]; rfl)
  have newest := alone.newest
  simp only [pages, stage, Stage.pages] at newest
  have missed := @alone.missed wait
  have books := Alone.books sound
  cases turn with
  | closed | ends | breaks =>
    exact alone.move rfl rfl (by simpa [proceed, pages, Stage.ending] using newest)
      (by simp [proceed, Stage.isOver, Stage.ending]) (by simp [proceed, Stage.ending])
  | chokes taken =>
    exact alone.move rfl rfl (by simpa [proceed, pages, Stage.ending] using newest)
      (by simp [proceed, Stage.isOver, Stage.ending]) (by simp [proceed, Stage.ending])
  | latches =>
    exact alone.move rfl rfl (by simpa [proceed, pages] using newest)
      (by simp [proceed, Stage.isOver]) (by simp [proceed])
  | @refuses _ _ stop =>
    have fewer : ∀ page ∈ worker.held.toList, page.id = (History.enqueued past).length + 1 :=
      fun page member => newest page (List.mem_append_left _ member)
    cases stop <;>
      exact alone.move rfl rfl (by simpa [proceed, pages, Stage.ending] using fewer)
        (by simp [proceed, Stage.isOver, Stage.ending]) (by simp [proceed, Stage.ending])
  | outrun =>
    exact alone.move rfl rfl (by simpa [proceed, pages] using newest) (fun _ => live)
      (by simp [proceed, Wait.missed?])
  | exhausts | retries =>
    exact alone.move rfl rfl (by simpa [proceed, pages] using newest) (fun _ => live)
      (by simp [proceed, Wait.missed?])
  | draws =>
    exact alone.move rfl rfl (by simpa [proceed, pages] using newest)
      (fun _ => ⟨by simp, live.2⟩) (by simp [proceed, Wait.missed?])
  | donates enqueued =>
    obtain ⟨memory, rfl⟩ := Frontier.eq_of_enqueue enqueued
    have empty := alone.held_eq_none sound (by rw [stage]; rfl)
    exact alone.enqueue (by simp [pages, stage]) (by simpa [proceed, pages] using empty)
      (fun _ => live) (by simp [proceed])
  | reads read =>
    rw [List.append_nil]
    exact {
      enqueued := alone.enqueued
      answered := alone.answered
      newest := newest
      live := fun _ => live
      seen := by
        rintro _ ⟨⟩
        exact read
      read := by rintro _ _ _ ⟨⟩
      missed := by rintro _ _ ⟨⟩ ⟨⟩ }
  | misses taken =>
    obtain ⟨-, -, absent⟩ := books.take_none taken
    obtain ⟨memory, rfl⟩ := Frontier.eq_of_take taken
    rw [List.append_nil]
    exact {
      enqueued := alone.enqueued
      answered := alone.answered
      newest := newest
      live := fun _ => live
      seen := by rintro _ ⟨⟩
      read := by rintro _ _ _ ⟨⟩
      missed := by
        rintro _ _ ⟨⟩ ⟨⟩
        exact absent }
  | @receives ticket _ received _ _ taken =>
    obtain ⟨memory, rfl⟩ := Frontier.eq_of_take taken
    have own := alone.ticket_eq sound watched (by rw [stage]; rfl)
    exact {
      enqueued := by simpa using alone.enqueued
      answered := by
        have one : History.answered [.delivered ticket received] = [ticket] := rfl
        rw [answered_append, one, List.length_append, List.length_singleton, List.range'_concat,
          ← alone.answered, own, Nat.one_mul, Nat.add_comm]
      newest := by simpa [proceed, receive, pages] using newest
      live := fun _ => live
      seen := by simp [proceed, receive]
      read := by simp [proceed, receive]
      missed := by simp [proceed, receive] }
  | rereads =>
    rw [List.append_nil]
    exact {
      enqueued := alone.enqueued
      answered := alone.answered
      newest := newest
      live := fun _ => live
      seen := by rintro _ ⟨⟩
      read := by
        rintro _ _ _ ⟨⟩
        rfl
      missed := by
        rintro _ _ ⟨⟩ ⟨⟩
        exact missed stage rfl }
  | yields holding =>
    rw [List.append_nil]
    exact {
      enqueued := alone.enqueued
      answered := alone.answered
      newest := by simpa [proceed, pages, holding] using newest
      live := fun _ => live
      seen := by rintro _ ⟨⟩
      read := by rintro _ _ _ ⟨⟩
      missed := by
        rintro _ _ ⟨⟩ ⟨⟩
        exact missed stage rfl }

/-- A step leaves a worker alone. -/
theorem Turn.alone (turn : Turn model worker shared next after events)
    (alone : worker.Alone past shared)
    (sound : Pool.Sound model place past ⟨[worker], shared⟩)
    (watched : Pool.Watched past ⟨[worker], shared⟩) : next.Alone (past ++ events) after := by
  have newest := alone.newest
  have live := alone.live
  cases turn with
  | rests => simpa using alone
  | accesses stage turn => exact alone.access_step sound watched stage turn
  | heeds stage | flushes stage | reports stage | latches stage | unwinds stage | overflows stage
    | sinks stage =>
    exact alone.move rfl rfl (by simpa [pages, stage] using newest) (by simp [Stage.isOver])
      (by simp)
  | @fails _ stop stage | @strands _ _ _ stop _ _ stage =>
    simp only [pages, stage, Stage.pages, List.mem_append] at newest
    cases stop <;>
      exact alone.move rfl rfl
        (by simpa [pages, Stage.ending] using fun page member => newest page (.inl member))
        (by simp [Stage.isOver, Stage.ending]) (by simp [Stage.ending])
  | idles stage | picks stage | expands stage | concludes stage | meets stage | skips stage =>
    exact alone.move rfl rfl (by simpa [pages, stage] using newest)
      (fun _ => live (by rw [stage]; rfl)) (by simp [Wait.missed?])
  | records stage room placed =>
    have open' := live (by rw [stage]; rfl)
    simp only [pages, stage, Stage.pages, List.append_nil] at newest
    cases placed with
    | keeps | seeks =>
      exact alone.move rfl rfl (by simpa [pages, noting] using newest) (fun _ => open') (by simp)
    | stows holding stowed =>
      have holds : worker.held = some _ := holding
      refine alone.move rfl rfl (fun page member => ?_) (fun _ => open')
        fun waits => absurd waits (stowed.stage_ne.2 _)
      rw [stowed.id_eq rfl page member]
      exact newest _ (by simp [holds])
  | claims stage stowed =>
    have busy : worker.stage.isOver = false := by rw [stage]; rfl
    have empty := (sound.orderly worker (by simp)).claiming stage
    refine alone.move rfl rfl (fun page member => ?_) (fun _ => live busy)
      fun waits => absurd waits (stowed.stage_ne.2 _)
    rw [stowed.id_eq empty page member]
    show shared.frontier.head + 1 = _
    rw [Alone.head_eq sound watched busy]
    simp [pages, empty, stage]
  | publishes stage enqueued =>
    obtain ⟨memory, rfl⟩ := Frontier.eq_of_enqueue enqueued
    have empty := alone.held_eq_none sound (by rw [stage]; rfl)
    exact alone.enqueue (by simp [pages, stage]) (by simpa [pages] using empty)
      (fun _ => live (by rw [stage]; rfl)) (by simp)

/-! ## What an access can lead to -/

/-- The ways in which an access can turn out for a worker that is alone, if the pages that wait can
be read and none is refused. -/
inductive Access (past : History σ) (held : Option (Page σ)) (frontier : Frontier σ) (disk : Disk) :
    Wait σ → Accessed σ → History σ → Prop where
  /-- The worker is about to take the next ticket. -/
  | reads {last : Nat} (tail : frontier.tail = .ticket last) :
      Access past held frontier disk .readTail ⟨.waiting (.advance last), held, frontier, disk⟩ []
  /-- The worker takes the next ticket. -/
  | draws {last : Nat} (tail : frontier.tail = .ticket last) :
      Access past held frontier disk (.advance last)
        ⟨.waiting (.look (last + 1) 0), held, { frontier with tail := .ticket (last + 1) }, disk⟩
        [.drawn (last + 1)]
  /-- The oldest page that waits is the one that the worker looks for. -/
  | receives {ticket retries : Nat} {page : Page σ} {rest : List (Page σ)} {memory : Memory σ}
      {final : Disk} (waits : waiting past = page :: rest) (same : page.id = ticket) :
      Access past held frontier disk (.look ticket retries)
        ⟨.delivered page, held, { frontier with memory := memory }, final⟩ [.delivered ticket page]
  /-- No page waits. -/
  | misses {ticket retries : Nat} {memory : Memory σ} (nothing : waiting past = []) :
      Access past held frontier disk (.look ticket retries)
        ⟨.waiting (.rereadTail ticket retries), held, { frontier with memory := memory }, disk⟩ []
  | rereads {ticket retries : Nat} :
      Access past held frontier disk (.rereadTail ticket retries)
        ⟨.waiting (.rereadHead ticket retries frontier.tail), held, frontier, disk⟩ []
  /-- Nothing is left. -/
  | exhausts {ticket retries : Nat} {tail : Tail} (empty : held = none)
      (nothing : waiting past = []) :
      Access past held frontier disk (.rereadHead ticket retries tail)
        ⟨.waiting (.latch ticket), held, frontier, disk⟩ []
  /-- The worker holds the page that it looks for. -/
  | yields {ticket retries : Nat} {tail : Tail} {page : Page σ} (holding : held = some page)
      (same : page.id = ticket) :
      Access past held frontier disk (.rereadHead ticket retries tail)
        ⟨.waiting (.donate ticket page), none, frontier, disk⟩ []
  | latches {ticket : Nat} :
      Access past held frontier disk (.latch ticket) ⟨.finished, held, frontier.finish, disk⟩
        [.forgone ticket]
  /-- The page that the worker looks for is the only one that waits now. -/
  | donates {ticket : Nat} {page : Page σ} {memory : Memory σ} {final : Disk}
      (empty : held = none) (same : page.id = ticket) (fresh : page.id ∉ History.answered past)
      (nothing : waiting past = []) :
      Access past held frontier disk (.donate ticket page)
        ⟨.waiting (.look ticket 0), held, { frontier with memory := memory }, final⟩
        [.enqueued page]

/-- An access of a worker that is alone turns out in one of the ways listed. -/
theorem Alone.access {wait : Wait σ} {accessed : Accessed σ} (alone : worker.Alone past shared)
    (sound : Pool.Sound model place past ⟨[worker], shared⟩)
    (watched : Pool.Watched past ⟨[worker], shared⟩)
    (restores : ∀ node ∈ nodesOn (waiting past), model.Restores node.state)
    (kept : refused events = []) (stage : worker.stage = .waiting wait)
    (turn : Wait.Turn model worker.held shared.frontier shared.disk wait accessed events) :
    Access past worker.held shared.frontier shared.disk wait accessed events := by
  have books := Alone.books sound
  have busy : worker.stage.isOver = false := by rw [stage]; rfl
  have live := alone.live busy
  have head := Alone.head_eq sound watched busy
  have tail := alone.tail_eq sound watched busy
  have crew : shared.frontier.workers = 1 := watched.crew.symm
  -- Whoever has looked in vain has been given all pages; then `tail` exceeds `head` by one if the
  -- worker holds no page, and equals it otherwise.
  have missing {ticket : Nat} (missed : wait.missed? = some ticket) :
      waiting past = [] ∧ ticket = (History.enqueued past).length + 1 ∧
        shared.frontier.tail = .ticket ((History.enqueued past).length + 1) := by
    obtain ⟨same, own⟩ := alone.length_eq_of_missed sound watched stage missed
    have has : worker.tickets.length = 1 := by
      rw [Worker.tickets, stage]
      cases wait <;> first | rfl | cases missed
    refine ⟨by rw [alone.waiting_eq, ← same, List.drop_length], by omega, ?_⟩
    rw [tail, has, same, Nat.add_comm]
  have newest := alone.newest
  have single := alone.length_pages_le sound
  simp only [pages, stage, Stage.pages] at newest head single
  cases turn with
  | closed ended => exact absurd ended live.1
  | reads read => exact .reads read
  | draws unchanged => exact .draws unchanged
  | outrun changed => exact absurd (alone.seen stage) changed
  | misses taken =>
    obtain ⟨-, rfl, absent⟩ := books.take_none taken
    obtain ⟨memory, rfl⟩ := Frontier.eq_of_take taken
    refine .misses ?_
    cases waits : waiting past with
    | nil => rfl
    | cons first rest =>
      have own := alone.ticket_eq sound watched (by rw [stage]; rfl)
      exact absurd ((alone.id_of_waiting waits).trans own.symm) (absent first (by simp [waits]))
  | receives taken =>
    obtain ⟨page, waits, same, answers⟩ := books.take_waiting taken
    obtain ⟨memory, rfl⟩ := Frontier.eq_of_take taken
    obtain rfl := books.eq_of_waiting waits
      (fun node member => (restores node (mem_nodesOn.mpr ⟨page, waits, member⟩)).faithful) answers
    have own := alone.ticket_eq sound watched (by rw [stage]; rfl)
    obtain ⟨rest, all⟩ := alone.waiting_of_mem waits (same.trans own)
    exact .receives all same
  | chokes taken =>
    obtain ⟨node, waits, lost⟩ := books.exists_node_of_take_error taken
    exact absurd (restores node waits) lost
  | rereads => exact .rereads
  | ends => exact absurd (alone.read stage).symm live.1
  | exhausts empty =>
    obtain ⟨nothing, -, -⟩ := missing rfl
    exact .exhausts empty nothing
  | breaks holding exhausted =>
    obtain ⟨-, -, last⟩ := missing rfl
    have same := (alone.read stage).trans last
    rw [exhausted_ticket_iff, head, crew, holding, Tail.ticket.inj same] at exhausted
    simp at exhausted
  | retries going patient =>
    obtain ⟨-, -, last⟩ := missing rfl
    have same := Tail.ticket.inj ((alone.read stage).trans last)
    rcases patient with ⟨empty, -⟩ | ⟨behind, -⟩
    · rw [exhausted_ticket_iff.mpr] at going
      · cases going
      · rw [same, head, crew, empty]
        simp
    · simp only [Wait.pages, List.append_nil] at single head
      omega
  | yields holding =>
    obtain ⟨-, own, -⟩ := missing rfl
    refine .yields holding ?_
    rw [own]
    exact newest _ (by simp [holding])
  | latches => exact .latches
  | donates enqueued =>
    obtain ⟨nothing, own, -⟩ := missing rfl
    obtain ⟨memory, rfl⟩ := Frontier.eq_of_enqueue enqueued
    have empty := alone.held_eq_none sound (by rw [stage]; rfl)
    refine .donates empty ?_ (books.notMem_answered (by simp [pages, stage])) nothing
    rw [own]
    exact newest _ (by simp)
  | refuses => simp at kept

end Worker

/-! ## Pools with a single worker -/

namespace Pool

variable {model : Model σ} {pool : Pool σ} {worker : Worker σ}

theorem stepAt_of_single (single : pool.workers = [worker]) :
    pool.stepAt model 0 =
      ⟨[(worker.step model pool.shared).1], (worker.step model pool.shared).2⟩ := by
  simp [stepAt, single]

/-- Nobody else makes a step. -/
theorem stepAt_of_ne_zero (single : pool.workers = [worker]) {position : Nat}
    (other : position ≠ 0) :
    pool.stepAt model position = pool ∧ pool.eventsAt model position = [] := by
  obtain ⟨earlier, rfl⟩ := Nat.exists_eq_succ_of_ne_zero other
  simp [stepAt, eventsAt, single]

/-- A pool whose workers have come to their ends stays as it is. -/
theorem stepAt_of_isSettled (settled : pool.isSettled = true) (position : Nat) :
    pool.stepAt model position = pool := by
  unfold stepAt
  split
  · rfl
  · rename_i worker found
    have final : worker.stage.isFinal = true :=
      List.all_eq_true.mp settled worker (List.mem_of_getElem? found)
    obtain ⟨same, alike, -⟩ := (worker.turn_step model pool.shared).of_isFinal final
    simp only [same, alike, set_eq_self found]

theorem follow_of_isSettled (settled : pool.isSettled = true) (schedule : List Nat) :
    pool.follow model schedule = pool := by
  induction schedule with
  | nil => rfl
  | cons position rest ih =>
    show (pool.stepAt model position).follow model rest = pool
    rw [stepAt_of_isSettled settled, ih]

/-- A single worker makes one step in each round. -/
theorem rounds_eq_follow (single : pool.workers.length = 1) (limit : Nat) :
    rounds model limit pool = pool.follow model (List.replicate limit 0) := by
  induction limit generalizing pool with
  | zero => rfl
  | succ limit ih =>
    rw [rounds]
    split
    · rename_i settled
      rw [follow_of_isSettled settled]
    · have same : pool.round model = pool.follow model [0] := by rw [round, single]; rfl
      rw [ih (by rw [same, length_follow, single]), same, ← follow_append]
      rfl

/-- A single worker that comes to its end within the rounds stays there. -/
theorem rounds_of_isSettled (single : pool.workers.length = 1) {steps limit : Nat}
    (settled : (pool.follow model (List.replicate steps 0)).isSettled = true)
    (few : steps ≤ limit) :
    rounds model limit pool = pool.follow model (List.replicate steps 0) := by
  obtain ⟨more, rfl⟩ := Nat.exists_eq_add_of_le few
  rw [rounds_eq_follow single, List.replicate_add, follow_append, follow_of_isSettled settled]

end Pool

end Wavefront
