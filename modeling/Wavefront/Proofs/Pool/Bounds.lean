/-
# How much is kept in memory

Nodes wait in three places that take memory: the backlogs of workers, the pages that they keep,
and the pages up to the budget. `Pool.Bounded` bounds each of them. A backlog may exceed its limit
only by what a page brings, because a page is received into a backlog that is empty; a page that is
kept leaves as soon as it is full; and the budget, which is a bound on page numbers, is a bound on
pages because numbers are handed out once.
-/

import Wavefront.Proofs.Pool.Mishaps

namespace Wavefront

open History

variable {σ : Type}

/-! ## Capacities -/

namespace Frontier

/-- The largest capacity of a page whose number was handed out. -/
def largest (frontier : Frontier σ) : Nat :=
  ((List.range' 1 frontier.head).map frontier.sizing.capacity).max?.getD 0

theorem capacity_le_largest {frontier : Frontier σ} {id : PageId}
    (claimed : id ∈ List.range' 1 frontier.head) :
    frontier.sizing.capacity id ≤ frontier.largest :=
  List.le_max?_getD_of_mem (List.mem_map_of_mem claimed)

/-- Handing out more numbers does not make the largest capacity smaller. -/
theorem largest_mono {earlier later : Frontier σ} (sizing : later.sizing = earlier.sizing)
    (head : earlier.head ≤ later.head) : earlier.largest ≤ later.largest := by
  rw [largest]
  cases greatest : ((List.range' 1 earlier.head).map earlier.sizing.capacity).max? with
  | none => exact Nat.zero_le _
  | some capacity =>
    obtain ⟨id, claimed, rfl⟩ := List.mem_map.mp (List.max?_mem greatest)
    rw [Option.getD_some, ← sizing]
    apply capacity_le_largest
    rw [List.mem_range'_1] at claimed ⊢
    omega

variable {model : Model σ} {place : Location} {frontier after : Frontier σ} {disk final : Disk}
  {past : History σ} {hands : List (Page σ)} {tickets : List Nat} {ticket : Nat}

/-- Whatever comes out for a page, there is no more on it than fits on the largest page. -/
theorem Balanced.size_le_largest {answer : Page σ}
    (balanced : Balanced model place frontier disk past hands tickets)
    (taken : frontier.take model ticket disk = (.ok (some answer), after, final)) :
    answer.size ≤ frontier.largest := by
  obtain ⟨page, waits, -, answers⟩ := balanced.take_waiting taken
  have there := (mem_waiting.mp waits).1
  have claimed : page.id ∈ List.range' 1 frontier.head :=
    balanced.ids.mem_iff.mp (List.mem_append_left _
      (List.mem_append_right _ (List.mem_map_of_mem there)))
  have fits := balanced.fits page (List.mem_append_right _ there)
  refine le_trans ?_ (capacity_le_largest claimed)
  unfold Answers at answers
  split at answers
  · rw [answers, ← fits.capacity]
    exact fits.size
  · exact (Page.size_of_ofImage answers).2

/-- There are no more pages in memory than numbers within the budget. -/
theorem Balanced.resident_le (balanced : Balanced model place frontier disk past hands tickets) :
    frontier.memory.resident ≤ frontier.memoryPages := by
  have within : frontier.memory.pages.keys ⊆ List.range' 1 frontier.memoryPages := by
    intro id key
    obtain ⟨page, found⟩ : ∃ page, frontier.memory.pages[id]? = some page := by
      rw [Std.ExtTreeMap.mem_keys, ← Std.ExtTreeMap.isSome_getElem?_iff_mem,
        Option.isSome_iff_exists] at key
      exact key
    obtain ⟨waits, rfl, kept⟩ := (balanced.stocks.memory id page).mp found
    have claimed : page.id ∈ List.range' 1 frontier.head :=
      balanced.ids.mem_iff.mp (List.mem_append_left _
        (List.mem_append_right _ (List.mem_map_of_mem (mem_waiting.mp waits).1)))
    rw [List.mem_range'_1] at claimed ⊢
    exact ⟨claimed.1, Nat.lt_one_add_iff.mpr (of_decide_eq_true kept)⟩
  have few := (Std.ExtTreeMap.nodup_keys.subperm within).length_le
  rwa [Std.ExtTreeMap.length_keys, List.length_range'] at few

end Frontier

/-! ## Workers -/

namespace Worker

variable {model : Model σ} {place : Location} {worker next : Worker σ} {shared after : Shared σ}
  {past events : History σ} {hands : List (Page σ)} {tickets : List Nat} {page : Page σ}
  {node child : Node σ} {rest : List σ} {limit : Nat}

/-- The backlog of a worker exceeds the worker's limit at most by what was on one page. -/
structure Modest (limit : Nat) (frontier : Frontier σ) (worker : Worker σ) : Prop where
  localLimit : worker.localLimit = limit
  backlog : worker.backlog.size ≤ max limit frontier.largest

theorem Modest.mono {earlier later : Frontier σ} (modest : worker.Modest limit earlier)
    (more : earlier.largest ≤ later.largest) : worker.Modest limit later :=
  ⟨modest.localLimit, modest.backlog.trans (by omega)⟩

theorem Stowed.modest {frontier : Frontier σ} (stowed : Stowed worker page node child rest next)
    (modest : worker.Modest limit frontier) : next.Modest limit frontier := by
  cases stowed <;> exact ⟨modest.localLimit, modest.backlog⟩

theorem Turn.largest_le (turn : Turn model worker shared next after events) :
    shared.frontier.largest ≤ after.frontier.largest := by
  obtain ⟨_, _, _, same, head, -⟩ := turn.frontier_eq
  rw [same]
  exact Frontier.largest_mono rfl head

/-- A worker puts a node into a backlog that is below its limit, or a page into an empty one. -/
theorem Turn.modest (turn : Turn model worker shared next after events) (orderly : worker.Orderly)
    (books : shared.frontier.Balanced model place shared.disk past hands tickets)
    (modest : worker.Modest limit shared.frontier) : next.Modest limit after.frontier := by
  suffices now : next.Modest limit shared.frontier from now.mono turn.largest_le
  cases turn with
  | rests => exact modest
  | heeds | idles | fails | overflows | expands | concludes | meets | skips | sinks | publishes
    | strands | flushes | reports | latches | unwinds => exact ⟨modest.localLimit, modest.backlog⟩
  | @picks node backlog stage taken =>
    refine ⟨modest.localLimit, le_trans ?_ modest.backlog⟩
    rw [Fifo.size_eq_length, Fifo.size_eq_length, taken]
    exact Nat.le_succ _
  | accesses stage turn =>
    cases turn with
    | closed | reads | draws | outrun | misses | chokes | rereads | ends | exhausts | breaks
      | retries | yields | latches | donates | refuses => exact ⟨modest.localLimit, modest.backlog⟩
    | receives taken =>
      refine ⟨modest.localLimit, le_trans ?_ (Nat.le_max_right _ _)⟩
      show (worker.backlog.pushAll _).size ≤ _
      rw [Fifo.size_eq_length, Fifo.toList_pushAll, orderly.waiting stage, List.nil_append,
        Array.length_toList]
      exact books.size_le_largest taken
  | records stage room placed =>
    cases placed with
    | keeps less =>
      have limited : worker.localLimit = limit := modest.localLimit
      have below : worker.backlog.size < worker.localLimit := less
      exact ⟨limited, le_trans (limited ▸ below) (Nat.le_max_left _ _)⟩
    | seeks => exact ⟨modest.localLimit, modest.backlog⟩
    | stows holding stowed => exact stowed.modest ⟨modest.localLimit, modest.backlog⟩
  | claims stage stowed => exact stowed.modest modest

/-- A mishap puts nothing into a backlog. -/
theorem Failing.modest (failing : Failing model worker shared next after events)
    (modest : worker.Modest limit shared.frontier) : next.Modest limit after.frontier := by
  obtain ⟨⟨_, _, rfl⟩, _, rfl⟩ := failing.eq
  exact ⟨modest.localLimit, modest.backlog⟩

end Worker

/-! ## Pools -/

namespace Pool

variable {model : Model σ} {place : Location} {limit : Nat} {past events : History σ}
  {pool : Pool σ} {position : Nat} {worker next : Worker σ} {shared : Shared σ}

/-- What is kept in memory is bounded by the settings and by the largest page so far. -/
structure Bounded (model : Model σ) (settings : Settings) (past : History σ) (pool : Pool σ) :
    Prop where
  backlog : ∀ worker ∈ pool.workers,
    worker.backlog.size ≤ max settings.localBacklog pool.shared.frontier.largest
  /-- A page that a worker keeps holds something and has room for something. -/
  held : ∀ worker ∈ pool.workers, ∀ page, worker.held = some page →
    page.capacity = settings.pageSizing.capacity page.id ∧
      1 ≤ page.size ∧ page.size ≤ page.capacity - 1
  resident : pool.shared.frontier.memory.resident ≤ settings.inMemoryPages
  /-- A page in memory is one that waits, and its number is within the budget. -/
  memory : ∀ id page, pool.shared.frontier.memory.pages[id]? = some page →
    page ∈ waiting past ∧ page.id = id ∧ id ≤ settings.inMemoryPages ∧
      page.capacity = settings.pageSizing.capacity id ∧ page.size ≤ page.capacity
  /-- A page that waits and is not in memory is whole in its file. -/
  spilled : ∀ page ∈ waiting past, pool.shared.frontier.memory.pages[page.id]? = some page ∨
    settings.inMemoryPages < page.id ∧
      pool.shared.disk.read (pool.shared.frontier.spill.directory.child (Page.fileName page.id)) =
        .ok (page.image model).bytes

/-- What the bounds follow from, at any moment. -/
structure Confined (model : Model σ) (place : Location) (limit : Nat) (past : History σ)
    (pool : Pool σ) : Prop where
  sound : Sound model place past pool
  positive : ∀ id, 0 < pool.shared.frontier.sizing.capacity id
  provided : ∀ worker ∈ pool.workers, worker.Provided
  modest : ∀ worker ∈ pool.workers, worker.Modest limit pool.shared.frontier

theorem Confined.step (found : pool.workers[position]? = some worker)
    (turn : worker.Turn model pool.shared next shared events)
    (confined : Confined model place limit past pool) :
    Confined model place limit (past ++ events) ⟨pool.workers.set position next, shared⟩ := by
  have member := List.mem_of_getElem? found
  have books := confined.sound.split found
  have orderly := confined.sound.orderly worker member
  have fits : ∀ page ∈ worker.pages, page.Fits pool.shared.frontier.sizing := fun page mine =>
    books.fits page (List.mem_append_left _ (List.mem_append_left _ mine))
  obtain ⟨_, _, _, same, -⟩ := turn.frontier_eq
  refine ⟨confined.sound.step found turn, ?_, ?_, ?_⟩
  · show ∀ id, 0 < shared.frontier.sizing.capacity id
    rw [same]
    exact confined.positive
  · exact forall_mem_set confined.provided
      (turn.provided (confined.provided worker member) orderly fits confined.positive)
  · exact forall_mem_set (fun other among => (confined.modest other among).mono turn.largest_le)
      (turn.modest orderly books (confined.modest worker member))

theorem Confined.of_failing (found : pool.workers[position]? = some worker)
    (failing : worker.Failing model pool.shared next shared events)
    (confined : Confined model place limit past pool) :
    Confined model place limit (past ++ events) ⟨pool.workers.set position next, shared⟩ := by
  have member := List.mem_of_getElem? found
  have sound := confined.sound.of_failing found failing
  have provided := failing.provided (confined.provided worker member)
  have modest := failing.modest (confined.modest worker member)
  obtain ⟨-, disk, rfl⟩ := failing.eq
  exact ⟨sound, confined.positive, forall_mem_set confined.provided provided,
    forall_mem_set confined.modest modest⟩

theorem Confined.bounded {settings : Settings}
    (confined : Confined model place settings.localBacklog past pool)
    (sizing : pool.shared.frontier.sizing = settings.pageSizing)
    (budget : pool.shared.frontier.memoryPages = settings.inMemoryPages) :
    pool.Bounded model settings past := by
  have books := confined.sound.books
  refine ⟨fun worker member => (confined.modest worker member).backlog,
    fun worker member page holding => ?_, budget ▸ books.resident_le, fun id page found => ?_,
    fun page waits => ?_⟩
  · have mine : page ∈ worker.pages := List.mem_append_left _ (Option.mem_toList.mpr holding)
    have fits := books.fits page
      (List.mem_append_left _ (List.mem_flatMap.mpr ⟨worker, member, mine⟩))
    have some := (confined.provided worker member).filled page mine
    have room := (confined.provided worker member).lt_capacity holding fits
    exact ⟨sizing ▸ fits.capacity, some, by omega⟩
  · obtain ⟨waits, rfl, kept⟩ := (books.stocks.memory id page).mp found
    have fits := books.fits page (List.mem_append_right _ (mem_waiting.mp waits).1)
    exact ⟨waits, rfl, budget ▸ of_decide_eq_true kept, sizing ▸ fits.capacity, fits.size⟩
  · by_cases kept : pool.shared.frontier.keepsInMemory page.id = true
    · exact .inl ((books.stocks.memory page.id page).mpr ⟨waits, rfl, kept⟩)
    · have filed : page ∈ {page | page ∈ {page | page ∈ waiting past} ∧
          pool.shared.frontier.keepsInMemory page.id = false} := ⟨waits, by simpa using kept⟩
      obtain ⟨stamp, stored⟩ := books.stocks.files.stored page filed
      have located := books.stocks.files.located page filed
      refine .inr ⟨?_, Disk.read_eq_ok_iff.mpr ⟨_, stamp, located, stored⟩⟩
      rw [← budget]
      simpa [Frontier.keepsInMemory] using kept

end Pool

end Wavefront
