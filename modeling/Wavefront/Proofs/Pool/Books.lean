/-
# The books of a pool

The events of a run are those of the workers' steps in the order of the schedule. What
holds of a pool at the beginning and is preserved by every step of every worker holds
along every schedule; `follow_induction` says so once and for all.

The frontier's books are then kept for a pool as a whole, whose hands are those of all
its workers. A worker also writes to its own log, which is no page file.
-/

import Wavefront.Proofs.Frontier.Balance
import Wavefront.Proofs.Parties
import Wavefront.Proofs.Trace.Logs
import Wavefront.Proofs.Worker.Turn
import Wavefront.Worker.Pool

namespace Wavefront

open History

variable {σ : Type}

/-! ## Workers -/

namespace Worker

variable {model : Model σ} {place : Location} {worker next : Worker σ} {shared after : Shared σ}
  {past events : History σ} {hands : List (Page σ)} {tickets : List Nat} {page : Page σ}
  {node child : Node σ} {rest : List σ}

/-- A worker claims a page only if it holds none, and waits only if it has nothing else to do. -/
structure Orderly (worker : Worker σ) : Prop where
  claiming : ∀ {node child rest}, worker.stage = .claiming node child rest → worker.held = none
  waiting : ∀ {wait}, worker.stage = .waiting wait → worker.backlog.toList = []

theorem Stowed.stage_ne (stowed : Stowed worker page node child rest next) :
    (∀ node child rest, next.stage ≠ .claiming node child rest) ∧
      ∀ wait, next.stage ≠ .waiting wait := by
  cases stowed <;> simp

theorem Turn.orderly (turn : Turn model worker shared next after events)
    (orderly : worker.Orderly) :
    next.Orderly := by
  cases turn with
  | rests => exact orderly
  | heeds | picks | overflows | expands | concludes | meets | skips | sinks | publishes | flushes
    | reports | latches | unwinds => exact ⟨by simp, by simp⟩
  | idles stage empty => exact ⟨by simp, fun _ => empty⟩
  | @fails node stop _ _ => cases stop <;> exact ⟨by simp [Stage.ending], by simp [Stage.ending]⟩
  | @strands node _ _ stop _ _ _ _ =>
    cases stop <;> exact ⟨by simp [Stage.ending], by simp [Stage.ending]⟩
  | @accesses wait after events stage turn =>
    rcases after with ⟨progress, held, frontier, disk⟩
    cases progress with
    | waiting wait => exact ⟨by simp [proceed], fun _ => orderly.waiting stage⟩
    | delivered page => exact ⟨by simp [proceed, receive], by simp [proceed, receive]⟩
    | finished => exact ⟨by simp [proceed], by simp [proceed]⟩
    | stopped stop => cases stop <;>
      exact ⟨by simp [proceed, Stage.ending], by simp [proceed, Stage.ending]⟩
  | records stage room placed =>
    cases placed with
    | keeps => exact ⟨by simp, by simp⟩
    | seeks empty => exact ⟨fun _ => empty, by simp⟩
    | stows holding stowed =>
      exact ⟨fun claiming => absurd claiming (stowed.stage_ne.1 _ _ _),
        fun waiting => absurd waiting (stowed.stage_ne.2 _)⟩
  | claims stage stowed =>
    exact ⟨fun claiming => absurd claiming (stowed.stage_ne.1 _ _ _),
      fun waiting => absurd waiting (stowed.stage_ne.2 _)⟩

/-- A page that takes a node stays in the hands of the worker. -/
theorem Stowed.balanced {frontier : Frontier σ} {disk : Disk}
    (stowed : Stowed worker page node child rest next) (empty : worker.held = none)
    (balanced : frontier.Balanced model place disk past (page :: hands) tickets) :
    frontier.Balanced model place disk past (next.pages ++ hands) (next.tickets ++ tickets) := by
  cases stowed with
  | bursts full => exact balanced
  | fills added full =>
    simp only [pages, empty]
    exact balanced.add added
  | holds added room => exact balanced.add added

/-- A step of a worker moves at most one page and one ticket from account to account. -/
theorem Turn.balanced (turn : Turn model worker shared next after events) (orderly : worker.Orderly)
    (apart : ¬ Spill.PageFileIn place worker.log.handle.place)
    (balanced : shared.frontier.Balanced model place shared.disk past (worker.pages ++ hands)
      (worker.tickets ++ tickets)) :
    after.frontier.Balanced model place after.disk (past ++ events) (next.pages ++ hands)
      (next.tickets ++ tickets) := by
  have quiet (same : next.pages = worker.pages) (alike : next.tickets = worker.tickets) :
      shared.frontier.Balanced model place shared.disk (past ++ []) (next.pages ++ hands)
        (next.tickets ++ tickets) := by
    rw [same, alike, List.append_nil]
    exact balanced
  cases turn with
  | rests => exact quiet rfl rfl
  | @fails node stop stage failed =>
    cases stop <;> exact quiet (by simp [pages, stage, Stage.ending])
      (by simp [Worker.tickets, stage, Stage.ending])
  | heeds stage | idles stage | picks stage | overflows stage | expands stage
    | concludes stage | meets stage | skips stage | sinks stage | reports stage =>
    exact quiet (by simp [pages, stage]) (by simp [Worker.tickets, stage])
  | @accesses wait after events stage turn =>
    simp only [pages, Worker.tickets, stage, Stage.pages, Stage.ticket?] at balanced
    obtain ⟨moved, -⟩ := turn.balanced balanced
    rcases after with ⟨progress, held, frontier, disk⟩
    cases progress with
    | waiting wait => simpa [proceed, pages, Worker.tickets] using moved
    | delivered page => simpa [proceed, receive, pages, Worker.tickets] using moved
    | finished => simpa [proceed, pages, Worker.tickets] using moved
    | stopped stop =>
      cases stop <;> simpa [proceed, pages, Worker.tickets, Stage.ending] using moved
  | @records node state _ _ stage room placed =>
    have recorded := balanced.append_recorded (some node) (worker.discovery model node state)
    simp only [pages, Worker.tickets, stage, Stage.pages, Stage.ticket?] at recorded
    cases placed with
    | keeps => exact recorded
    | seeks empty => exact recorded
    | stows holding stowed =>
      have holds : worker.held = some _ := holding
      rw [holds] at recorded
      exact stowed.balanced rfl recorded
  | claims stage stowed =>
    have empty := orderly.claiming stage
    simp only [pages, Worker.tickets, stage, empty, Stage.pages, Stage.ticket?] at balanced
    rw [List.append_nil]
    exact stowed.balanced empty balanced.claim
  | publishes stage enqueued =>
    simp only [pages, Worker.tickets, stage, Stage.pages, Stage.ticket?] at balanced
    simpa [pages, Worker.tickets] using (balanced.front.enqueue enqueued).1
  | @strands _ _ _ stop _ _ stage enqueued =>
    simp only [pages, Worker.tickets, stage, Stage.pages, Stage.ticket?] at balanced
    have refused := (balanced.front.refuse enqueued).1
    cases stop <;> simpa [pages, Worker.tickets, Stage.ending] using refused
  | flushes stage =>
    have flushed := balanced.of_changes (worker.log.changes_flush shared.disk)
      (fun target file same => apart (same ▸ file))
    simpa [pages, Worker.tickets, stage] using flushed
  | latches stage | unwinds stage =>
    simpa [pages, Worker.tickets, stage] using balanced.finish

theorem Turn.handle_eq (turn : Turn model worker shared next after events) :
    next.log.handle = worker.log.handle := by
  cases turn with
  | accesses stage turn =>
    rename_i after
    rcases after with ⟨progress, held, frontier, disk⟩
    cases progress <;> rfl
  | records stage room placed =>
    cases placed with
    | keeps | seeks => rfl
    | stows holding stowed => cases stowed <;> rfl
  | claims stage stowed => cases stowed <;> rfl
  | flushes stage => exact worker.log.handle_flush shared.disk
  | rests | heeds | idles | picks | fails | overflows | expands | concludes | meets | skips | sinks
    | publishes | strands | reports | latches | unwinds => rfl

end Worker

/-! ## Pools -/

namespace Pool

/-- The events that the next step of the worker at a position stands for. -/
def eventsAt (model : Model σ) (pool : Pool σ) (position : Nat) : History σ :=
  match pool.workers[position]? with
  | none => []
  | some worker => worker.events model pool.shared

/-- The events of the steps that workers make in the order of a schedule. -/
def events (model : Model σ) : (schedule : List Nat) → Pool σ → History σ
  | [], _ => []
  | position :: rest, pool =>
      pool.eventsAt model position ++ events model rest (pool.stepAt model position)

variable {model : Model σ}

theorem events_append (first second : List Nat) (pool : Pool σ) :
    pool.events model (first ++ second) =
      pool.events model first ++ (pool.follow model first).events model second := by
  induction first generalizing pool with
  | nil => rfl
  | cons position rest ih =>
    rw [List.cons_append, events, events, ih, List.append_assoc]
    rfl

/-- What every step of every worker preserves is preserved along every schedule. -/
theorem follow_induction (invariant : History σ → Pool σ → Prop)
    (preserved : ∀ {past : History σ} {pool : Pool σ} {position : Nat} {worker next : Worker σ}
      {shared : Shared σ} {events : History σ}, pool.workers[position]? = some worker →
      worker.Turn model pool.shared next shared events → invariant past pool →
      invariant (past ++ events) ⟨pool.workers.set position next, shared⟩)
    {past : History σ} {pool : Pool σ} (start : invariant past pool) (schedule : List Nat) :
    invariant (past ++ pool.events model schedule) (pool.follow model schedule) := by
  induction schedule generalizing past pool with
  | nil => simpa [events, follow] using start
  | cons position rest ih =>
    rw [events, ← List.append_assoc]
    apply ih
    rcases found : pool.workers[position]? with _ | worker
    · simpa [eventsAt, stepAt, found] using start
    · simp only [eventsAt, stepAt, found]
      exact preserved found (worker.turn_step model pool.shared) start

/-- Nobody joins a pool, and nobody is taken from it. -/
theorem length_follow (model : Model σ) (pool : Pool σ) (schedule : List Nat) :
    (pool.follow model schedule).workers.length = pool.workers.length :=
  @follow_induction σ model (fun _ later => later.workers.length = pool.workers.length)
    (fun _ _ same => by rwa [List.length_set]) [] pool rfl schedule

/-- The pages in the hands of workers. -/
def hands (pool : Pool σ) : List (Page σ) := pool.workers.flatMap Worker.pages

/-- The tickets that workers wait on. -/
def tickets (pool : Pool σ) : List Nat := pool.workers.flatMap Worker.tickets

/-- The frontier's books are in balance, every worker is orderly, and none writes to a page file. -/
structure Sound (model : Model σ) (place : Location) (past : History σ) (pool : Pool σ) : Prop where
  books : pool.shared.frontier.Balanced model place pool.shared.disk past pool.hands pool.tickets
  orderly : ∀ worker ∈ pool.workers, worker.Orderly
  apart : ∀ worker ∈ pool.workers, ¬ Spill.PageFileIn place worker.log.handle.place

variable {place : Location} {past events : History σ} {pool : Pool σ} {position : Nat}
  {worker next : Worker σ} {shared : Shared σ}

/-- The books, with the accounts of one worker apart from those of the others. -/
theorem Sound.split (sound : Sound model place past pool)
    (found : pool.workers[position]? = some worker) :
    pool.shared.frontier.Balanced model place pool.shared.disk past
      (worker.pages ++ (pool.workers.eraseIdx position).flatMap Worker.pages)
      (worker.tickets ++ (pool.workers.eraseIdx position).flatMap Worker.tickets) :=
  sound.books.perm (flatMap_perm_others _ found).symm (flatMap_perm_others _ found).symm

/-- The books stay in balance if one worker keeps its own. -/
theorem Sound.set (sound : Sound model place past pool)
    (found : pool.workers[position]? = some worker)
    (moved : shared.frontier.Balanced model place shared.disk (past ++ events)
      (next.pages ++ (pool.workers.eraseIdx position).flatMap Worker.pages)
      (next.tickets ++ (pool.workers.eraseIdx position).flatMap Worker.tickets))
    (orderly : next.Orderly) (same : next.log.handle = worker.log.handle) :
    Sound model place (past ++ events) ⟨pool.workers.set position next, shared⟩ where
  books := moved.perm (flatMap_set_perm_others _ found) (flatMap_set_perm_others _ found)
  orderly := forall_mem_set sound.orderly orderly
  apart := forall_mem_set sound.apart (same ▸ sound.apart worker (List.mem_of_getElem? found))

/-- A step keeps the books in balance. -/
theorem Sound.step (found : pool.workers[position]? = some worker)
    (turn : worker.Turn model pool.shared next shared events)
    (sound : Sound model place past pool) :
    Sound model place (past ++ events) ⟨pool.workers.set position next, shared⟩ := by
  have member := List.mem_of_getElem? found
  have orderly := sound.orderly worker member
  exact sound.set found (turn.balanced orderly (sound.apart worker member) (sound.split found))
    (turn.orderly orderly) turn.handle_eq

end Pool

end Wavefront
