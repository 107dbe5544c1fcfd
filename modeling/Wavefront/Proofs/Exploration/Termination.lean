/-
# Termination detection is sound

Whatever the schedule, a worker that finds the frontier exhausted is right: every page that
was claimed has been enqueued and delivered, nothing waits in either store, and nobody
holds a page or a node, so no state that was discovered is left unexpanded on the way. This
is so although the worker has read `tail` and `head` one after the other, and it stays so.

The workers then have the tickets after the last page number, one each. A worker keeps
waiting on its ticket until it sees that the frontier is finished.
-/

import Wavefront.Proofs.Exploration.Launch

namespace Wavefront

open History

variable {σ : Type}

/-- Whether the worker's next access finds the frontier exhausted. -/
def Worker.findsExhausted (worker : Worker σ) (frontier : Frontier σ) : Bool :=
  match worker.stage with
  | .waiting (.rereadHead _ _ tail) => exhausted frontier.head tail frontier.workers
  | _ => false

/-- Whether the worker's next access marks the frontier finished because it was exhausted. -/
def Worker.latchesExhausted (worker : Worker σ) : Bool :=
  match worker.stage with
  | .waiting (.latch _) => true
  | _ => false

namespace Pool

variable {model : Model σ} {place : Location} {past : History σ} {pool : Pool σ}
  {worker : Worker σ}

/-- Nothing is left to do, and nobody has anything. -/
structure Exhausted (past : History σ) (pool : Pool σ) : Prop where
  /-- Every page that was claimed has been enqueued. -/
  enqueued : ((enqueued past).map Page.id).Perm (List.range' 1 pool.shared.frontier.head)
  /-- Every page that was claimed has been delivered. -/
  delivered : (answered past).Perm (List.range' 1 pool.shared.frontier.head)
  memory : ∀ id : PageId, pool.shared.frontier.memory.pages[id]? = none
  files : ∀ id : PageId, pool.shared.disk.exists?
    (pool.shared.frontier.spill.directory.child (Page.fileName id)) = false
  /-- No worker has a page or a node; each waits on a ticket past the last page number, or has left
  after the frontier was finished. -/
  bare : ∀ worker ∈ pool.workers, worker.Bare pool.shared.frontier
  /-- The tickets that workers wait on or have left with are those past the last page number. -/
  tickets : (pool.tickets ++ forgone past).Perm
    (List.range' (pool.shared.frontier.head + 1) pool.shared.frontier.workers)

/-- A pool that is drained has nothing left to do. -/
theorem Drained.exhausted (drained : pool.Drained past) (sound : Sound model place past pool) :
    Exhausted past pool := by
  have books := sound.books
  have enough : pool.shared.frontier.head ≤ (History.answered past).length := by
    rw [drained.answered.length_eq, List.length_range']
  obtain ⟨-, -, nothing, every, answered⟩ := books.spent enough
  have noneWaits {page : Page σ} : page ∉ waiting past := by simp [nothing]
  constructor
  · exact every
  · exact answered
  · intro id
    cases found : pool.shared.frontier.memory.pages[id]? with
    | none => rfl
    | some page => exact absurd ((books.stocks.memory id page).mp found).1 noneWaits
  · intro id
    rw [Bool.eq_false_iff]
    intro present
    obtain ⟨page, waits, -⟩ := books.stocks.files.exists?_iff.mp present
    exact noneWaits waits.1
  · exact drained.bare
  · have drawn := books.tickets
    rw [books.order, drained.drawn, ← List.range'_append_1] at drawn
    -- Of all tickets drawn, those up to the last page number are answered.
    have moved : (History.answered past ++ (pool.tickets ++ forgone past)).Perm
        (List.range' 1 pool.shared.frontier.head ++
          List.range' (1 + pool.shared.frontier.head) pool.shared.frontier.workers) := by
      refine List.Perm.trans ?_ drawn
      rw [← List.append_assoc]
      exact List.perm_append_comm.append_right _
    rw [Nat.add_comm 1] at moved
    exact (List.perm_append_left_iff _).mp ((answered.symm.append_right _).trans moved)

/-- Whoever finds a frontier exhausted is right. -/
theorem Watched.drained_of_findsExhausted (watched : Watched past pool)
    (member : worker ∈ pool.workers)
    (finds : worker.findsExhausted pool.shared.frontier = true) : pool.Drained past := by
  unfold Worker.findsExhausted at finds
  split at finds
  · rename_i ticket retries tail stage
    cases tail with
    | finished => cases finds
    | ticket last => exact (watched.read worker member stage).2 (exhausted_ticket_iff.mp finds)
  · cases finds

theorem Watched.drained_of_latchesExhausted (watched : Watched past pool)
    (member : worker ∈ pool.workers) (latches : worker.latchesExhausted = true) :
    pool.Drained past := by
  unfold Worker.latchesExhausted at latches
  split at latches
  · rename_i ticket stage
    exact watched.latch worker member stage
  · cases latches

end Pool

namespace Exploration.Course

variable {model : Model σ} {initial : List σ} {seen : Seen}

/-- The books and the watch are kept along every schedule. -/
theorem exists_watched (course : Course model initial seen) (schedule : List Nat) :
    ∃ place, Pool.Sound model place (course.history schedule) (course.pool schedule) ∧
      Pool.Watched (course.history schedule) (course.pool schedule) := by
  obtain ⟨place, done, -, ready⟩ := course.exists_ready
  exact ⟨place, Pool.Watched.follow ready.coherent.sound ready.coherent.watched schedule⟩

/-- Termination detection is sound. As long as the frontier is not finished, `tail` exceeds `head`
by at most the number of workers; once finished it stays finished; and when a worker finds it
exhausted, or is about to mark it finished for that reason, then there is nothing left to do, then
and ever after. -/
theorem exhausted_of_findsExhausted (course : Course model initial seen) (schedule : List Nat) :
    (∀ last, (course.pool schedule).shared.frontier.tail = .ticket last →
      last ≤ (course.pool schedule).shared.frontier.head + course.settings.workerCount) ∧
    ((course.pool schedule).shared.frontier.tail = .finished → ∀ more,
      (course.pool (schedule ++ more)).shared.frontier.tail = .finished) ∧
    ∀ worker ∈ (course.pool schedule).workers,
      worker.findsExhausted (course.pool schedule).shared.frontier = true ∨
        worker.latchesExhausted = true →
      ∀ more, Pool.Exhausted (course.history (schedule ++ more))
        (course.pool (schedule ++ more)) := by
  obtain ⟨place, sound, watched⟩ := course.exists_watched schedule
  refine ⟨fun last tail => ?_, fun ended more => ?_, fun worker member finds more => ?_⟩
  · have bound := (watched.count sound tail).1
    rwa [← watched.crew, course.length_workers] at bound
  · rw [pool_append]
    exact Pool.tail_follow ended more
  · have drained : (course.pool schedule).Drained (course.history schedule) := by
      rcases finds with finds | latches
      · exact watched.drained_of_findsExhausted member finds
      · exact watched.drained_of_latchesExhausted member latches
    obtain ⟨later, -⟩ := Pool.Watched.follow sound watched more
    rw [pool_append, history_append]
    exact (drained.follow sound watched more).exhausted later

/-- Two workers explore a grid of four states by turns, and the first of them finds the frontier
exhausted at its twenty-sixth step. -/
theorem exhausted_of_findsExhausted_of_two :
    let grid : CounterGrid := ⟨1, 1, none⟩
    let turns := (List.range 50).map (· % 2)
    ∃ course : Course grid.model grid.initialStates .empty,
      ∃ worker ∈ (course.pool turns).workers,
        worker.findsExhausted (course.pool turns).shared.frontier = true ∧
          ∀ more, Pool.Exhausted (course.history (turns ++ more))
            (course.pool (turns ++ more)) := by
  intro grid turns
  let course := (onGrid grid).get (by decide +kernel)
  have finding : (course.pool turns).workers.any
      (fun worker => worker.findsExhausted (course.pool turns).shared.frontier) = true := by
    decide +kernel
  obtain ⟨worker, member, finds⟩ := List.any_eq_true.mp finding
  exact ⟨course, worker, member, finds,
    (course.exhausted_of_findsExhausted turns).2.2 worker member (.inl finds)⟩

end Exploration.Course

end Wavefront
