/-
# A pool of workers

Several workers and what they share. `stepAt` lets one of them make a step, and a
schedule is a list of the positions of those whose turn it is: every interleaving
of the workers' steps is `follow` along some schedule. `settle` follows the schedule
in which all take turns, until every worker has come to its end.

It may turn out that not all workers can be started. Then the pool is given up:
nothing is delivered any more, and whoever was not started is dismissed.
-/

import Wavefront.Worker.Step

namespace Wavefront

/-- Workers and what they share. -/
structure Pool (σ : Type) where
  workers : List (Worker σ)
  shared : Shared σ

/-- A worker that is not going to begin goes, and its log is brought up to date. -/
def Worker.dismiss {σ : Type} (worker : Worker σ) (shared : Shared σ) : Worker σ × Shared σ :=
  let (log, disk) := worker.log.flush shared.disk
  ({ worker with log := log, stage := .stopped }, { shared with disk := disk })

namespace Pool

variable {σ : Type}

/-- Workers at the beginning of their loops, whatever they did before. -/
def start (workers : List (Worker σ)) (shared : Shared σ) : Pool σ :=
  ⟨workers.map Worker.restart, shared⟩

/-- Let the worker at a position make a step. -/
def stepAt (model : Model σ) (pool : Pool σ) (position : Nat) : Pool σ :=
  match pool.workers[position]? with
  | none => pool
  | some worker =>
      let (worker, shared) := worker.step model pool.shared
      ⟨pool.workers.set position worker, shared⟩

/-- Let workers make steps in the order of a schedule. -/
def follow (model : Model σ) (pool : Pool σ) (schedule : List Nat) : Pool σ :=
  schedule.foldl (stepAt model) pool

/-- Whether every worker has come to its end. -/
def isSettled (pool : Pool σ) : Bool := pool.workers.all (·.stage.isFinal)

/-- Let every worker make a step, in order. -/
def round (model : Model σ) (pool : Pool σ) : Pool σ :=
  pool.follow model (List.range pool.workers.length)

/-- Go on with rounds until every worker has come to its end, but not for ever. -/
def rounds (model : Model σ) : (limit : Nat) → Pool σ → Pool σ
  | 0, pool => pool
  | limit + 1, pool => if pool.isSettled then pool else rounds model limit (pool.round model)

/-- A number of rounds that no run which ends at all exceeds in practice. -/
def patience : Nat := 0x1000000000000000000

/-- Let the workers take turns until every one has come to its end. -/
def settle (model : Model σ) (pool : Pool σ) : Pool σ := rounds model patience pool

/-- Let nothing be delivered any more. -/
def finish (pool : Pool σ) : Pool σ :=
  ⟨pool.workers, { pool.shared with frontier := pool.shared.frontier.finish }⟩

/-- Dismiss the worker at a position. -/
def dismissAt (pool : Pool σ) (position : Nat) : Pool σ :=
  match pool.workers[position]? with
  | none => pool
  | some worker =>
      let (worker, shared) := worker.dismiss pool.shared
      ⟨pool.workers.set position worker, shared⟩

/-- Give up when no more workers can be started than a number of them. -/
def giveUp (pool : Pool σ) (started : Nat) : Pool σ :=
  (List.range' started (pool.workers.length - started)).foldl dismissAt pool.finish

theorem follow_append (model : Model σ) (pool : Pool σ) (first second : List Nat) :
    pool.follow model (first ++ second) = (pool.follow model first).follow model second :=
  List.foldl_append

/-- Taking turns is one of the schedules. -/
theorem exists_follow_eq_rounds (model : Model σ) (limit : Nat) (pool : Pool σ) :
    ∃ schedule, pool.follow model schedule = rounds model limit pool := by
  induction limit generalizing pool with
  | zero => exact ⟨[], rfl⟩
  | succ limit ih =>
    rw [rounds]
    split
    · exact ⟨[], rfl⟩
    · obtain ⟨schedule, same⟩ := ih (pool.round model)
      exact ⟨List.range pool.workers.length ++ schedule, by rw [follow_append]; exact same⟩

end Pool

end Wavefront
