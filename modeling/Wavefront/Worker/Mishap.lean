/-
# Mishaps

The system may refuse at any moment to write to a file or to read one, for reasons
that nothing in the program decides. A step of a worker that meets with such a
mishap ends its exploration, and the worker goes on to report the failure, with the
node that it was expanding. A schedule may say for each step which mishap, if any,
comes in its way; without mishaps it is a schedule like any other.
-/

import Wavefront.Worker.Pool

namespace Wavefront

/-- Something that the system refuses. -/
inductive Mishap where
  /-- A record cannot be put into a log, or a log cannot be brought up to date. -/
  | logging (cause : IoError)
  /-- One of the steps that write a page file cannot be made, the one with the given number. -/
  | writing (number : Nat) (cause : IoError)
  /-- A page file cannot be read, or not be removed when it has been read. -/
  | reading (reason : Reason)
deriving DecidableEq, Repr

namespace Frontier

variable {σ : Type}

/-- How leaving a page to wait fails when a step of writing its file is refused. Nothing is refused
to a page without a file. -/
def failToEnqueue (frontier : Frontier σ) (model : Model σ) (page : Page σ) (number : Nat)
    (cause : IoError) (disk : Disk) : Option (Failure × Disk) :=
  if page.isEmpty ∨ frontier.keepsInMemory page.id ∨ Page.countLimit ≤ page.size then none
  else
    match ((page.writePlan model frontier.spill.directory).refuseAt number cause).perform disk with
    | (.ok (), _) => none
    | (.error (path, cause), disk) => some (.pageWrite path (.io cause), disk)

/-- How taking the page of a number fails when reading or removing its file is refused. Nothing is
refused if there is no file. -/
def failToTake (frontier : Frontier σ) (id : PageId) (reason : Reason) (disk : Disk) :
    Option Failure :=
  let path := frontier.spill.directory.child (Page.fileName id)
  if frontier.keepsInMemory id ∨ disk.exists? path = false then none
  else some (.pageRead path reason)

end Frontier

namespace Worker

variable {σ : Type}

/-- What a step leads to if a mishap comes in its way. Most steps touch no file, or not the one
that the mishap is about, or fail for another reason before. -/
def fail (model : Model σ) (mishap : Mishap) (worker : Worker σ) (shared : Shared σ) :
    Option (Worker σ × Shared σ) :=
  match worker.stage, mishap with
  | .recording node _ _, .logging cause =>
      match nextLevel node.level with
      | .error _ => none
      | .ok level =>
          some ({ worker with
            maxLevel := max worker.maxLevel level
            stage := .reporting (some node) (.trace worker.id (.io cause)) }, shared)
  | .flushing, .logging cause =>
      some ({ worker with stage := .reporting none (.trace worker.id (.io cause)) }, shared)
  | .publishing node page _, .writing number cause =>
      (shared.frontier.failToEnqueue model page number cause shared.disk).map fun (failure, disk) =>
        ({ worker with stage := .reporting (some node) failure }, { shared with disk := disk })
  | .waiting (.donate _ page), .writing number cause =>
      (shared.frontier.failToEnqueue model page number cause shared.disk).map fun (failure, disk) =>
        ({ worker with stage := .reporting none failure }, { shared with disk := disk })
  | .waiting (.look ticket _), .reading reason =>
      (shared.frontier.failToTake ticket reason shared.disk).map fun failure =>
        ({ worker with stage := .reporting none failure }, shared)
  | _, _ => none

/-- Make one step, in whose way a mishap may come. -/
def stepAmid (model : Model σ) (mishap : Option Mishap) (worker : Worker σ) (shared : Shared σ) :
    Worker σ × Shared σ :=
  (mishap.bind fun mishap => worker.fail model mishap shared).getD (worker.step model shared)

/-- The report that a worker publishes with its next step. -/
def reports (worker : Worker σ) : List (Report σ) :=
  match worker.stage with
  | .reporting node cause => [⟨node, cause⟩]
  | _ => []

end Worker

namespace Pool

variable {σ : Type}

/-- Let the worker at a position make a step, in whose way a mishap may come. -/
def stepAmid (model : Model σ) (pool : Pool σ) (turn : Nat × Option Mishap) : Pool σ :=
  match pool.workers[turn.1]? with
  | none => pool
  | some worker =>
      let (worker, shared) := worker.stepAmid model turn.2 pool.shared
      ⟨pool.workers.set turn.1 worker, shared⟩

/-- Let workers make steps in the order of a schedule that says which mishaps come in their way. -/
def followAmid (model : Model σ) (pool : Pool σ) (schedule : List (Nat × Option Mishap)) : Pool σ :=
  schedule.foldl (stepAmid model) pool

/-- The reports that workers publish along a schedule, in their order. -/
def reports (model : Model σ) : (schedule : List (Nat × Option Mishap)) → Pool σ → List (Report σ)
  | [], _ => []
  | turn :: rest, pool =>
      (pool.workers[turn.1]?.map Worker.reports).getD [] ++
        reports model rest (pool.stepAmid model turn)

/-- A schedule without mishaps is a schedule like any other. -/
theorem followAmid_none (model : Model σ) (pool : Pool σ) (schedule : List Nat) :
    pool.followAmid model (schedule.map (·, none)) = pool.follow model schedule := by
  rw [followAmid, List.foldl_map]
  rfl

end Pool

end Wavefront
