/-
# One step of a worker

A worker goes round in a loop: take a node from the backlog, or a page from the
frontier if the backlog is empty; compute its successors; record those that are
new and find a place for them. An error is reported and then marks the frontier
finished, so that the others come to an end; a fault marks it finished too. Each
step makes at most one access to what the workers share, and steps of several
workers may be interleaved in any order.
-/

import Wavefront.Seen
import Wavefront.Worker.Basic

namespace Wavefront

/-- What the workers of a run share. -/
structure Shared (σ : Type) where
  frontier : Frontier σ
  disk : Disk
  seen : Seen
  /-- The first error reported. -/
  report : Option (Report σ)
  /-- The nodes whose expansion has begun, the latest first. -/
  expanded : List (Node σ)

namespace Worker

variable {σ : Type}

/-- Make one step. -/
def step (model : Model σ) (worker : Worker σ) (shared : Shared σ) : Worker σ × Shared σ :=
  match worker.stage with
  | .polling =>
      if shared.report.isSome then ({ worker with stage := .flushing }, shared)
      else
        match worker.backlog.pop? with
        | none => ({ worker with stage := .waiting .readTail }, shared)
        | some (node, backlog) =>
            ({ worker with
              backlog := backlog
              processed := worker.processed + 1
              stage := .expanding node }, shared)
  | .waiting wait =>
      let after := wait.step model worker.held shared.frontier shared.disk
      let shared := { shared with frontier := after.frontier, disk := after.disk }
      let worker := { worker with held := after.held }
      match after.progress with
      | .waiting wait => ({ worker with stage := .waiting wait }, shared)
      | .delivered page => (worker.receive page, shared)
      | .finished => ({ worker with stage := .flushing }, shared)
      | .stopped stop => ({ worker with stage := .ending none stop }, shared)
  | .expanding node =>
      let shared := { shared with expanded := node :: shared.expanded }
      match model.successors node.state with
      | .error stop => ({ worker with stage := .ending (some node) stop }, shared)
      | .ok states =>
          let worker := { worker with generated := worker.generated + states.length }
          match worker.outDegree.add states.length with
          | (.error fault, degrees) =>
              ({ worker with outDegree := degrees, stage := .unwinding fault }, shared)
          | (.ok (), degrees) =>
              ({ worker with outDegree := degrees, stage := .sifting node states }, shared)
  | .sifting _ [] => ({ worker with stage := .polling }, shared)
  | .sifting node (state :: rest) =>
      let (isNew, seen) := shared.seen.meet (model.fingerprint state)
      let shared := { shared with seen := seen }
      if isNew then ({ worker with stage := .recording node state rest }, shared)
      else ({ worker with stage := .sifting node rest }, shared)
  | .recording node state rest =>
      match worker.record node (model.fingerprint state) with
      | .error fault => ({ worker with stage := .unwinding fault }, shared)
      | .ok (level, uid, worker) => (worker.place node ⟨state, level, uid⟩ rest, shared)
  | .claiming node child rest =>
      let (page, frontier) := shared.frontier.claim
      (worker.stow page node child rest, { shared with frontier := frontier })
  | .publishing node page rest =>
      let (result, frontier, disk) := shared.frontier.enqueue model page shared.disk
      let shared := { shared with frontier := frontier, disk := disk }
      match result with
      | .error stop => ({ worker with stage := .ending (some node) stop }, shared)
      | .ok () => ({ worker with stage := .sifting node rest }, shared)
  | .flushing =>
      let (log, disk) := worker.log.flush shared.disk
      ({ worker with log := log, stage := .stopped }, { shared with disk := disk })
  | .reporting node cause =>
      let (_, report) := Report.publish shared.report ⟨node, cause⟩
      ({ worker with stage := .latching }, { shared with report := report })
  | .latching =>
      ({ worker with stage := .stopped }, { shared with frontier := shared.frontier.finish })
  | .unwinding fault =>
      ({ worker with stage := .broken fault }, { shared with frontier := shared.frontier.finish })
  | .stopped => (worker, shared)
  | .broken _ => (worker, shared)

/-- Record a state as an initial one and put it on a page of its own, unless it has been met
before. The answer is the reference to its record. -/
def seed (model : Model σ) (state : σ) (level : UInt32) (worker : Worker σ) (shared : Shared σ) :
    Except Stop (Option Uid) × Worker σ × Shared σ :=
  let fingerprint := model.fingerprint state
  let (isNew, seen) := shared.seen.meet fingerprint
  let shared := { shared with seen := seen }
  if isNew then
    let (uid, worker) := worker.recordInitial fingerprint
    let (result, frontier, disk) :=
      shared.frontier.enqueueNode model ⟨state, level, uid⟩ shared.disk
    (result.map fun () => some uid, worker, { shared with frontier := frontier, disk := disk })
  else (.ok none, worker, shared)

/-- A worker at the beginning of its loop, whatever it did before. -/
def restart (worker : Worker σ) : Worker σ := { worker with stage := .polling }

end Worker

end Wavefront
