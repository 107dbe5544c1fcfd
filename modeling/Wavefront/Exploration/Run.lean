/-
# Running to an outcome

When all workers have come to their end, the pages that still wait are dropped and
the first report decides: without one the run is complete; an error of the model is
an outcome with the path that leads to it; any other error is a failure of the run.
A worker that broke down breaks the run down. In every case the logs are brought up
to date.

If the system refuses to start a worker, the run fails. It waits for the workers that
were started before, and drops the pages that wait all the same.
-/

import Wavefront.Exploration.Launch
import Wavefront.Trace.Forest

namespace Wavefront

/-- How a run ended that did not fail. -/
inductive Verdict (σ : Type) where
  /-- Every reachable state was expanded. -/
  | complete
  /-- The model raised an error for a node; `trace` leads to it. -/
  | failed (node : Node σ) (cause : Failure) (trace : List Fingerprint)

/-- The outcome of a run that did not fail. -/
structure Outcome (σ : Type) where
  verdict : Verdict σ
  summary : Summary
  /-- The directory that holds the trace logs. -/
  runDirectory : Path

/-- Whether every reachable state was expanded. -/
def Outcome.isComplete {σ : Type} (outcome : Outcome σ) : Bool :=
  match outcome.verdict with
  | .complete => true
  | .failed .. => false

namespace Exploration

variable {σ : Type}

/-- The fault of the first worker that broke down. -/
def firstFault? : List (Worker σ) → Option Fault
  | [] => none
  | worker :: rest =>
      match worker.stage with
      | .broken fault => some fault
      | _ => firstFault? rest

/-- Add what workers counted to a summary. -/
def summarize : List (Worker σ) → Summary → Except Fault Summary
  | [], summary => .ok summary
  | worker :: rest, summary =>
      match summary.outDegree.merge worker.outDegree with
      | (.error fault, _) => .error fault
      | (.ok (), degrees) =>
          summarize rest { summary with
            statesGenerated := summary.statesGenerated + worker.generated
            maxLevel := max summary.maxLevel worker.maxLevel
            outDegree := degrees }

/-- What the workers of a run counted together. -/
def summaryOf (launch : Launch σ) (pool : Pool σ) : Except Fault Summary :=
  summarize pool.workers { Summary.empty pool.workers.length with
    statesGenerated := launch.initialStates
    distinctStates := pool.shared.seen.size }

/-- Turn the first report into a verdict, with the logs at hand. -/
def judge (report : Option (Report σ)) (logs : List Log) (disk : Disk) :
    Except Failure (Verdict σ) × List Log × Disk :=
  match report with
  | none => (.ok .complete, logs, disk)
  | some ⟨none, cause⟩ => (.error cause, logs, disk)
  | some ⟨some node, cause⟩ =>
      if cause.isOfModel then
        match (Forest.collect logs).pathTo node.uid disk with
        | (.error failure, forest, disk) => (.error failure, forest.logs, disk)
        | (.ok trace, forest, disk) => (.ok (.failed node cause trace), forest.logs, disk)
      else (.error cause, logs, disk)

/-- Draw the conclusion from workers that have all come to their end. -/
def conclude (launch : Launch σ) (pool : Pool σ) : Except Stop (Outcome σ) × Disk :=
  let shared := pool.shared
  let logs := logs pool.workers
  match firstFault? pool.workers with
  | some fault => (.error (.fault fault), Log.flushAll logs shared.disk)
  | none =>
      match shared.frontier.discard shared.disk with
      | (.error stop, _, disk) => (.error stop, Log.flushAll logs disk)
      | (.ok _, _, disk) =>
          match summaryOf launch pool with
          | .error fault => (.error (.fault fault), Log.flushAll logs disk)
          | .ok summary =>
              let (verdict, logs, disk) := judge shared.report logs disk
              ((verdict.mapError .failure).map (⟨·, summary, launch.runDirectory⟩),
                Log.flushAll logs disk)

/-! ## When not all workers can be started -/

/-- The system refuses to start another worker. -/
structure Shortage where
  /-- The number of workers that were started before. -/
  started : Nat
  cause : IoError

/-- Draw the conclusion when the workers that were started have come to their end. Whether all
pages that wait could be dropped makes no difference. -/
def concludeShort (cause : IoError) (pool : Pool σ) : Except Stop (Outcome σ) × Disk :=
  let shared := pool.shared
  let logs := logs pool.workers
  match firstFault? pool.workers with
  | some _ => (.error (.fault .abandonedWorker), Log.flushAll logs shared.disk)
  | none =>
      match shared.frontier.discard shared.disk with
      | (.error (.fault fault), _, disk) => (.error (.fault fault), Log.flushAll logs disk)
      | (_, _, disk) => (.error (.failure (.io cause)), Log.flushAll logs disk)

/-- Let the workers come to their ends and draw the conclusion. -/
def finishRun (model : Model σ) (launch : Launch σ) (shortage : Option Shortage) :
    Pool σ × Except Stop (Outcome σ) × Disk :=
  match shortage with
  | none =>
      let pool := launch.pool.settle model
      (pool, conclude launch pool)
  | some ⟨started, cause⟩ =>
      let pool := (launch.pool.giveUp started).settle model
      (pool, concludeShort cause pool)

/-! ## Runs -/

/-- All that a run leaves behind. -/
structure Result (σ : Type) where
  outcome : Except Stop (Outcome σ)
  disk : Disk
  /-- The nodes whose expansion has begun, in that order. -/
  expanded : List (Node σ)
  /-- The number that the next run tries first. -/
  nextRun : Nat

/-- Explore from the initial states, leaving out those whose fingerprints were seen before, on a
system that may refuse to start a worker. -/
def runAmid (shortage : Option Shortage) (settings : Settings) (model : Model σ)
    (initial : List σ) (seen : Seen) (process number : Nat) (disk : Disk) : Result σ :=
  match launch settings model initial seen process number disk with
  | (.error stop, next, disk) => ⟨.error stop, disk, [], next⟩
  | (.ok launch, next, _) =>
      let (pool, outcome, disk) := finishRun model launch shortage
      ⟨outcome, disk, pool.shared.expanded.reverse, next⟩

/-- Explore from the initial states, leaving out those whose fingerprints were seen before. -/
def run (settings : Settings) (model : Model σ) (initial : List σ) (seen : Seen)
    (process number : Nat) (disk : Disk) : Result σ :=
  runAmid none settings model initial seen process number disk

/-- A run whose workers can all be started ends with what is concluded from them. -/
theorem run_of_launch {settings : Settings} {model : Model σ} {initial : List σ} {seen : Seen}
    {process number next : Nat} {disk before : Disk} {launched : Launch σ} {pool : Pool σ}
    (launching : launch settings model initial seen process number disk =
      (.ok launched, next, before))
    (settled : launched.pool.settle model = pool) :
    run settings model initial seen process number disk =
      ⟨(conclude launched pool).1, (conclude launched pool).2, pool.shared.expanded.reverse,
        next⟩ := by
  rw [run, runAmid, launching]
  simp only [finishRun, settled]

/-- Explore from the initial states. -/
def check (settings : Settings) (model : Model σ) (initial : List σ) (process number : Nat)
    (disk : Disk) : Result σ :=
  run settings model initial .empty process number disk

end Exploration

end Wavefront
