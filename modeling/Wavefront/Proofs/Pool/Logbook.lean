/-
# The logs of a pool

The workers' logs together hold the records of all nodes that were recorded, each in the
log of the worker that recorded it. A step appends a record to one log, or brings one log
up to date, or leaves the logs alone and touches page files at most.
-/

import Wavefront.Proofs.Pool.Books
import Wavefront.Proofs.Trace.Ledger
import Wavefront.Proofs.Worker.Logs

namespace Wavefront

open History Trace

variable {σ : Type}

/-! ## Workers -/

namespace Worker

variable {model : Model σ} {place : Location} {worker next : Worker σ} {shared after : Shared σ}
  {past events : History σ} {hands : List (Page σ)} {tickets : List Nat}

/-- What a step does to the log of its worker and to the disk. -/
inductive Logging (model : Model σ) (place : Location) (worker : Worker σ) (disk : Disk) :
    Log → Disk → List (Finding σ) → Prop where
  | leaves {final : Disk} (changes : disk.Changes (Spill.PageFileIn place) final) :
      Logging model place worker disk worker.log final []
  | appends (node : Node σ) (state : σ) :
      Logging model place worker disk (worker.log.append ⟨node.uid, model.fingerprint state⟩).2 disk
        [(some node, worker.discovery model node state)]
  | flushes : Logging model place worker disk (worker.log.flush disk).1 (worker.log.flush disk).2 []

/-- A log keeps its place and its owner. -/
theorem Turn.name_log (turn : Turn model worker shared next after events) :
    next.log.name = worker.log.name := by
  cases turn with
  | @accesses wait after =>
    rcases after with ⟨progress, held, frontier, disk⟩
    cases progress <;> rfl
  | records stage room placed =>
    cases placed with
    | keeps | seeks => rfl
    | stows holding stowed =>
      rw [stowed.log_eq]
      rfl
  | claims stage stowed => rw [stowed.log_eq]
  | flushes => simp [Log.name]
  | _ => rfl

theorem Turn.logging (turn : Turn model worker shared next after events)
    (books : shared.frontier.Balanced model place shared.disk past (worker.pages ++ hands)
      (worker.tickets ++ tickets)) :
    Logging model place worker shared.disk next.log after.disk (recorded events) := by
  cases turn with
  | rests | heeds | idles | picks | fails | overflows | expands | concludes | meets | skips | sinks
    | reports | latches | unwinds => exact .leaves (.refl _ _)
  | @accesses wait after events stage turn =>
    simp only [pages, Worker.tickets, stage, Stage.pages, Stage.ticket?] at books
    obtain ⟨-, changes⟩ := turn.balanced books
    have same : (worker.proceed after).log = worker.log := by
      rcases after with ⟨progress, held, frontier, disk⟩
      cases progress <;> rfl
    have none : recorded events = [] := by
      cases turn <;> rfl
    rw [same, none]
    exact .leaves changes
  | records stage room placed =>
    cases placed with
    | keeps | seeks => exact .appends _ _
    | stows holding stowed =>
      rw [stowed.log_eq]
      exact .appends _ _
  | claims stage stowed =>
    rw [stowed.log_eq]
    exact .leaves (.refl _ _)
  | publishes stage enqueued | strands stage enqueued =>
    simp only [pages, stage, Stage.pages] at books
    exact .leaves (books.front.part enqueued).2
  | flushes => exact .flushes

end Worker

/-! ## Pools -/

namespace Pool

variable {model : Model σ} {place : Location} {past events : History σ} {pool : Pool σ}
  {position : Nat} {worker next : Worker σ} {shared : Shared σ}

/-- The logs of the workers. -/
def logs (pool : Pool σ) : List Log := pool.workers.map (·.log)

/-- The logs are kept if one worker keeps its own. -/
theorem logged_set (found : pool.workers[position]? = some worker)
    (logging : worker.Logging model place pool.shared.disk next.log shared.disk (recorded events))
    (sound : Sound model place past pool)
    (logged : Logged model (recorded past) pool.logs pool.shared.disk) :
    Logged model (recorded (past ++ events)) (pool.workers.set position next |>.map (·.log))
      shared.disk := by
  have there : pool.logs[position]? = some worker.log := by
    rw [logs, List.getElem?_map, found, Option.map_some]
  rw [List.map_set, recorded_append]
  show Logged model _ (pool.logs.set position next.log) shared.disk
  generalize recorded events = news, next.log = log, shared.disk = final at logging
  cases logging with
  | leaves changes =>
    rw [List.append_nil, set_eq_self there]
    apply logged.of_changes changes
    intro log among
    obtain ⟨other, mine, rfl⟩ := List.mem_map.mp among
    exact sound.apart other mine
  | appends node state => exact logged.append there rfl
  | flushes =>
    rw [List.append_nil]
    exact logged.flush there

/-- A step keeps the logs. -/
theorem logged_step (found : pool.workers[position]? = some worker)
    (turn : worker.Turn model pool.shared next shared events) (sound : Sound model place past pool)
    (logged : Logged model (recorded past) pool.logs pool.shared.disk) :
    Logged model (recorded (past ++ events)) (pool.workers.set position next |>.map (·.log))
      shared.disk :=
  logged_set found (turn.logging (sound.split found)) sound logged

end Pool

end Wavefront
