/-
# Steps that meet with mishaps

`Worker.Failing` lists the ways in which a mishap can come in the way of a step. In each of them
the worker goes on to report a failure that is none of the model, and nothing that is shared
changes but the temporary file of a page. A page that it was about to leave to others is lost, and
a ticket is forgone.
-/

import Wavefront.Proofs.Pool.Discovery
import Wavefront.Worker.Mishap

namespace Wavefront

open History

variable {σ : Type}

/-! ## Page files -/

namespace Frontier

variable {model : Model σ} {place : Location} {pages : Set (Page σ)} {frontier : Frontier σ}
  {disk final : Disk} {page : Page σ} {number : Nat} {cause : IoError} {failure : Failure}

/-- Refusing to write a page file is a failure of the engine. -/
theorem isOfModel_of_failToEnqueue
    (failed : frontier.failToEnqueue model page number cause disk = some (failure, final)) :
    failure.isOfModel = false := by
  unfold failToEnqueue at failed
  split at failed
  · cases failed
  · split at failed
    · cases failed
    · obtain ⟨rfl, -⟩ := Prod.mk.inj (Option.some.inj failed)
      rfl

theorem isOfModel_of_failToTake {id : PageId} {reason : Reason}
    (failed : frontier.failToTake id reason disk = some failure) : failure.isOfModel = false := by
  unfold failToTake at failed
  dsimp only at failed
  split at failed
  · cases failed
  · obtain rfl := Option.some.inj failed
    rfl

/-- A page whose file cannot be written leaves the pages that wait as they are. -/
theorem Stocks.of_failToEnqueue (stocks : Stocks model place pages frontier disk)
    (failed : frontier.failToEnqueue model page number cause disk = some (failure, final)) :
    Stocks model place pages frontier final ∧ disk.Changes (Spill.PageFileIn place) final := by
  unfold failToEnqueue at failed
  split at failed
  · cases failed
  · rename_i tried
    split at failed
    · cases failed
    · rename_i performed
      obtain ⟨-, rfl⟩ := Prod.mk.inj (Option.some.inj failed)
      have small : page.size < Page.countLimit :=
        Nat.lt_of_not_le fun large => tried (.inr (.inr large))
      have drafted := Page.drafted_of_refuseAt stocks.files.opens
        (stocks.files.tidy _ (Spill.isPageFile_temporaryName page.id)) small performed
      obtain ⟨keeps, changes⟩ := stocks.files.of_drafted drafted
      exact ⟨⟨stocks.memory, keeps⟩, changes⟩

end Frontier

namespace Worker

variable {model : Model σ} {place : Location} {mishap : Mishap} {worker next : Worker σ}
  {shared after : Shared σ} {past events : History σ} {hands : List (Page σ)} {tickets : List Nat}

/-- The ways in which a mishap can come in the way of a step. -/
inductive Failing (model : Model σ) (worker : Worker σ) (shared : Shared σ) :
    Worker σ → Shared σ → History σ → Prop where
  /-- A new successor cannot be recorded. -/
  | records {node : Node σ} {state : σ} {rest : List σ} {level : UInt32} {cause : IoError}
      (stage : worker.stage = .recording node state rest) :
      Failing model worker shared
        { worker with
          maxLevel := max worker.maxLevel level
          stage := .reporting (some node) (.trace worker.id (.io cause)) } shared []
  /-- The log cannot be brought up to date. -/
  | flushes {cause : IoError} (stage : worker.stage = .flushing) :
      Failing model worker shared
        { worker with stage := .reporting none (.trace worker.id (.io cause)) } shared []
  /-- A full page cannot be written. -/
  | publishes {node : Node σ} {page : Page σ} {rest : List σ} {number : Nat} {cause : IoError}
      {failure : Failure} {final : Disk} (stage : worker.stage = .publishing node page rest)
      (failed : shared.frontier.failToEnqueue model page number cause shared.disk =
        some (failure, final)) :
      Failing model worker shared { worker with stage := .reporting (some node) failure }
        { shared with disk := final } [.refused page (.failure failure)]
  /-- A page that is given away cannot be written. -/
  | donates {ticket : Nat} {page : Page σ} {number : Nat} {cause : IoError} {failure : Failure}
      {final : Disk} (stage : worker.stage = .waiting (.donate ticket page))
      (failed : shared.frontier.failToEnqueue model page number cause shared.disk =
        some (failure, final)) :
      Failing model worker shared { worker with stage := .reporting none failure }
        { shared with disk := final } [.refused page (.failure failure), .forgone ticket]
  /-- A page that is there cannot be read. -/
  | looks {ticket retries : Nat} {reason : Reason} {failure : Failure}
      (stage : worker.stage = .waiting (.look ticket retries))
      (failed : shared.frontier.failToTake ticket reason shared.disk = some failure) :
      Failing model worker shared { worker with stage := .reporting none failure } shared
        [.forgone ticket]

/-- The events that a mishap stands for, by the stages before and after it. -/
def mishapEvents : (before after : Stage σ) → History σ
  | .publishing _ page _, .reporting _ cause => [.refused page (.failure cause)]
  | .waiting (.donate ticket page), .reporting _ cause =>
      [.refused page (.failure cause), .forgone ticket]
  | .waiting (.look ticket _), .reporting .. => [.forgone ticket]
  | _, _ => []

theorem failing_of_fail (failed : worker.fail model mishap shared = some (next, after)) :
    Failing model worker shared next after (mishapEvents worker.stage next.stage) := by
  unfold fail at failed
  split at failed
  · rename_i stage
    rw [stage]
    split at failed
    · cases failed
    · obtain ⟨rfl, rfl⟩ := Prod.mk.inj (Option.some.inj failed)
      exact .records stage
  · rename_i stage
    rw [stage]
    obtain ⟨rfl, rfl⟩ := Prod.mk.inj (Option.some.inj failed)
    exact .flushes stage
  · rename_i stage
    rw [stage]
    obtain ⟨⟨failure, final⟩, refused, same⟩ := Option.map_eq_some_iff.mp failed
    obtain ⟨rfl, rfl⟩ := Prod.mk.inj same
    exact .publishes stage refused
  · rename_i stage
    rw [stage]
    obtain ⟨⟨failure, final⟩, refused, same⟩ := Option.map_eq_some_iff.mp failed
    obtain ⟨rfl, rfl⟩ := Prod.mk.inj same
    exact .donates stage refused
  · rename_i stage
    rw [stage]
    obtain ⟨failure, refused, same⟩ := Option.map_eq_some_iff.mp failed
    obtain ⟨rfl, rfl⟩ := Prod.mk.inj same
    exact .looks stage refused
  · cases failed

/-- The events that a worker's next step stands for, in whose way a mishap may come. -/
def eventsAmid (model : Model σ) (mishap : Option Mishap) (worker : Worker σ)
    (shared : Shared σ) : History σ :=
  match mishap.bind fun mishap => worker.fail model mishap shared with
  | none => worker.events model shared
  | some (next, _) => mishapEvents worker.stage next.stage

/-- A step turns out in one of the ways of a step, or meets with a mishap. -/
theorem turn_or_failing (model : Model σ) (mishap : Option Mishap) (worker : Worker σ)
    (shared : Shared σ) :
    Turn model worker shared (worker.stepAmid model mishap shared).1
        (worker.stepAmid model mishap shared).2 (worker.eventsAmid model mishap shared) ∨
      Failing model worker shared (worker.stepAmid model mishap shared).1
        (worker.stepAmid model mishap shared).2 (worker.eventsAmid model mishap shared) := by
  unfold stepAmid eventsAmid
  cases failed : mishap.bind fun mishap => worker.fail model mishap shared with
  | none => exact .inl (worker.turn_step model shared)
  | some result =>
    obtain ⟨mishap, -, failed⟩ := Option.bind_eq_some_iff.mp failed
    exact .inr (failing_of_fail failed)

namespace Failing

/-- A mishap is reported, with the node whose successors were being recorded. -/
theorem stage_eq (failing : Failing model worker shared next after events) :
    ∃ node cause, next.stage = .reporting node cause ∧ cause.isOfModel = false := by
  cases failing with
  | records | flushes => exact ⟨_, _, rfl, rfl⟩
  | publishes stage failed | donates stage failed =>
    exact ⟨_, _, rfl, Frontier.isOfModel_of_failToEnqueue failed⟩
  | looks stage failed => exact ⟨_, _, rfl, Frontier.isOfModel_of_failToTake failed⟩

/-- A mishap leaves the worker everything but its stage, and changes nothing that is shared but
files. -/
theorem eq (failing : Failing model worker shared next after events) :
    (∃ maxLevel stage, next = { worker with maxLevel := maxLevel, stage := stage }) ∧
      ∃ disk, after = { shared with disk := disk } := by
  cases failing <;> exact ⟨⟨_, _, rfl⟩, _, rfl⟩

/-- Nobody whose step meets with a mishap has published a report. -/
theorem reports_eq (failing : Failing model worker shared next after events) :
    worker.reports = [] := by
  cases failing <;> simp_all [reports]

/-- Nobody whose step meets with a mishap was about to finish the frontier. -/
theorem ne_latching (failing : Failing model worker shared next after events) :
    worker.stage ≠ .latching := by
  cases failing <;> simp_all

/-- A worker whose step meets with a mishap leaves, and takes one ticket with it at most. -/
theorem length_forgone (failing : Failing model worker shared next after events) :
    (forgone events).length + worker.stage.isOver.toNat ≤ next.stage.isOver.toNat := by
  cases failing with
  | records stage | flushes stage | publishes stage | donates stage | looks stage =>
    simp [stage, Stage.isOver]

/-- A mishap enqueues, delivers and records nothing. -/
theorem quiet (failing : Failing model worker shared next after events) :
    enqueued events = [] ∧ delivered events = [] ∧ recorded events = [] := by
  cases failing <;> exact ⟨rfl, rfl, rfl⟩

/-- A mishap loses a page because of its file. -/
theorem causes (failing : Failing model worker shared next after events) :
    ∀ stop ∈ History.causes events, ∃ failure, stop = .failure failure := by
  cases failing with
  | records | flushes | looks => simp
  | publishes | donates => simp

theorem orderly (failing : Failing model worker shared next after events) : next.Orderly := by
  obtain ⟨node, cause, stage, -⟩ := failing.stage_eq
  exact ⟨by simp [stage], by simp [stage]⟩

/-- A mishap costs a page at most, and a ticket. -/
theorem balanced (failing : Failing model worker shared next after events)
    (balanced : shared.frontier.Balanced model place shared.disk past (worker.pages ++ hands)
      (worker.tickets ++ tickets)) :
    after.frontier.Balanced model place after.disk (past ++ events) (next.pages ++ hands)
        (next.tickets ++ tickets) ∧
      shared.disk.Changes (Spill.PageFileIn place) after.disk := by
  have loses {page : Page σ} {number : Nat} {cause : IoError} {failure : Failure} {final : Disk}
      {first : List (Page σ)} {tickets : List Nat}
      (balanced : shared.frontier.Balanced model place shared.disk past (first ++ [page] ++ hands)
        tickets)
      (failed : shared.frontier.failToEnqueue model page number cause shared.disk =
        some (failure, final)) :
      shared.frontier.Balanced model place final (past ++ [.refused page (.failure failure)])
        (first ++ hands) tickets ∧ shared.disk.Changes (Spill.PageFileIn place) final := by
    obtain ⟨stocks, changes⟩ := balanced.stocks.of_failToEnqueue failed
    exact ⟨Frontier.Balanced.lose { balanced.front with stocks := stocks }, changes⟩
  cases failing with
  | records stage | flushes stage =>
    rw [List.append_nil]
    refine ⟨?_, .refl _ _⟩
    simpa [pages, Worker.tickets, stage] using balanced
  | publishes stage failed =>
    simp only [pages, Worker.tickets, stage, Stage.pages, Stage.ticket?] at balanced
    simpa [pages, Worker.tickets] using loses balanced failed
  | donates stage failed =>
    simp only [pages, Worker.tickets, stage, Stage.pages, Stage.ticket?, Wait.pages,
      Wait.ticket?] at balanced
    obtain ⟨moved, changes⟩ := loses balanced failed
    exact ⟨by simpa [pages, Worker.tickets] using moved.forgo, changes⟩
  | looks stage failed =>
    simp only [pages, Worker.tickets, stage, Stage.pages, Stage.ticket?, Wait.pages,
      Wait.ticket?] at balanced
    exact ⟨by simpa [pages, Worker.tickets] using balanced.forgo, .refl _ _⟩

theorem provided (failing : Failing model worker shared next after events)
    (provided : worker.Provided) : next.Provided := by
  obtain ⟨node, cause, stage, -⟩ := failing.stage_eq
  obtain ⟨⟨maxLevel, stage', rfl⟩, -⟩ := failing.eq
  obtain rfl : stage' = .reporting node cause := stage
  refine ⟨fun page member => provided.filled page ?_, provided.room⟩
  have held : page ∈ worker.held.toList := by simpa [pages] using member
  exact List.mem_append_left _ held

/-- A mishap costs no node but those on a page that is lost. -/
theorem nodes_perm (failing : Failing model worker shared next after events) :
    (nodesOn ((delivered events).map (·.2)) ++ History.nodes events ++ worker.nodes).Perm
      (next.nodes ++ nodesOn (enqueued events) ++ nodesOn (refused events)) := by
  cases failing with
  | records stage | flushes stage | publishes stage | donates stage | looks stage =>
    simp [nodes, pages, stage]

theorem logging (failing : Failing model worker shared next after events)
    (books : shared.frontier.Balanced model place shared.disk past (worker.pages ++ hands)
      (worker.tickets ++ tickets)) :
    Logging model place worker shared.disk next.log after.disk (recorded events) := by
  have changes := (failing.balanced books).2
  cases failing <;> exact .leaves changes

end Failing

end Worker

end Wavefront
