/-
# A log decides nothing

What a worker does next does not depend on its log: with another log it makes the same step, and
keeps that log unless the step is about the log. The longer branches of `Worker.step` are stated
here as equations, to be used where two workers are followed at once.
-/

import Wavefront.Proofs.Worker.Turn

namespace Wavefront.Worker

variable {σ : Type} {model : Model σ} {worker next : Worker σ} {shared : Shared σ} {state : σ}

/-- A step of a worker that waits is an access of its call. -/
theorem step_of_waiting {wait : Wait σ} (stage : worker.stage = .waiting wait) :
    worker.step model shared =
      (worker.proceed (wait.step model worker.held shared.frontier shared.disk),
        { shared with
          frontier := (wait.step model worker.held shared.frontier shared.disk).frontier
          disk := (wait.step model worker.held shared.frontier shared.disk).disk }) := by
  simp only [step, stage, proceed]
  generalize wait.step model worker.held shared.frontier shared.disk = after
  rcases after with ⟨progress, held, frontier, disk⟩
  cases progress <;> rfl

/-- A new successor that is not too deep is recorded and put in its place. -/
theorem step_of_recording {node : Node σ} {rest : List σ}
    (stage : worker.stage = .recording node state rest) (room : node.level ≠ levelMax) :
    worker.step model shared =
      ((worker.noting model node state).place node (worker.discovery model node state) rest,
        shared) := by
  simp only [step, stage, record, nextLevel, if_neg room, noting, discovery]

/-- A new successor is put on the page that is claimed for it. -/
theorem step_of_claiming {node child : Node σ} {rest : List σ}
    (stage : worker.stage = .claiming node child rest) :
    worker.step model shared =
      (worker.stow shared.frontier.claim.1 node child rest,
        { shared with frontier := shared.frontier.claim.2 }) := by
  simp only [step, stage]

/-! ## Another log -/

/-- A worker with another log. -/
def withLog (worker : Worker σ) (log : Log) : Worker σ := { worker with log := log }

theorem Stowed.log_eq {page : Page σ} {node child : Node σ} {rest : List σ}
    (stowed : Stowed worker page node child rest next) : next.log = worker.log := by
  cases stowed <;> rfl

theorem proceed_withLog (worker : Worker σ) (log : Log) (accessed : Accessed σ) :
    (worker.withLog log).proceed accessed = (worker.proceed accessed).withLog log := by
  rcases accessed with ⟨progress, held, frontier, disk⟩
  cases progress <;> rfl

theorem log_proceed (worker : Worker σ) (accessed : Accessed σ) :
    (worker.proceed accessed).log = worker.log := by
  rcases accessed with ⟨progress, held, frontier, disk⟩
  cases progress <;> rfl

theorem stow_withLog (worker : Worker σ) (log : Log) (page : Page σ) (node child : Node σ)
    (rest : List σ) :
    (worker.withLog log).stow page node child rest =
      (worker.stow page node child rest).withLog log := by
  unfold stow
  cases page.add child with
  | error fault => rfl
  | ok grown => cases full : grown.isFull <;> simp only [full] <;> rfl

theorem place_withLog (worker : Worker σ) (log : Log) (node child : Node σ) (rest : List σ) :
    (worker.withLog log).place node child rest = (worker.place node child rest).withLog log := by
  by_cases room : worker.backlog.size < worker.localLimit
  · have room' : (worker.withLog log).backlog.size < (worker.withLog log).localLimit := room
    simp only [Worker.place, if_pos room, if_pos room']
    rfl
  · have full : ¬ (worker.withLog log).backlog.size < (worker.withLog log).localLimit := room
    simp only [Worker.place, if_neg room, if_neg full]
    cases holding : worker.held with
    | none => simp only [withLog, holding]
    | some page =>
      simp only [withLog, holding]
      exact stow_withLog { worker with held := none } log page node child rest

theorem log_stow (worker : Worker σ) (page : Page σ) (node child : Node σ) (rest : List σ) :
    (worker.stow page node child rest).log = worker.log :=
  (worker.stowed_stow page node child rest).log_eq

theorem log_place (worker : Worker σ) (node child : Node σ) (rest : List σ) :
    (worker.place node child rest).log = worker.log := by
  have placed := worker.placed_place node child rest
  generalize worker.place node child rest = next at placed
  cases placed with
  | keeps | seeks => rfl
  | stows holding stowed => exact stowed.log_eq

end Wavefront.Worker
