/-
# What a finished frontier stops

When the frontier is finished, a worker gets no more pages. This stops only those that ask for one:
a worker with a backlog does not look at the frontier, but at the report. So it matters why the
frontier is finished. If there is nothing left to do, then nobody has a backlog. If an error was
reported, then every worker sees the report before it takes another node, and expands the one that
it has taken already. But if a worker has broken down, nothing was reported: then the others expand
their backlogs and whatever they put there meanwhile.
-/

import Wavefront.Proofs.Exploration.Tracing
import Wavefront.Proofs.Pool.Patience

namespace Wavefront

open History

variable {σ : Type}

/-- Whether a worker is about to expand a node. -/
def Stage.isExpanding : Stage σ → Bool
  | expanding _ => true
  | _ => false

namespace Worker

variable {model : Model σ} {worker next : Worker σ} {shared after : Shared σ} {events : History σ}

/-- Before it expands a node, a worker takes it from its backlog. -/
theorem Turn.polling_of_isExpanding (turn : Turn model worker shared next after events)
    (expanding : next.stage.isExpanding = true) : worker.stage = .polling := by
  have ending {node : Option (Node σ)} {stop : Stop}
      (expanding : (Stage.ending node stop).isExpanding = true) : False := by
    cases stop <;> cases expanding
  have stowing {worker next : Worker σ} {page : Page σ} {node child : Node σ} {rest : List σ}
      (stowed : Stowed worker page node child rest next)
      (expanding : next.stage.isExpanding = true) : False := by
    cases stowed <;> cases expanding
  cases turn with
  | picks stage => exact stage
  | heeds | idles | overflows | expands | concludes | meets | skips | sinks | publishes | flushes
    | reports | latches | unwinds => cases expanding
  | rests final => cases stage : worker.stage <;> simp_all [Stage.isFinal, Stage.isExpanding]
  | fails | strands => exact (ending expanding).elim
  | accesses stage turn =>
    cases turn with
    | closed | reads | draws | outrun | misses | receives | chokes | rereads | ends | exhausts
      | breaks | retries | yields | latches | donates => cases expanding
    | @refuses _ _ stop => cases stop <;> cases expanding
  | records stage room placed =>
    cases placed with
    | keeps | seeks => cases expanding
    | stows holding stowed => exact (stowing stowed expanding).elim
  | claims stage stowed => exact (stowing stowed expanding).elim

/-- When an error was reported, a worker takes no node any more. -/
theorem not_isExpanding_step (model : Model σ) (worker : Worker σ)
    (reported : shared.report.isSome = true) :
    (worker.step model shared).1.stage.isExpanding = false := by
  by_contra taken
  have polling := (worker.turn_step model shared).polling_of_isExpanding (by simpa using taken)
  exact taken (by simp [step, polling, reported, Stage.isExpanding])

end Worker

namespace Pool

variable {model : Model σ} {place : Location} {past : History σ} {pool : Pool σ}
  {position turn : Nat}

/-- Whether the worker at a position is about to expand a node. -/
def isExpanding (pool : Pool σ) (position : Nat) : Bool :=
  pool.workers[position]?.any (·.stage.isExpanding)

/-- The number of expansions that the worker at a position begins along a schedule. -/
def expansions (model : Model σ) (position : Nat) : (schedule : List Nat) → Pool σ → Nat
  | [], _ => 0
  | turn :: rest, pool =>
      (if turn = position then (pool.isExpanding position).toNat else 0) +
        expansions model position rest (pool.stepAt model turn)

/-- What a worker is about to do does not depend on the steps of others. -/
theorem isExpanding_stepAt_of_ne (model : Model σ) (pool : Pool σ) (other : turn ≠ position) :
    (pool.stepAt model turn).isExpanding position = pool.isExpanding position := by
  unfold isExpanding stepAt
  split
  · rfl
  · rw [List.getElem?_set_ne other]

/-- A step does not withdraw a report. -/
theorem report_stepAt (model : Model σ) (reported : pool.shared.report.isSome = true)
    (turn : Nat) : (pool.stepAt model turn).shared.report.isSome = true := by
  unfold stepAt
  split
  · exact reported
  · rename_i worker found
    exact (worker.turn_step model pool.shared).report_isSome reported

/-- When an error was reported, a worker that has made a step is not about to expand a node. -/
theorem not_isExpanding_stepAt (model : Model σ) (reported : pool.shared.report.isSome = true)
    (position : Nat) : (pool.stepAt model position).isExpanding position = false := by
  unfold isExpanding stepAt
  split
  · rename_i absent
    rw [absent]
    rfl
  · rename_i worker found
    obtain ⟨within, -⟩ := List.getElem?_eq_some_iff.mp found
    rw [List.getElem?_set_self within]
    exact worker.not_isExpanding_step model reported

/-- When an error was reported, a worker expands at most the node that it has taken already. -/
theorem expansions_le_of_report (model : Model σ) (reported : pool.shared.report.isSome = true)
    (position : Nat) (schedule : List Nat) :
    pool.expansions model position schedule ≤ (pool.isExpanding position).toNat := by
  induction schedule generalizing pool with
  | nil => exact Nat.zero_le _
  | cons turn rest ih =>
    have later := ih (report_stepAt model reported turn)
    rw [expansions]
    by_cases own : turn = position
    · subst own
      rw [not_isExpanding_stepAt model reported turn] at later
      rw [if_pos rfl]
      exact Nat.add_le_add_left later _
    · rw [isExpanding_stepAt_of_ne model pool own] at later
      rw [if_neg own, Nat.zero_add]
      exact later

/-- In a drained pool, nobody is about to expand a node. -/
theorem Drained.isExpanding_eq_false (drained : pool.Drained past) (position : Nat) :
    pool.isExpanding position = false := by
  unfold isExpanding
  cases found : pool.workers[position]? with
  | none => rfl
  | some worker =>
    rcases (drained.bare worker (List.mem_of_getElem? found)).stage with
      ⟨wait, ticket, stage, -⟩ | ⟨-, stage | stage⟩
    all_goals
      rw [Option.any_some, stage]
      rfl

/-- In a drained pool, nobody expands anything. -/
theorem Drained.expansions_eq_zero (sound : Sound model place past pool)
    (watched : Watched past pool) (drained : pool.Drained past) (position : Nat)
    (schedule : List Nat) : pool.expansions model position schedule = 0 := by
  induction schedule generalizing pool past with
  | nil => rfl
  | cons turn rest ih =>
    obtain ⟨sound', watched'⟩ := Watched.follow sound watched [turn]
    have later : (pool.stepAt model turn).expansions model position rest = 0 :=
      ih sound' watched' (drained.follow sound watched [turn])
    simp [expansions, drained.isExpanding_eq_false position, later]

end Pool

namespace Exploration.Course

variable {model : Model σ} {initial : List σ} {seen : Seen}

/-- That workers leave and that the frontier is finished has its reasons along every schedule. -/
theorem exists_concerted (course : Course model initial seen) (schedule : List Nat) :
    ∃ place, Pool.Sound model place (course.history schedule) (course.pool schedule) ∧
      Pool.Watched (course.history schedule) (course.pool schedule) ∧
      Pool.Concerted (course.history schedule) (course.pool schedule) := by
  obtain ⟨place, done, -, ready⟩ := course.exists_ready
  exact ⟨place, Pool.follow_induction
    (fun past pool => Pool.Sound model place past pool ∧ Pool.Watched past pool ∧
      Pool.Concerted past pool)
    (fun found turn each => ⟨each.1.step found turn, each.2.1.step found turn each.1,
      each.2.2.step found turn each.1 each.2.1⟩)
    ⟨ready.coherent.sound, ready.coherent.watched, ready.concerted⟩ schedule⟩

/-- Once the frontier is finished, every worker begins at most one more expansion, if an error was
reported or nobody has broken down: whatever is in its backlog, whoever has finished the frontier,
and however the workers go on. If nothing was reported, nobody begins any. -/
theorem expansions_le_one_of_finished (course : Course model initial seen) (schedule : List Nat)
    (ended : (course.pool schedule).shared.frontier.tail = .finished)
    (reason : (course.pool schedule).shared.report.isSome = true ∨
      ∀ worker ∈ (course.pool schedule).workers, ∀ fault, worker.stage ≠ .broken fault)
    (position : Nat) (more : List Nat) :
    (course.pool schedule).expansions model position more ≤ 1 ∧
      ((course.pool schedule).shared.report = none →
        (course.pool schedule).expansions model position more = 0) := by
  obtain ⟨place, sound, watched, concerted⟩ := course.exists_concerted schedule
  have reported (told : (course.pool schedule).shared.report.isSome = true) :
      (course.pool schedule).expansions model position more ≤ 1 :=
    (Pool.expansions_le_of_report model told position more).trans (Bool.toNat_le _)
  rcases concerted.finished ended with drained | told | ⟨worker, member, fault, broken⟩
  · have none := drained.expansions_eq_zero sound watched position more
    exact ⟨none.le.trans (Nat.zero_le 1), fun _ => none⟩
  · exact ⟨reported told, fun quiet => by simp [quiet] at told⟩
  · rcases reason with told | whole
    · exact ⟨reported told, fun quiet => by simp [quiet] at told⟩
    · exact absurd broken (whole worker member fault)

/-- When one worker has reported a violation, the other expands the node that it has taken already
and no more, although there is another one in its backlog. -/
theorem expansions_le_one_of_finished_of_violation :
    let grid : CounterGrid := ⟨3, 3, some 5⟩
    let turns := List.replicate 12 0 ++ List.replicate 8 1
    ∃ course : Course grid.model [⟨0, 0⟩, ⟨3, 3⟩] .empty,
      (course.pool turns).shared.frontier.tail = .finished ∧
      (course.pool turns).isExpanding 0 = true ∧
      (course.pool turns).workers.map (·.backlog.size) = [1, 0] ∧
      ∀ more, (course.pool turns).expansions grid.model 0 more ≤ 1 := by
  intro grid turns
  let settings : Settings := { Settings.standard ⟨["runs"]⟩ with
    workers := 2, pageSizing := .fixed 1 }
  let course := (launch? settings grid.model [⟨0, 0⟩, ⟨3, 3⟩] .empty 1 0 .empty).get
    (by decide +kernel)
  have ended : (course.pool turns).shared.frontier.tail = .finished := by decide +kernel
  have reported : (course.pool turns).shared.report.isSome = true := by decide +kernel
  refine ⟨course, ended, by decide +kernel, by decide +kernel, fun more => ?_⟩
  exact (course.expansions_le_one_of_finished turns ended (.inl reported) 0 more).1

/-- When one worker has broken down, the other expands all states that are left, although the
frontier is finished. -/
theorem many_expansions_of_breakdown :
    let grid : CounterGrid := ⟨3, 3, none⟩
    let model : Model GridState := { grid.model with
      successors := fun state =>
        if state = ⟨3, 3⟩ then .error (.fault (.model "no successors")) else grid.successors state }
    let turns := List.replicate 12 0 ++ List.replicate 8 1
    ∃ course : Course model [⟨0, 0⟩, ⟨3, 3⟩] .empty,
      (course.pool turns).shared.frontier.tail = .finished ∧
      firstFault? (course.pool turns).workers = some (.model "no successors") ∧
      (course.pool turns).workers.map (·.stage.isFinal) = [false, true] ∧
      (course.pool turns).expansions model 0 (List.replicate 85 0) = 14 := by
  intro grid model turns
  let settings : Settings := { Settings.standard ⟨["runs"]⟩ with
    workers := 2, pageSizing := .fixed 1 }
  let course := (launch? settings model [⟨0, 0⟩, ⟨3, 3⟩] .empty 1 0 .empty).get
    (by decide +kernel)
  exact ⟨course, by decide +kernel, by decide +kernel, by decide +kernel, by decide +kernel⟩

end Exploration.Course

end Wavefront
