/-
# Every state in its place, all the time

What `Pool.InPlace` says holds at every moment of every run, for any number of workers and in any
order of their steps. The moments at which the initial states are put on their pages are among
them: launching a run on more states begins with launching it on fewer.
-/

import Wavefront.Proofs.Exploration.Assertions
import Wavefront.Proofs.Exploration.Survey
import Wavefront.Proofs.Pool.Custody

namespace Wavefront

open History

variable {σ : Type}

namespace Exploration

variable {model : Model σ} {initial : List σ} {seen : Seen}

/-! ## Seeding state by state -/

/-- Some states are seeded after others. -/
theorem seed_append (model : Model σ) (done rest : List σ) (worker : Worker σ) (shared : Shared σ) :
    seed model (done ++ rest) worker shared =
      match seed model done worker shared with
      | (.error stop, worker, shared) => (.error stop, worker, shared)
      | (.ok (), worker, shared) => seed model rest worker shared := by
  induction done generalizing worker shared with
  | nil => rfl
  | cons state later ih =>
    rw [List.cons_append, seed, seed]
    rcases worker.seed model state 1 shared with ⟨stop | answer, worker', shared'⟩
    · rfl
    · exact ih worker' shared'

theorem seedFirst_append (model : Model σ) (done rest : List σ) (workers : List (Worker σ))
    (shared : Shared σ) :
    seedFirst model (done ++ rest) workers shared =
      match seedFirst model done workers shared with
      | (.error stop, disk) => (.error stop, disk)
      | (.ok pool, _) => seedFirst model rest pool.workers pool.shared := by
  cases workers with
  | nil => rfl
  | cons first others =>
    simp only [seedFirst, seed_append]
    rcases seed model done first shared with ⟨stop | ⟨⟩, worker, after⟩ <;> rfl

/-- Go on with a launch: seed some more states. -/
def Launch.seedMore (launch : Launch σ) (model : Model σ) (rest : List σ) :
    Except Stop (Launch σ) × Disk :=
  match seedFirst model rest launch.pool.workers launch.pool.shared with
  | (.error stop, disk) => (.error stop, disk)
  | (.ok pool, disk) =>
      (.ok ⟨pool, launch.runDirectory, launch.initialStates + rest.length⟩, disk)

/-- A launch on some states goes on from a launch on the first of them. -/
theorem launch_append (settings : Settings) (model : Model σ) (done rest : List σ) (seen : Seen)
    (process number : Nat) (disk : Disk) :
    launch settings model (done ++ rest) seen process number disk =
      match launch settings model done seen process number disk with
      | (.error stop, next, disk) => (.error stop, next, disk)
      | (.ok launch, next, _) =>
          ((launch.seedMore model rest).1, next, (launch.seedMore model rest).2) := by
  unfold launch
  cases settings.validate with
  | error cause => rfl
  | ok done' =>
    rcases prepareDirectory settings process number disk with ⟨failure | directory, next, prepared⟩
    · rfl
    · simp only [launchIn]
      rcases @Frontier.establish σ { settings with directory := directory } prepared with
        ⟨failure | frontier, opened⟩
      · rfl
      · simp only
        rcases @hire σ directory settings.specName settings.localBacklog
            ((List.range settings.workerCount).map UInt16.ofNat) opened with
          ⟨failure | workers, hired⟩
        · rfl
        · simp only [seedFirst_append]
          rcases seedFirst model done workers ⟨frontier, hired, seen, none, []⟩ with
            ⟨stop | pool, seeded⟩
          · rfl
          · rcases more : seedFirst model rest pool.workers pool.shared with
              ⟨stop | whole, final⟩ <;>
              simp only [Launch.seedMore, more, List.length_append]

end Exploration

/-! ## All the time -/

namespace Pool

variable {model : Model σ} {initial done : List σ} {place : Location} {past : History σ}
  {pool : Pool σ} {known : List Fingerprint}

theorem Ready.guarded (ready : Ready model initial place done past pool)
    (lists : pool.shared.seen.Lists (pool.prints model past ++ known)) :
    Guarded model initial place known past pool where
  coherent := ready.coherent
  even := ready.steady.even
  begun := by
    have none : pool.begun = [] := List.flatMap_eq_nil_iff.mpr fun worker member => by
      rw [(ready.fresh worker member).stage]
      rfl
    rw [none]
    exact List.nil_subperm
  lists := .inr lists

end Pool

namespace Exploration.Course

variable {model : Model σ} {initial : List σ} {seen : Seen}

/-- What the places of nodes follow from holds along every schedule. -/
theorem exists_guarded (course : Course model initial seen)
    (faithful : ∀ state, model.Reachable initial state → model.Faithful state)
    (schedule : List Nat) :
    ∃ place known, seen.Lists known ∧
      Pool.Guarded model initial place known (course.history schedule) (course.pool schedule) := by
  obtain ⟨known, listed⟩ := seen.exists_lists
  obtain ⟨place, done, -, ready⟩ := course.exists_ready
  exact ⟨place, known, listed, Pool.follow_induction (Pool.Guarded model initial place known)
    (fun found turn guarded => guarded.step faithful found turn)
    (ready.guarded (course.lists_launch listed)) schedule⟩

/-- No state is lost, and none is in two places. Let the states that can be reached be read back as
they were written. At every moment of a run, as long as no page was refused and no worker has
broken down, a fingerprint that was accepted is in one of two conditions. Either one worker is
about to record it, and it has neither a node nor a record; or there is one node with it, in one
place, and one record of it in one log, which is where the reference of the node says. A node is
among those whose expansion is over; or with one worker, which is expanding it, or has it in its
backlog, or on the page that it keeps, or is moving it; or on a page in memory or in a file.
Besides, what a worker has put into its backlog and not taken out is what is there.

In the midst of seeding, a run on more initial states is where this one is after its launch. -/
theorem each_in_one_place (course : Course model initial seen)
    (restores : ∀ state, model.Reachable initial state → model.Restores state) :
    (∀ rest, Exploration.launch course.settings model (initial ++ rest) seen course.process
        course.number course.disk =
      ((course.launch.seedMore model rest).1, course.next,
        (course.launch.seedMore model rest).2)) ∧
    ∀ schedule, refused (course.history schedule) = [] →
      (∀ worker ∈ (course.pool schedule).workers, worker.stage.fault? = none) →
      (course.pool schedule).InPlace model seen := by
  refine ⟨fun rest => ?_, fun schedule refused whole => ?_⟩
  · rw [launch_append, course.launched]
  · obtain ⟨place, known, listed, guarded⟩ :=
      course.exists_guarded (fun state met => (restores state met).faithful) schedule
    exact guarded.inPlace (fun node member => restores _ (guarded.coherent.reachable node member))
      refused whole listed

/-- One of two workers on a grid has spilled a page to a file, and is expanding its third node. -/
theorem each_in_one_place_of_spill :
    let grid : CounterGrid := ⟨2, 2, none⟩
    let places (pool : Pool GridState) (spot : Spot) : List GridState :=
      (pool.nodesAt grid.model spot).map Node.state
    ∃ (course : Course grid.model grid.initialStates .empty) (schedule : List Nat),
      places (course.pool schedule) .expanded = [⟨1, 0⟩, ⟨0, 0⟩] ∧
      places (course.pool schedule) (.worker 0 .expanding) = [⟨2, 0⟩] ∧
      places (course.pool schedule) (.file 2) = [⟨0, 1⟩, ⟨1, 1⟩] ∧
      (course.pool schedule).InPlace grid.model .empty := by
  intro grid places
  let settings : Settings := { Settings.standard ⟨["runs"]⟩ with
    workers := 2, pageSizing := .fixed 2, inMemoryPages := 1, localBacklog := 1 }
  let course := (launch? settings grid.model grid.initialStates .empty 1 0 .empty).get
    (by decide +kernel)
  exact ⟨course, List.replicate 23 0, by decide +kernel, by decide +kernel, by decide +kernel,
    (course.each_in_one_place fun state _ => grid.lossless_model.restores state).2 _
      (by decide +kernel) (by decide +kernel)⟩

end Exploration.Course

end Wavefront
