/-
# The frontier in memory is bounded, all the time

What `Pool.Bounded` says holds at every moment of every run, for any settings that make sense, any
model and any number of workers in any order of their steps, also when writing or reading a file is
refused. The moments at which the initial states are put on their pages are among them.
-/

import Wavefront.Proofs.Exploration.Custody
import Wavefront.Proofs.Exploration.Reports
import Wavefront.Proofs.Pool.Bounds

namespace Wavefront

open History

variable {σ : Type}

namespace Exploration.Course

variable {model : Model σ} {initial : List σ} {seen : Seen}

/-- A run on more initial states is, in the midst of seeding, where this one is after its launch. -/
theorem launch_more (course : Course model initial seen) (rest : List σ) :
    Exploration.launch course.settings model (initial ++ rest) seen course.process course.number
        course.disk =
      ((course.launch.seedMore model rest).1, course.next,
        (course.launch.seedMore model rest).2) := by
  rw [launch_append, course.launched]

/-- What the bounds follow from holds along every schedule. -/
theorem exists_confined (course : Course model initial seen)
    (schedule : List (Nat × Option Mishap)) :
    ∃ place, Pool.Confined model place course.settings.localBacklog (course.historyAmid schedule)
      (course.poolAmid schedule) := by
  obtain ⟨done, -, place, ready, limits⟩ := @launch_induction _ _ _ _ course
    (fun done past pool => ∃ place, Pool.Ready model initial place done past pool ∧
      ∀ worker ∈ pool.workers, worker.localLimit = course.settings.localBacklog)
    (fun ready hires => ⟨_, ready, fun worker member => by
      rw [(hires.each worker member).blank]
      rfl⟩)
    (fun {_ _ _ _ worker _ _ _ _ _} whole seeding ⟨place, ready, limits⟩ => by
      refine ⟨place, ready.seed whole seeding, fun other among => ?_⟩
      rcases List.mem_cons.mp among with rfl | old
      · cases seeding with
        | knows | plants => exact limits worker List.mem_cons_self
      · exact limits other (List.mem_cons_of_mem _ old))
  have launched : Pool.Confined model place course.settings.localBacklog course.opening
      course.launch.pool := {
    sound := ready.coherent.sound
    positive := ready.positive
    provided := fun worker member => (ready.fresh worker member).provided
    modest := fun worker member => ⟨limits worker member, by
      rw [Fifo.size_eq_length, (ready.fresh worker member).backlog]
      exact Nat.zero_le _⟩ }
  exact ⟨place, Pool.followAmid_induction (Pool.Confined model place course.settings.localBacklog)
    (fun found turn confined => confined.step found turn)
    (fun found failing confined => confined.of_failing found failing) launched schedule⟩

/-- The frontier that is kept in memory is bounded. At every moment of a run, whatever comes in the
way of the steps of its workers, a worker's backlog holds no more nodes than its limit or than the
largest page so far, whichever is more; a page that a worker keeps holds at least one node and has
room for at least one; the pages in memory are no more than the budget, have numbers within the
budget and hold no more than they may; and every other page that waits is whole in its file.

In the midst of seeding, a run on more initial states is where this one is after its launch. -/
theorem bounded_in_memory (course : Course model initial seen) :
    (∀ rest, Exploration.launch course.settings model (initial ++ rest) seen course.process
        course.number course.disk =
      ((course.launch.seedMore model rest).1, course.next,
        (course.launch.seedMore model rest).2)) ∧
    ∀ schedule,
      (course.poolAmid schedule).Bounded model course.settings (course.historyAmid schedule) := by
  refine ⟨course.launch_more, fun schedule => ?_⟩
  have reaches : course.Reaches (course.historyAmid schedule) (course.poolAmid schedule) :=
    .amid schedule
  obtain ⟨place, confined⟩ := course.exists_confined schedule
  exact confined.bounded reaches.follows.sizing reaches.follows.memoryPages

/-- A worker whose backlog is limited to one node has received a page with two. -/
theorem bounded_in_memory_of_overshoot :
    let grid : CounterGrid := ⟨2, 2, none⟩
    ∃ (course : Course grid.model grid.initialStates .empty)
      (schedule : List (Nat × Option Mishap)),
      course.settings.localBacklog = 1 ∧
      (course.poolAmid schedule).workers.map (·.backlog.size) = [2, 0] ∧
      (course.poolAmid schedule).shared.frontier.largest = 3 ∧
      (course.poolAmid schedule).Bounded grid.model course.settings
        (course.historyAmid schedule) := by
  intro grid
  let settings : Settings := { Settings.standard ⟨["runs"]⟩ with
    workers := 2, pageSizing := .fixed 3, inMemoryPages := 2, localBacklog := 1 }
  let course := (launch? settings grid.model grid.initialStates .empty 1 0 .empty).get
    (by decide +kernel)
  exact ⟨course, List.replicate 40 (0, none), by decide +kernel, by decide +kernel,
    by decide +kernel, course.bounded_in_memory.2 _⟩

end Exploration.Course

end Wavefront
