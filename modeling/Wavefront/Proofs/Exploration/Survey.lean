/-
# Everything that is known throughout a run

`Pool.Surveyed` puts the invariants together that hold at any moment of a run which begins
without having met any state: what becomes of nodes and pages, what is counted, who is to
blame for errors, and what has been met. It holds of every launched pool and is preserved by
every step, so it holds along every schedule.
-/

import Wavefront.Proofs.Exploration.Tracing
import Wavefront.Proofs.Pool.Coverage

namespace Wavefront

open History

variable {σ : Type}

namespace Pool

variable {model : Model σ} {initial done rest : List σ} {place : Location} {past events : History σ}
  {pool : Pool σ} {position : Nat} {worker next : Worker σ} {shared after : Shared σ}
  {others : List (Worker σ)} {state : σ}

/-- Everything that is known of a pool in the midst of a run. -/
structure Surveyed (model : Model σ) (initial : List σ) (place : Location) (past : History σ)
    (pool : Pool σ) : Prop where
  coherent : Coherent model initial place past pool
  tallied : Tallied model pool
  accounted : Accounted model past pool
  lists : Hindered past pool ∨ pool.shared.seen.Lists (pool.prints model past)
  covered : pool.Covered model
  sounded : Sounded past pool
  /-- The initial states have been met. -/
  begun : ∀ state ∈ initial, pool.shared.seen.contains (model.fingerprint state) = true

/-- A step preserves everything that is known. -/
theorem Surveyed.step (restores : ∀ state, model.Reachable initial state → model.Restores state)
    (found : pool.workers[position]? = some worker)
    (turn : worker.Turn model pool.shared next shared events)
    (surveyed : Surveyed model initial place past pool) :
    Surveyed model initial place (past ++ events) ⟨pool.workers.set position next, shared⟩ where
  coherent := surveyed.coherent.step (fun state met => (restores state met).faithful) found turn
  tallied := surveyed.tallied.step found turn
  accounted := surveyed.accounted.step found turn surveyed.coherent surveyed.tallied restores
  lists := lists_step found turn surveyed.coherent surveyed.lists
  covered := surveyed.covered.step found turn
  sounded := surveyed.sounded.step found turn
  begun state member := turn.grows.2 _ (surveyed.begun state member)

/-- Seeding a state lists its fingerprint, whatever was known before. -/
theorem lists_seed {known : List Fingerprint}
    (seeding : worker.Seeding model state shared next after events)
    (lists : shared.seen.Lists (prints model past ⟨worker :: others, shared⟩ ++ known)) :
    after.seen.Lists (prints model (past ++ events) ⟨next :: others, after⟩ ++ known) := by
  cases seeding with
  | knows known =>
    rw [List.append_nil]
    exact lists.insert_of_contains known
  | plants new =>
    refine (lists.insert new).perm ?_
    simpa [prints, Worker.seedling] using List.perm_middle.symm

/-- Seeding a state is noted as deep as it lies. -/
theorem Sounded.seed (seeding : worker.Seeding model state shared next after events)
    (sounded : Sounded past ⟨worker :: others, shared⟩) :
    Sounded (past ++ events) ⟨next :: others, after⟩ := by
  have found : (worker :: others)[0]? = some worker := rfl
  show Sounded (past ++ events) ⟨(worker :: others).set 0 next, after⟩
  cases seeding with
  | knows => exact sounded.set found (.inl ⟨rfl, rfl⟩) (by simp)
  | plants => exact sounded.set found (.inr ⟨worker.seedling model state, rfl, rfl⟩) (by simp)

end Pool

namespace Exploration.Course

variable {model : Model σ} {initial : List σ}

/-- The fingerprints met during a launch are listed with those known before. -/
theorem lists_launch {seen : Seen} {known : List Fingerprint} (course : Course model initial seen)
    (lists : seen.Lists known) :
    course.launch.pool.shared.seen.Lists
      (course.launch.pool.prints model course.opening ++ known) := by
  obtain ⟨-, -, launched⟩ := @launch_induction _ _ _ _ course
    (fun _ past pool => pool.shared.seen.Lists (pool.prints model past ++ known))
    (fun {place pool} ready hires => by
      have none : pool.prints model [] = [] := by
        rw [Pool.prints, nodes_nil, List.map_nil, List.nil_append, List.map_eq_nil_iff,
          List.flatMap_eq_nil_iff]
        intro worker member
        rw [(ready.fresh worker member).stage]
        rfl
      rw [none, hires.seen]
      exact lists)
    (fun _ seeding lists => Pool.lists_seed seeding lists)
  exact launched

/-- Everything is known of a pool that was launched with a worker at least, and the fingerprints
met are listed. -/
theorem exists_surveyed_launch (course : Course model initial .empty)
    (staffed : 0 < course.settings.workerCount) :
    (∃ place, Pool.Surveyed model initial place course.opening course.launch.pool) ∧
      course.launch.pool.shared.seen.Lists (course.launch.pool.prints model course.opening) := by
  obtain ⟨done, all, ⟨place, ready⟩, sounded⟩ := @launch_induction _ _ _ _ course
    (fun done past pool => (∃ place, Pool.Ready model initial place done past pool) ∧
      Pool.Sounded past pool)
    (fun {place pool} ready hires => ⟨⟨place, ready⟩,
      ⟨by simp, fun worker member => .inl (hires.each worker member).maxLevel_eq⟩⟩)
    (fun whole seeding ⟨⟨place, ready⟩, sounded⟩ =>
      ⟨⟨place, ready.seed whole seeding⟩, sounded.seed seeding⟩)
  have lists := course.lists_launch Seen.lists_empty
  rw [List.append_nil] at lists
  have team : course.launch.pool.workers ≠ [] := by
    have length := course.length_workers []
    intro none
    rw [pool, Pool.follow, List.foldl_nil, none, List.length_nil] at length
    omega
  refine ⟨⟨place, ?_⟩, lists⟩
  exact {
    coherent := ready.coherent
    tallied := ready.tallied
    accounted := ready.accounted
    lists := .inr lists
    covered := fun node member => by
      rw [ready.expanded] at member
      cases member
    sounded := sounded
    begun := fun state member => ready.met state (all team ▸ member) }

/-- Everything is known of a pool along every schedule. -/
theorem exists_surveyed (course : Course model initial .empty)
    (staffed : 0 < course.settings.workerCount)
    (restores : ∀ state, model.Reachable initial state → model.Restores state)
    (schedule : List Nat) :
    ∃ place, Pool.Surveyed model initial place (course.history schedule)
      (course.pool schedule) := by
  obtain ⟨⟨place, surveyed⟩, -⟩ := course.exists_surveyed_launch staffed
  exact ⟨place, Pool.follow_induction (Pool.Surveyed model initial place)
    (fun found turn before => before.step restores found turn) surveyed schedule⟩

end Exploration.Course

end Wavefront
