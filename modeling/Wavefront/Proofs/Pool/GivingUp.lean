/-
# Pools that are given up

If a worker cannot be started, the frontier is finished, and those that were not started go. They
have nothing yet, and on a finished frontier a worker that has nothing comes to its end by itself:
so whoever is dismissed might as well have been started, and giving up a pool is finishing its
frontier and some more steps. What every step preserves, and finishing the frontier too, is
therefore preserved when a pool is given up.

Finishing the frontier early takes nothing from the books, the nodes and the logs, nor from the
reasons why workers leave and what they report.
-/

import Wavefront.Proofs.Pool.Reports

namespace Wavefront

open History Trace

variable {σ : Type}

/-- A worker is at the beginning of its loop and has nothing in its backlog. -/
structure Worker.Rested (worker : Worker σ) : Prop where
  stage : worker.stage = .polling
  backlog : worker.backlog.toList = []

namespace Pool

variable {model : Model σ} {pool : Pool σ} {position started : Nat} {worker : Worker σ}

/-! ## Whoever is dismissed might have been started -/

theorem stepAt_set {workers : List (Worker σ)} (inside : position < workers.length)
    (worker : Worker σ) (shared : Shared σ) :
    (Pool.mk (workers.set position worker) shared).stepAt model position =
      ⟨workers.set position (worker.step model shared).1, (worker.step model shared).2⟩ := by
  rw [stepAt, List.getElem?_set_self inside]
  exact congrArg (Pool.mk · _) (List.set_set _)

theorem eventsAt_set {workers : List (Worker σ)} (inside : position < workers.length)
    (worker : Worker σ) (shared : Shared σ) :
    (Pool.mk (workers.set position worker) shared).eventsAt model position =
      worker.events model shared := by
  rw [eventsAt, List.getElem?_set_self inside]

/-- On a finished frontier, a worker that has nothing comes to its end, and does nothing on the way
but bring its log up to date. -/
theorem exists_follow_eq_dismissAt (model : Model σ) (found : pool.workers[position]? = some worker)
    (rested : worker.Rested) (ended : pool.shared.frontier.tail = .finished) :
    ∃ schedule, pool.follow model schedule = pool.dismissAt position ∧
      pool.events model schedule = [] := by
  have inside : position < pool.workers.length := (List.getElem?_eq_some_iff.mp found).1
  have here : pool = ⟨pool.workers.set position worker, pool.shared⟩ := by
    rw [set_eq_self found]
  have flushes : ({ worker with stage := .flushing } : Worker σ).step model pool.shared =
    worker.dismiss pool.shared := rfl
  have goes : pool.dismissAt position =
      ⟨pool.workers.set position (worker.dismiss pool.shared).1,
        (worker.dismiss pool.shared).2⟩ := by
    rw [dismissAt, found]
  rw [goes, here]
  cases reported : pool.shared.report.isSome with
  | true =>
    have heeds : worker.step model pool.shared =
        ({ worker with stage := .flushing }, pool.shared) := by
      simp [Worker.step, rested.stage, reported]
    refine ⟨[position, position], ?_, ?_⟩
    · simp only [follow, List.foldl_cons, List.foldl_nil, stepAt_set inside, heeds, flushes,
        List.set_set]
    · simp only [events, eventsAt_set inside, stepAt_set inside, heeds, Worker.events,
        rested.stage, List.append_nil]
  | false =>
    have idles : worker.step model pool.shared =
        ({ worker with stage := .waiting .readTail }, pool.shared) := by
      have empty : worker.backlog.pop? = none := (Fifo.pop?_eq_none_iff _).mpr rested.backlog
      simp [Worker.step, rested.stage, reported, empty]
    have closed : ({ worker with stage := .waiting .readTail } : Worker σ).step model pool.shared =
        ({ worker with stage := .flushing }, pool.shared) := by
      simp [Worker.step, Wait.step, ended]
    refine ⟨[position, position, position], ?_, ?_⟩
    · simp only [follow, List.foldl_cons, List.foldl_nil, stepAt_set inside, idles, closed, flushes,
        List.set_set]
    · simp [events, eventsAt_set inside, stepAt_set inside, idles, closed, Worker.events,
        Wait.events, Wait.step, ended, rested.stage]

/-- Dismissing workers that have nothing is the same as letting them make steps. -/
theorem exists_follow_eq_dismiss {positions : List Nat} (distinct : positions.Nodup)
    (rested : ∀ position ∈ positions, ∀ worker, pool.workers[position]? = some worker →
      worker.Rested)
    (ended : pool.shared.frontier.tail = .finished) :
    ∃ schedule, pool.follow model schedule = positions.foldl dismissAt pool ∧
      pool.events model schedule = [] := by
  induction positions generalizing pool with
  | nil => exact ⟨[], rfl, rfl⟩
  | cons first rest ih =>
    obtain ⟨apart, distinct⟩ := List.nodup_cons.mp distinct
    rcases found : pool.workers[first]? with _ | worker
    · have same : pool.dismissAt first = pool := by
        rw [dismissAt, found]
      rw [List.foldl_cons, same]
      exact ih distinct (fun position member => rested position (.tail _ member)) ended
    · have mine := rested first List.mem_cons_self worker found
      obtain ⟨steps, goes, silent⟩ := exists_follow_eq_dismissAt model found mine ended
      have later : pool.dismissAt first =
          ⟨pool.workers.set first (worker.dismiss pool.shared).1,
            (worker.dismiss pool.shared).2⟩ := by
        rw [dismissAt, found]
      obtain ⟨schedule, follows, quiet⟩ := @ih (pool.dismissAt first) distinct
        (fun position member other there => by
          rw [later] at there
          have elsewhere : first ≠ position := fun same => apart (same ▸ member)
          rw [List.getElem?_set_ne elsewhere] at there
          exact rested position (.tail _ member) other there)
        (by rw [later]; exact ended)
      refine ⟨steps ++ schedule, ?_, ?_⟩
      · rw [follow_append, goes, follows, List.foldl_cons]
      · rw [events_append, silent, goes, quiet, List.append_nil]

/-- Giving up a pool is finishing its frontier and some more steps, in which nothing happens. -/
theorem exists_follow_eq_giveUp (model : Model σ)
    (rested : ∀ position worker, started ≤ position → pool.workers[position]? = some worker →
      worker.Rested) :
    ∃ schedule, pool.finish.follow model schedule = pool.giveUp started ∧
      pool.finish.events model schedule = [] :=
  exists_follow_eq_dismiss List.nodup_range'
    (fun position member worker found =>
      rested position worker (List.mem_range'_1.mp member).1 found) rfl

/-- What every step of every worker preserves, and finishing the frontier too, is preserved when a
pool is given up in which those that were not started have nothing. -/
theorem giveUp_induction (invariant : History σ → Pool σ → Prop)
    (turns : ∀ {past : History σ} {pool : Pool σ} {position : Nat} {worker next : Worker σ}
      {shared : Shared σ} {events : History σ}, pool.workers[position]? = some worker →
      worker.Turn model pool.shared next shared events → invariant past pool →
      invariant (past ++ events) ⟨pool.workers.set position next, shared⟩)
    (finishes : ∀ {past : History σ} {pool : Pool σ}, invariant past pool →
      invariant past pool.finish)
    (rested : ∀ position worker, started ≤ position → pool.workers[position]? = some worker →
      worker.Rested)
    {past : History σ} (holds : invariant past pool) : invariant past (pool.giveUp started) := by
  obtain ⟨schedule, same, silent⟩ := exists_follow_eq_giveUp model rested
  have after := follow_induction invariant turns (finishes holds) schedule
  rwa [silent, List.append_nil, same] at after

/-- Workers whose turn it never is stay as they are. -/
theorem getElem?_followAmid {schedule : List (Nat × Option Mishap)}
    (others : ∀ turn ∈ schedule, turn.1 ≠ position) :
    (pool.followAmid model schedule).workers[position]? = pool.workers[position]? := by
  induction schedule generalizing pool with
  | nil => rfl
  | cons turn rest ih =>
    have elsewhere : turn.1 ≠ position := others turn List.mem_cons_self
    have same : (pool.stepAmid model turn).workers[position]? = pool.workers[position]? := by
      rw [stepAmid]
      split
      · rfl
      · exact List.getElem?_set_ne elsewhere
    exact (ih fun later member => others later (.tail _ member)).trans same

/-- A frontier that is finished stays finished, whatever comes in the way. -/
theorem tail_followAmid (ended : pool.shared.frontier.tail = .finished)
    (schedule : List (Nat × Option Mishap)) :
    (pool.followAmid model schedule).shared.frontier.tail = .finished :=
  @followAmid_induction σ model (fun _ pool => pool.shared.frontier.tail = .finished)
    (fun _ turn before => by
      obtain ⟨_, _, _, same, -, stays⟩ := turn.frontier_eq
      rw [same]
      exact stays before)
    (fun _ failing before => by
      obtain ⟨-, disk, rfl⟩ := failing.eq
      exact before)
    [] pool ended schedule

theorem tail_giveUp (pool : Pool σ) (started : Nat) :
    (pool.giveUp started).shared.frontier.tail = .finished := by
  have dismissed (positions : List Nat) (pool : Pool σ) :
      (positions.foldl dismissAt pool).shared.frontier = pool.shared.frontier := by
    induction positions generalizing pool with
    | nil => rfl
    | cons first rest ih =>
      rw [List.foldl_cons, ih, dismissAt]
      split <;> rfl
  rw [giveUp, dismissed]
  rfl

/-! ## Finishing the frontier -/

variable {initial : List σ} {place : Location} {past : History σ}

theorem Sound.finish (sound : Sound model place past pool) : Sound model place past pool.finish :=
  ⟨sound.books.finish, sound.orderly, sound.apart⟩

theorem Heeded.finish (heeded : Heeded pool) : Heeded pool.finish where
  ended _ _ _ _ _ := rfl
  latching := heeded.latching
  leaving _ _ _ := .inr rfl
  latched _ := .inl rfl

theorem Charged.finish (charged : Charged model pool) : Charged model pool.finish :=
  ⟨charged.reports, charged.report⟩

theorem Consistent.finish (consistent : Consistent model initial place past pool) :
    Consistent model initial place past pool.finish where
  sound := consistent.sound.finish
  conserved := ⟨consistent.conserved.positive, consistent.conserved.provided,
    consistent.conserved.nodes, consistent.conserved.causes⟩
  logged := consistent.logged
  explained := ⟨consistent.explained.recorded, fun worker member =>
    (consistent.explained.sifts worker member).mono (List.Subset.refl _) fun _ known => known⟩

theorem Tallied.finish (tallied : Tallied model pool) : Tallied model pool.finish :=
  ⟨tallied.generated, tallied.observed⟩

theorem Counted.finish (counted : Counted past pool) : Counted past pool.finish :=
  ⟨counted.crew, counted.left, counted.read⟩

theorem Steady.finish (steady : Steady model past pool) : Steady model past pool.finish :=
  ⟨steady.whole, steady.even, steady.patient⟩

end Pool

end Wavefront
