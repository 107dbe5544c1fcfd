/-
# Waiting workers get on

A run never comes to a standstill in which everybody waits for ever. When all workers are
about to look for their pages, one of the pages is there, or one of the workers holds a page
that is waited for, or the next poll of any of them ends the run. In the second case the
page is on its way: a worker that waits gives its page away after so many looks in vain as
the settings say, whatever the others do, and gets no other until its call has ended.
-/

import Wavefront.Proofs.Exploration.Termination
import Wavefront.Proofs.Pool.Standstill

namespace Wavefront.Exploration.Course

open History

variable {σ : Type} {model : Model σ} {initial : List σ} {seen : Seen}

/-- There is no deadlock, and a worker that waits gives its page away in time. If all workers are
about to look for their pages while the frontier is not finished, then the page of one of them is
there, or one of them holds a page that one of them waits for, or `tail` exceeds `head` by the
number of workers and the four accesses of any worker's next poll mark the frontier finished. A
worker that begins to wait with a page and is about to look once more after more looks in vain than
the settings allow has given the page away; and a worker that waits without a page gets none before
its call has ended. -/
theorem progress_of_isLooking (course : Course model initial seen) (schedule : List Nat) :
    (∀ last, (course.pool schedule).shared.frontier.tail = .ticket last →
      (∀ worker ∈ (course.pool schedule).workers, worker.stage.isLooking = true) →
      (course.pool schedule).Supplied ∨ (course.pool schedule).Entangled ∨
        last = (course.pool schedule).shared.frontier.head + course.settings.workerCount ∧
          ∀ position < course.settings.workerCount, ∀ more, 4 ≤ more.count position →
            (course.pool (schedule ++ more)).shared.frontier.tail = .finished) ∧
    (∀ position worker page, (course.pool schedule).workers[position]? = some worker →
      worker.stage.isBeginning = true → worker.held = some page →
      ∀ more, (course.pool schedule).WaitsAlong model position more →
        (course.pool (schedule ++ more)).isLooking position = true →
        course.settings.donationRetries < (course.pool schedule).looks model position more →
        page ∈ enqueued ((course.pool schedule).events model more) ∧
          ∃ later, (course.pool (schedule ++ more)).workers[position]? = some later ∧
            later.pages = []) ∧
    ∀ position worker, (course.pool schedule).workers[position]? = some worker →
      worker.pages = [] →
      ∀ more, (course.pool schedule).WaitsAlong model position more →
        ∃ later, (course.pool (schedule ++ more)).workers[position]? = some later ∧
          later.pages = [] := by
  obtain ⟨place, sound, watched⟩ := course.exists_watched schedule
  have follows := course.follows schedule
  have team := course.length_workers schedule
  refine ⟨fun last tail looking => ?_, fun position worker page found beginning held more
    waits looking often => ?_, fun position worker found empty more waits => ?_⟩
  · by_cases unstaffed : (course.pool schedule).workers = []
    · obtain ⟨head, none⟩ := course.counters_of_unstaffed schedule unstaffed
      have nobody : course.settings.workerCount = 0 := by rw [← team, unstaffed, List.length_nil]
      rw [none] at tail
      cases tail
      exact .inr (.inr ⟨by rw [head, nobody], fun position few => by omega⟩)
    · rcases watched.standstill sound tail looking unstaffed with
        supplied | entangled | ⟨full, drained⟩
      · exact .inl supplied
      · exact .inr (.inl entangled)
      · refine .inr (.inr ⟨by rw [full, follows.workers], fun position within more polls => ?_⟩)
        rw [← team] at within
        have found := List.getElem?_eq_getElem within
        obtain ⟨ticket, retries, stage⟩ :=
          Stage.exists_of_isLooking (looking _ (List.getElem_mem within))
        rw [pool_append]
        exact drained.tail_eq_finished sound watched found stage .looks polls
  · have begun : worker.Keeping (course.pool schedule).shared.frontier.donationRetries page 0 [] :=
      .holds (Stage.eq_of_isBeginning beginning) held .reads
    obtain ⟨later, same, keeping⟩ := Pool.keeping_follow found begun waits
    rw [pool_append] at looking ⊢
    have about : later.stage.isLooking = true := by simpa [Pool.isLooking, same] using looking
    rw [follows.donationRetries] at keeping
    have given := keeping.of_lt about (by simpa using often)
    exact ⟨by simpa using given.2, later, same, given.1⟩
  · rw [pool_append]
    exact Pool.pages_follow found empty waits

/-- Two workers explore a grid of nine states with pages of two nodes. In one run each of them comes
to wait for the page that the other holds. In another the first worker waits for the very page that
it holds, and has given it away after two looks in vain, one more than the settings allow. -/
theorem progress_of_isLooking_of_two :
    let grid : CounterGrid := ⟨2, 2, none⟩
    let circle := List.replicate 21 0 ++
      (List.range 53).map fun turn => if turn % 3 = 0 then 1 else 0
    let begun := List.replicate 18 0 ++ (List.range 32).map fun turn => (turn + 1) % 2
    let more := (List.range 18).map fun turn => (turn + 1) % 2
    ∃ course : Course grid.model grid.initialStates .empty, course.settings.donationRetries = 1 ∧
      ((course.pool circle).shared.frontier.tail = .ticket 6 ∧
        (course.pool circle).shared.frontier.head = 6 ∧ (course.pool circle).Entangled) ∧
      (course.pool begun).looks grid.model 0 more = 2 ∧
      ∃ page ∈ enqueued ((course.pool begun).events grid.model more),
        ∃ later, (course.pool (begun ++ more)).workers[0]? = some later ∧ later.pages = [] ∧
          ∀ further, (course.pool (begun ++ more)).WaitsAlong grid.model 0 further →
            ∃ last, (course.pool (begun ++ more ++ further)).workers[0]? = some last ∧
              last.pages = [] := by
  intro grid circle begun more
  let settings : Settings := { Settings.standard ⟨["runs"]⟩ with
    workers := 2, pageSizing := .fixed 2, inMemoryPages := 1, localBacklog := 0,
    donationRetries := 1 }
  let course := (launch? settings grid.model grid.initialStates .empty 1 0 .empty).get
    (by decide +kernel)
  have retries : course.settings.donationRetries = 1 := by decide +kernel
  refine ⟨course, retries, ?_, by decide +kernel, ?_⟩
  · have tail : (course.pool circle).shared.frontier.tail = .ticket 6 := by decide +kernel
    have head : (course.pool circle).shared.frontier.head = 6 := by decide +kernel
    have unsupplied : ¬ (course.pool circle).Supplied := by decide +kernel
    refine ⟨tail, head, ?_⟩
    rcases (course.progress_of_isLooking circle).1 6 tail (by decide +kernel) with
      supplied | entangled | ⟨full, -⟩
    · exact absurd supplied unsupplied
    · exact entangled
    · have crew : course.settings.workerCount = 2 := by decide +kernel
      omega
  · have waits : (course.pool begun).workers[0]?.any
        (fun worker => worker.stage.isBeginning && worker.held.isSome) = true := by
      decide +kernel
    obtain ⟨worker, found, ready⟩ := (Option.any_eq_true _ _).mp waits
    rw [Bool.and_eq_true, Option.isSome_iff_exists] at ready
    obtain ⟨beginning, page, held⟩ := ready
    obtain ⟨given, later, same, empty⟩ := (course.progress_of_isLooking begun).2.1 0 worker page
      found beginning held more (by decide +kernel) (by decide +kernel) (by decide +kernel)
    exact ⟨page, given, later, same, empty, fun further along =>
      (course.progress_of_isLooking (begun ++ more)).2.2 0 later same empty further along⟩

end Wavefront.Exploration.Course
