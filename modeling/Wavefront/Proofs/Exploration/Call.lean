/-
# Calls of a single worker

A worker that is alone finds its page when it looks for the first time, if any page waits. If
none does, then it holds the page itself and gives it away, and finds it when it looks for
the second time; or it holds none, and then nothing is left and it finishes the frontier.
So each of its calls ends after two looks at most.
-/

import Wavefront.Proofs.Exploration.Solitude
import Wavefront.Proofs.Pool.Patience

namespace Wavefront

open History

variable {σ : Type}

namespace Pool

variable {model : Model σ} {pool last : Pool σ} {steps looks : Nat} {events : History σ}

/-- So many steps of the first worker, with so many looks for a page among them, lead to a pool. -/
structure Proceeds (model : Model σ) (pool : Pool σ) (steps looks : Nat) (events : History σ)
    (last : Pool σ) : Prop where
  follow : pool.follow model (List.replicate steps 0) = last
  events : pool.events model (List.replicate steps 0) = events
  looks : pool.looks model 0 (List.replicate steps 0) = looks

theorem Proceeds.none (model : Model σ) (pool : Pool σ) : pool.Proceeds model 0 0 [] pool :=
  ⟨rfl, rfl, rfl⟩

theorem Proceeds.cons (later : (pool.stepAt model 0).Proceeds model steps looks events last) :
    pool.Proceeds model (steps + 1) ((pool.isLooking 0).toNat + looks)
      (pool.eventsAt model 0 ++ events) last := by
  refine ⟨later.follow, ?_, ?_⟩
  · rw [List.replicate_succ, Pool.events, later.events]
  · rw [List.replicate_succ, Pool.looks, later.looks, if_pos rfl]

end Pool

/-- How a call of a single worker ends, with its ticket, the number of its looks, and what happens
after the ticket was taken. -/
inductive CallEnds (past : History σ) (held : Option (Page σ)) (last : Pool σ) :
    (ticket looks : Nat) → History σ → Prop where
  /-- The page of the ticket waited already. -/
  | finds {page : Page σ} (waits : page ∈ waiting past) :
      CallEnds past held last page.id 1 [.delivered page.id page]
  /-- The page of the ticket is the one that the worker held. -/
  | yields {page : Page σ} (holding : held = some page) :
      CallEnds past held last page.id 2 [.enqueued page, .delivered page.id page]
  /-- Nothing was left. -/
  | finishes {ticket : Nat} (empty : held = none)
      (ended : last.shared.frontier.tail = .finished) :
      CallEnds past held last ticket 1 [.forgone ticket]

namespace Exploration.Course.Lone

variable {model : Model σ} {initial : List σ} {course : Course model initial .empty}
  {schedule : List Nat} {worker : Worker σ} {wait : Wait σ} {page : Page σ} {rest : List (Page σ)}
  {ticket retries : Nat}

section

variable (lone : course.Lone) (single : (course.pool schedule).workers = [worker])

include lone single

/-- The next access of the only worker. -/
theorem exists_access (stage : worker.stage = .waiting wait) :
    ∃ accessed events,
      Worker.Access (course.history schedule) worker.held (course.pool schedule).shared.frontier
        (course.pool schedule).shared.disk wait accessed events ∧
      (course.pool (schedule ++ [0])).workers = [worker.proceed accessed] ∧
      (course.pool (schedule ++ [0])).shared.frontier = accessed.frontier ∧
      course.history (schedule ++ [0]) = course.history schedule ++ events ∧
      ∀ {steps looks : Nat} {later : History σ} {last : Pool σ},
        (course.pool (schedule ++ [0])).Proceeds model steps looks later last →
        (course.pool schedule).Proceeds model (steps + 1)
          (worker.stage.isLooking.toNat + looks) (events ++ later) last := by
  obtain ⟨place, other, same, solitary⟩ := lone.exists_solitary schedule
  obtain rfl := List.singleton_inj.mp (single.symm.trans same)
  obtain ⟨stepped, histories⟩ := course.step_of_single single
  have kept := lone.refused_eq_nil (schedule ++ [0])
  rw [histories, refused_append, List.append_eq_nil_iff] at kept
  obtain ⟨accessed, access, next, after⟩ := (worker.turn_step model _).of_waiting stage
  refine ⟨accessed, _, solitary.access lone.restores kept.2 stage access, ?_, ?_, histories, ?_⟩
  · rw [stepped, next]
  · rw [stepped, after]
  · intro steps looks later last proceeds
    have made : (course.pool schedule).stepAt model 0 = course.pool (schedule ++ [0]) :=
      (course.pool_append schedule [0]).symm
    rw [← made] at proceeds
    simpa [Pool.eventsAt, Pool.isLooking, single] using proceeds.cons

/-- If a page waits, then it is the one that the worker is about to look for. -/
theorem proceeds_of_look (stage : worker.stage = .waiting (.look ticket retries))
    (waits : waiting (course.history schedule) = page :: rest) :
    page.id = ticket ∧ ∃ last, last.isWaiting 0 = false ∧
      (course.pool schedule).Proceeds model 1 1 [.delivered ticket page] last := by
  obtain ⟨accessed, events, access, alone, -, -, cons⟩ := lone.exists_access single stage
  cases access with
  | misses nothing => cases waits.symm.trans nothing
  | receives first same =>
    obtain ⟨rfl, -⟩ := List.cons.inj (first.symm.trans waits)
    refine ⟨same, _, ?_, by simpa [stage, Stage.isLooking] using cons (.none model _)⟩
    simp [Pool.isWaiting, alone, Worker.proceed, Worker.receive, Stage.isWaiting]

/-- A page that the worker gives away comes back at once. -/
theorem proceeds_of_donate (stage : worker.stage = .waiting (.donate ticket page)) :
    page.id = ticket ∧ ∃ last, last.isWaiting 0 = false ∧
      (course.pool schedule).Proceeds model 2 1 [.enqueued page, .delivered ticket page] last := by
  obtain ⟨accessed, events, access, alone, -, histories, cons⟩ := lone.exists_access single stage
  cases access with
  | donates empty same fresh nothing =>
    have waits : waiting (course.history (schedule ++ [0])) = [page] := by
      rw [histories, waiting_append_enqueued fresh, nothing, List.nil_append]
    obtain ⟨-, last, awake, rest⟩ := lone.proceeds_of_look alone rfl waits
    exact ⟨same, last, awake, by simpa [stage, Stage.isLooking] using cons rest⟩

/-- A worker that gives up finishes the frontier. -/
theorem proceeds_of_latch (stage : worker.stage = .waiting (.latch ticket)) :
    ∃ last, last.isWaiting 0 = false ∧ last.shared.frontier.tail = .finished ∧
      (course.pool schedule).Proceeds model 1 0 [.forgone ticket] last := by
  obtain ⟨accessed, events, access, alone, frontier, -, cons⟩ := lone.exists_access single stage
  cases access with
  | latches =>
    refine ⟨_, ?_, ?_, by simpa [stage, Stage.isLooking] using cons (.none model _)⟩
    · simp [Pool.isWaiting, alone, Worker.proceed, Stage.isWaiting]
    · rw [frontier]
      rfl

/-- If no page waits, then the worker gives away the page that it holds, or finishes the frontier
if it holds none. -/
theorem proceeds_of_miss (stage : worker.stage = .waiting (.look ticket retries))
    (nothing : waiting (course.history schedule) = []) :
    (∃ page last, worker.held = some page ∧ page.id = ticket ∧ last.isWaiting 0 = false ∧
      (course.pool schedule).Proceeds model 5 2
        [.enqueued page, .delivered ticket page] last) ∨
    ∃ last, worker.held = none ∧ last.isWaiting 0 = false ∧
      last.shared.frontier.tail = .finished ∧
      (course.pool schedule).Proceeds model 4 1 [.forgone ticket] last := by
  obtain ⟨accessed, events, access, alone, -, -, looks⟩ := lone.exists_access single stage
  cases access with
  | receives waits => cases nothing.symm.trans waits
  | misses =>
    obtain ⟨accessed, events, access, alone, -, -, rereads⟩ := lone.exists_access alone rfl
    cases access with
    | rereads =>
      obtain ⟨accessed, events, access, alone, -, -, decides⟩ := lone.exists_access alone rfl
      cases access with
      | exhausts empty =>
        obtain ⟨last, awake, ended, rest⟩ := lone.proceeds_of_latch alone rfl
        exact .inr ⟨last, empty, awake, ended, by
          simpa [stage, Worker.proceed, Stage.isLooking] using looks (rereads (decides rest))⟩
      | yields holding same =>
        obtain ⟨-, last, awake, rest⟩ := lone.proceeds_of_donate alone rfl
        exact .inl ⟨_, last, holding, same, awake, by
          simpa [stage, Worker.proceed, Stage.isLooking] using looks (rereads (decides rest))⟩

/-- Every call of a single worker ends after seven steps and two looks at most. -/
theorem exists_callEnds (beginning : worker.stage.isBeginning = true) :
    ∃ steps ≤ 7, ∃ ticket looks events last,
      (course.pool schedule).Proceeds model steps looks (.drawn ticket :: events) last ∧
        last.isWaiting 0 = false ∧
        CallEnds (course.history schedule) worker.held last ticket looks events := by
  have stage := Stage.eq_of_isBeginning beginning
  obtain ⟨accessed, events, access, alone, -, histories, reads⟩ := lone.exists_access single stage
  cases access with
  | @reads seen tail =>
    obtain ⟨accessed, events, access, alone, -, histories', draws⟩ := lone.exists_access alone rfl
    cases access with
    | draws =>
      have same : waiting (course.history (schedule ++ [0] ++ [0])) =
          waiting (course.history schedule) := by
        rw [histories', histories, waiting_append_of_nil rfl rfl, List.append_nil]
      have begin {steps looks : Nat} {later : History σ} {last : Pool σ}
          (rest : (course.pool (schedule ++ [0] ++ [0])).Proceeds model steps looks later last) :
          (course.pool schedule).Proceeds model (steps + 2) looks (.drawn (seen + 1) :: later)
            last := by
        simpa [stage, Worker.proceed, Stage.isLooking] using reads (draws rest)
      cases waits : waiting (course.history schedule) with
      | cons page rest =>
        obtain ⟨number, last, awake, looks⟩ := lone.proceeds_of_look alone rfl (same.trans waits)
        refine ⟨3, by decide, _, 1, _, last, begin looks, awake, ?_⟩
        rw [← number]
        exact .finds (by simp [waits])
      | nil =>
        rcases lone.proceeds_of_miss alone rfl (same.trans waits) with
          ⟨page, last, holding, number, awake, rest⟩ | ⟨last, empty, awake, ended, rest⟩
        · refine ⟨7, by decide, _, 2, _, last, begin rest, awake, ?_⟩
          rw [← number]
          exact .yields holding
        · exact ⟨6, by decide, _, 1, _, last, begin rest, awake, .finishes empty ended⟩

end

end Exploration.Course.Lone

end Wavefront
