/-
# The pace of a single worker

How long can a worker that is alone go on? Between two nodes that it expands it records
states and looks at successors, and it waits for a page once at most, because the page that
it looks for is there as soon as it has given its own away. `Worker.rank` bounds the number
of steps that it can make before it expands a node, meets a new state, or comes to its end;
what it does then is counted by `Worker.effort`. So a run whose worker expands few nodes
with few successors is over soon.
-/

import Wavefront.Proofs.Exploration.Solitude

namespace Wavefront

open History

variable {σ : Type}

/-- How many steps a call can take that its caller is alone to make, with what follows before the
caller expands a node; it depends on whether the caller holds a page. -/
def Wait.rank (holding : Bool) : Wait σ → Nat
  | readTail => 11
  | advance _ => 10
  | look _ _ => 5 + 4 * holding.toNat
  | rereadTail _ _ => 4 + 4 * holding.toNat
  | rereadHead _ _ _ => 3 + 4 * holding.toNat
  | donate _ _ => 6
  | latch _ => 2

namespace Worker

variable {model : Model σ} {initial : List σ} {place : Location} {past events : History σ}
  {worker next : Worker σ} {shared after : Shared σ}

/-- How many steps a worker can make before it has done anything that counts. -/
def rank (worker : Worker σ) : Nat :=
  match worker.stage with
  | .polling => if worker.backlog.toList.isEmpty then 12 else 4
  | .waiting wait => wait.rank worker.held.isSome
  | .expanding _ => 3
  | .sifting _ rest => 13 + rest.length
  | .recording _ _ rest => 16 + rest.length
  | .claiming _ _ rest => 15 + rest.length
  | .publishing _ _ rest => 14 + rest.length
  | .reporting .. => 2
  | .flushing | .latching | .unwinding _ => 1
  | .stopped | .broken _ => 0

/-- What a worker has done that counts: states met, successors computed, and nodes expanded. -/
def effort (worker : Worker σ) (shared : Shared σ) : Nat :=
  4 * shared.seen.size + worker.generated + 14 * shared.expanded.length

/-- An access of a worker that is alone brings it nearer to the end of its call. -/
theorem Access.rank_lt {wait : Wait σ} {accessed : Accessed σ}
    (stage : worker.stage = .waiting wait)
    (access : Access past worker.held shared.frontier shared.disk wait accessed events)
    (nonempty : ∀ page ∈ waiting past, 0 < page.size) :
    (worker.proceed accessed).rank < worker.rank := by
  cases access with
  | reads | latches | misses | rereads => simp [rank, stage, proceed, Wait.rank]
  | draws =>
    have one := worker.held.isSome.toNat_le
    simp only [rank, stage, proceed, Wait.rank]
    omega
  | @receives ticket retries page rest _ _ waits =>
    -- The page has a node on it, so the worker has something to do.
    have some : page.nodes.toList ≠ [] := by
      have nodes := nonempty page (by simp [waits])
      apply List.ne_nil_of_length_pos
      simpa [Page.size] using nodes
    have busy : (worker.backlog.pushAll page.nodes.toList).toList.isEmpty = false := by
      simpa [List.isEmpty_eq_false_iff] using fun _ => some
    simp only [rank, stage, proceed, receive, busy, Wait.rank, Bool.false_eq_true, if_false]
    omega
  | exhausts empty => simp [rank, stage, proceed, Wait.rank, empty]
  | yields holding => simp [rank, stage, proceed, Wait.rank, holding]
  | donates empty => simp [rank, stage, proceed, Wait.rank, empty]

theorem rank_ending (worker : Worker σ) (node : Option (Node σ)) (stop : Stop) :
    rank { worker with stage := .ending node stop } ≤ 2 := by
  cases stop <;> simp [rank, Stage.ending]

/-- A new successor that has been put in its place is done with. -/
theorem Stowed.rank_le {page : Page σ} {node child : Node σ} {rest : List σ}
    (stowed : Stowed worker page node child rest next) : next.rank ≤ 14 + rest.length := by
  cases stowed <;> simp only [rank] <;> omega

/-- Every step brings the worker nearer to the end of the run, unless it does something that
counts. -/
theorem Turn.rank_lt (turn : Turn model worker shared next after events)
    (solitary : worker.Solitary model initial place past shared)
    (restores : ∀ state, model.Reachable initial state → model.Restores state)
    (kept : refused events = []) (going : worker.stage.isFinal = false) :
    next.rank + worker.effort shared < worker.rank + next.effort after := by
  have quiet (nearer : next.rank < worker.rank) (generated : next.generated = worker.generated)
      (seen : after.seen.size = shared.seen.size) (expanded : after.expanded = shared.expanded) :
      next.rank + worker.effort shared < worker.rank + next.effort after := by
    simp only [effort, generated, seen, expanded]
    exact Nat.add_lt_add_right nearer _
  cases turn with
  | rests final => simp [going] at final
  | heeds stage => exact quiet (by simp only [rank, stage]; split <;> decide) rfl rfl rfl
  | idles stage empty => exact quiet (by simp [rank, stage, empty, Wait.rank]) rfl rfl rfl
  | picks stage taken => exact quiet (by simp [rank, stage, taken]) rfl rfl rfl
  | concludes stage =>
    exact quiet (by simp only [rank, stage, List.length_nil]; split <;> decide) rfl rfl rfl
  | publishes stage => exact quiet (by simp [rank, stage]) rfl rfl rfl
  | sinks stage => exact quiet (by simp only [rank, stage]; omega) rfl rfl rfl
  | flushes stage | reports stage | latches stage | unwinds stage =>
    exact quiet (by simp [rank, stage]) rfl rfl rfl
  | accesses stage turn =>
    have access := solitary.access restores kept stage turn
    exact quiet (access.rank_lt stage fun page => solitary.size_pos)
      (worker.proceed_counts_eq _).1 rfl rfl
  | strands stage =>
    refine quiet (Nat.lt_of_le_of_lt (worker.rank_ending _ _) ?_) rfl rfl rfl
    simp only [rank, stage]
    omega
  | claims stage stowed =>
    refine quiet (Nat.lt_of_le_of_lt stowed.rank_le ?_) stowed.counts_eq.1 rfl rfl
    simp only [rank, stage]
    omega
  | @records node state rest next stage room placed =>
    have low : next.rank ≤ 15 + rest.length ∧ next.generated = worker.generated := by
      cases placed with
      | keeps => exact ⟨by simp only [rank]; omega, rfl⟩
      | seeks => exact ⟨Nat.le_refl _, rfl⟩
      | stows holding stowed =>
        have less := stowed.rank_le
        exact ⟨by omega, stowed.counts_eq.1⟩
    refine quiet ?_ low.2 rfl rfl
    simp only [rank, stage] at low ⊢
    omega
  | skips stage known =>
    refine quiet (by simp [rank, stage]) rfl ?_ rfl
    exact (Seen.size_insert _ _).trans (if_pos known)
  | @meets _ state _ stage new =>
    have more : (shared.seen.insert (model.fingerprint state)).size = shared.seen.size + 1 := by
      simp [Seen.size_insert, new]
    simp only [rank, stage, effort, more, List.length_cons]
    omega
  | @fails node stop stage =>
    have low := worker.rank_ending (some node) stop
    simp only [rank, stage, effort, List.length_cons] at low ⊢
    omega
  | overflows stage | expands stage =>
    simp only [rank, stage, effort, List.length_cons]
    omega

end Worker

namespace Exploration.Course.Lone

variable {model : Model σ} {initial : List σ} {course : Course model initial .empty}

/-- As long as the run has not come to its end, the number of steps is bounded by the effort made
so far. -/
theorem pace (lone : course.Lone) (schedule : List Nat) :
    ∃ worker, (course.pool schedule).workers = [worker] ∧
      (worker.stage.isFinal = false →
        schedule.count 0 + worker.rank ≤ 12 + worker.effort (course.pool schedule).shared) := by
  obtain ⟨place, worker, single, -, pace⟩ := @induction _ _ _ _ lone
    (fun steps _ worker shared => worker.stage.isFinal = false →
      steps + worker.rank ≤ 12 + worker.effort shared)
    (fun _ fresh _ _ => by
      simp only [Worker.rank, fresh.stage, fresh.backlog, List.isEmpty_nil, if_true]
      omega)
    (fun {place steps past events worker next shared after} solitary turn kept before going => by
      cases final : worker.stage.isFinal with
      | true =>
        obtain ⟨rfl, -, -⟩ := turn.of_isFinal final
        simp [final] at going
      | false =>
        have first := before final
        have nearer := turn.rank_lt solitary lone.restores kept final
        omega)
    schedule
  exact ⟨worker, single, pace⟩

/-- A run that has made more steps than the effort accounts for has come to its end. -/
theorem isSettled_of_lt (lone : course.Lone) {schedule : List Nat} {worker : Worker σ}
    (single : (course.pool schedule).workers = [worker])
    (many : 12 + worker.effort (course.pool schedule).shared < schedule.count 0) :
    (course.pool schedule).isSettled = true := by
  obtain ⟨other, same, pace⟩ := lone.pace schedule
  obtain rfl := List.singleton_inj.mp (single.symm.trans same)
  rw [Pool.isSettled, single, List.all_cons, List.all_nil, Bool.and_true]
  by_contra going
  have few := pace (by simpa using going)
  omega

end Exploration.Course.Lone

end Wavefront
