/-
# The patience of a waiting worker

A worker that waits for a page may hold one itself, for which somebody else may be
waiting. It does not hold on to it for ever: each look in vain is counted, and when
there have been more of them than the settings allow, the page has been given away.
Nothing that other workers do can change this, because the count is the worker's own.

A call that waits never brings a page into the worker's hands. The only page that it
can receive is the one that it ends with.
-/

import Mathlib.Data.List.Infix
import Wavefront.Proofs.Pool.Books

namespace Wavefront

open History

variable {σ : Type}

namespace Stage

/-- Whether a worker is in the midst of a call. -/
def isWaiting : Stage σ → Bool
  | waiting _ => true
  | _ => false

/-- Whether a worker has just begun to wait. -/
def isBeginning : Stage σ → Bool
  | waiting .readTail => true
  | _ => false

/-- Whether a worker waits and is between two polls, about to look for its page. -/
def isLooking : Stage σ → Bool
  | waiting (.look _ _) => true
  | _ => false

theorem exists_of_isLooking {stage : Stage σ} (looking : stage.isLooking = true) :
    ∃ ticket retries, stage = .waiting (.look ticket retries) := by
  unfold isLooking at looking
  split at looking
  · exact ⟨_, _, rfl⟩
  · cases looking

theorem eq_of_isBeginning {stage : Stage σ} (beginning : stage.isBeginning = true) :
    stage = .waiting .readTail := by
  unfold isBeginning at beginning
  split at beginning
  · rfl
  · cases beginning

end Stage

/-! ## One worker -/

namespace Wait

/-- Where a call may stand after so many looks in vain, as long as its caller keeps a page. -/
inductive Patient (limit : Nat) : Wait σ → (looks : Nat) → Prop where
  | reads : Patient limit .readTail 0
  | draws {seen : Nat} : Patient limit (.advance seen) 0
  | looks {ticket retries : Nat} (few : retries ≤ limit) :
      Patient limit (.look ticket retries) retries
  | rereads {ticket retries : Nat} (few : retries ≤ limit) :
      Patient limit (.rereadTail ticket retries) (retries + 1)
  | decides {ticket retries : Nat} {tail : Tail} (few : retries ≤ limit) :
      Patient limit (.rereadHead ticket retries tail) (retries + 1)

end Wait

namespace Worker

variable {model : Model σ} {worker next : Worker σ} {shared after : Shared σ}
  {events : History σ} {page : Page σ} {given : List (Page σ)} {limit looks : Nat}

/-- What has become of a page that a worker held when it began to wait, after so many looks
in vain and when some pages have been left to wait since. -/
inductive Keeping (limit : Nat) (page : Page σ) (looks : Nat) (given : List (Page σ))
    (worker : Worker σ) : Prop where
  /-- The worker still holds the page. -/
  | holds {wait : Wait σ} (stage : worker.stage = .waiting wait) (held : worker.held = some page)
      (patient : wait.Patient limit looks)
  /-- The worker is about to give the page away. -/
  | yields {ticket : Nat} (stage : worker.stage = .waiting (.donate ticket page))
      (held : worker.held = none)
  /-- The worker has given the page away and has no other. -/
  | gave (empty : worker.pages = []) (member : page ∈ given)

/-- A call that goes on does not bring a page into the hands of its caller. -/
theorem Turn.pages_subset (turn : Turn model worker shared next after events)
    (waits : worker.stage.isWaiting = true) (goes : next.stage.isWaiting = true) :
    next.pages ⊆ worker.pages := by
  cases stage : worker.stage with
  | waiting wait =>
    obtain ⟨accessed, access, rfl, rfl⟩ := turn.of_waiting stage
    cases access with
    | closed | receives | chokes | ends | breaks | latches =>
      simp [proceed, receive, Stage.ending, Stage.isWaiting] at goes
    | @refuses _ _ stop => cases stop <;> simp [proceed, Stage.ending, Stage.isWaiting] at goes
    | reads | draws | outrun | misses | rereads | exhausts | retries | donates =>
      simp [pages, stage, proceed]
    | yields holding => simp [pages, stage, proceed, holding]
  | _ => simp [stage, Stage.isWaiting] at waits

/-- One step of a worker that goes on waiting. A look in vain is counted; the page is given up
when the count has reached the limit, if not before. -/
theorem Keeping.turn (keeping : worker.Keeping shared.frontier.donationRetries page looks given)
    (turn : Turn model worker shared next after events)
    (waits : worker.stage.isWaiting = true) (goes : next.stage.isWaiting = true) :
    next.Keeping shared.frontier.donationRetries page (looks + worker.stage.isLooking.toNat)
      (given ++ enqueued events) := by
  cases keeping with
  | gave empty member =>
    have none : next.pages = [] := List.subset_nil.mp (empty ▸ turn.pages_subset waits goes)
    exact .gave none (List.mem_append_left _ member)
  | yields stage held =>
    obtain ⟨accessed, access, rfl, rfl⟩ := turn.of_waiting stage
    cases access with
    | donates enqueued => exact .gave (by simp [pages, proceed, held]) (by simp)
    | @refuses _ _ stop => cases stop <;> simp [proceed, Stage.ending, Stage.isWaiting] at goes
  | holds stage held patient =>
    obtain ⟨accessed, access, rfl, rfl⟩ := turn.of_waiting stage
    cases access with
    | closed | receives | chokes | ends | breaks | latches =>
      simp [proceed, receive, Stage.ending, Stage.isWaiting] at goes
    | @refuses _ _ stop => cases stop <;> simp [proceed, Stage.ending, Stage.isWaiting] at goes
    | exhausts empty => cases held.symm.trans empty
    | donates => cases patient
    | reads =>
      cases patient
      exact .holds rfl held (by rw [stage]; exact .draws)
    | outrun =>
      cases patient
      exact .holds rfl held (by rw [stage]; exact .reads)
    | draws =>
      cases patient
      exact .holds rfl held (by rw [stage]; exact .looks (Nat.zero_le _))
    | misses =>
      cases patient with
      | looks few => exact .holds rfl held (by rw [stage]; exact .rereads few)
    | rereads =>
      cases patient with
      | rereads few => exact .holds rfl held (by rw [stage]; exact .decides few)
    | retries going fair =>
      cases patient with
      | decides few =>
        rcases fair with ⟨empty, -⟩ | ⟨-, less, rfl⟩
        · cases held.symm.trans empty
        · exact .holds rfl held (by rw [stage]; exact .looks less)
    | yields holding =>
      obtain rfl := Option.some.inj (held.symm.trans holding)
      exact .yields rfl rfl

theorem Keeping.mono {more : List (Page σ)} (keeping : worker.Keeping limit page looks given)
    (wider : given ⊆ more) : worker.Keeping limit page looks more := by
  cases keeping with
  | holds stage held patient => exact .holds stage held patient
  | yields stage held => exact .yields stage held
  | gave empty member => exact .gave empty (wider member)

/-- Whoever is about to look once more after more looks in vain than its patience allows has
given its page away. -/
theorem Keeping.of_lt (keeping : worker.Keeping limit page looks given)
    (looking : worker.stage.isLooking = true) (often : limit < looks) :
    worker.pages = [] ∧ page ∈ given := by
  cases keeping with
  | gave empty member => exact ⟨empty, member⟩
  | yields stage => simp [stage, Stage.isLooking] at looking
  | holds stage held patient =>
    rw [stage] at looking
    cases patient with
    | looks few => omega
    | reads | draws | rereads | decides => cases looking

end Worker

/-! ## Among others -/

namespace Pool

variable {model : Model σ} {pool : Pool σ} {position : Nat} {worker : Worker σ}
  {page : Page σ} {schedule : List Nat}

/-- Whether the worker at a position is in the midst of a call. -/
def isWaiting (pool : Pool σ) (position : Nat) : Bool :=
  pool.workers[position]?.any (·.stage.isWaiting)

/-- Whether the worker at a position is about to look for its page. -/
def isLooking (pool : Pool σ) (position : Nat) : Bool :=
  pool.workers[position]?.any (·.stage.isLooking)

/-- The worker at a position remains in the midst of one call along a schedule. -/
def WaitsAlong (model : Model σ) (position : Nat) (schedule : List Nat) (pool : Pool σ) : Prop :=
  ∀ first, first <+: schedule → (pool.follow model first).isWaiting position = true

/-- The number of looks that the worker at a position makes along a schedule. -/
def looks (model : Model σ) (position : Nat) : (schedule : List Nat) → Pool σ → Nat
  | [], _ => 0
  | turn :: rest, pool =>
      (if turn = position then (pool.isLooking position).toNat else 0) +
        looks model position rest (pool.stepAt model turn)

instance (model : Model σ) (position : Nat) (schedule : List Nat) (pool : Pool σ) :
    Decidable (pool.WaitsAlong model position schedule) :=
  decidable_of_iff
    (∀ first ∈ schedule.inits, (pool.follow model first).isWaiting position = true)
    (by simp only [WaitsAlong, List.mem_inits])

theorem WaitsAlong.head (waits : pool.WaitsAlong model position schedule) :
    pool.isWaiting position = true :=
  waits [] schedule.nil_prefix

theorem WaitsAlong.tail {turn : Nat} (waits : pool.WaitsAlong model position (turn :: schedule)) :
    (pool.stepAt model turn).WaitsAlong model position schedule :=
  fun first starts => waits (turn :: first) (List.cons_prefix_cons.mpr ⟨rfl, starts⟩)

/-- What is decided about a frontier once and for all stays when anybody makes a step. -/
theorem donationRetries_stepAt (model : Model σ) (pool : Pool σ) (turn : Nat) :
    (pool.stepAt model turn).shared.frontier.donationRetries =
      pool.shared.frontier.donationRetries := by
  cases found : pool.workers[turn]? with
  | none => simp [stepAt, found]
  | some worker =>
    obtain ⟨head, tail, memory, same, -⟩ := (worker.turn_step model pool.shared).frontier_eq
    simp [stepAt, found, same]

/-- A step is made by the worker at a position, or it leaves that worker alone. -/
theorem exists_getElem?_stepAt (model : Model σ) (found : pool.workers[position]? = some worker)
    (turn : Nat) :
    ∃ next, (pool.stepAt model turn).workers[position]? = some next ∧
      (turn = position ∧ worker.Turn model pool.shared next (pool.stepAt model turn).shared
          (pool.eventsAt model turn) ∨
        turn ≠ position ∧ next = worker) := by
  by_cases own : turn = position
  · subst own
    obtain ⟨within, -⟩ := List.getElem?_eq_some_iff.mp found
    have made := worker.turn_step model pool.shared
    refine ⟨(worker.step model pool.shared).1, ?_, .inl ⟨rfl, ?_⟩⟩
    · simp only [stepAt, found]
      exact List.getElem?_set_self within
    · simpa only [stepAt, eventsAt, found] using made
  · refine ⟨worker, ?_, .inr ⟨own, rfl⟩⟩
    unfold stepAt
    split
    · exact found
    · exact (List.getElem?_set_ne own).trans found

/-- What has become of a page, however the workers' steps are interleaved. -/
theorem keeping_follow {looked : Nat} {given : List (Page σ)}
    (found : pool.workers[position]? = some worker)
    (keeping : worker.Keeping pool.shared.frontier.donationRetries page looked given)
    (waits : pool.WaitsAlong model position schedule) :
    ∃ later, (pool.follow model schedule).workers[position]? = some later ∧
      later.Keeping pool.shared.frontier.donationRetries page
        (looked + pool.looks model position schedule)
        (given ++ enqueued (pool.events model schedule)) := by
  induction schedule generalizing pool worker looked given with
  | nil => exact ⟨worker, found, by simpa [looks, events] using keeping⟩
  | cons turn rest ih =>
    have now : worker.stage.isWaiting = true := by simpa [isWaiting, found] using waits.head
    obtain ⟨next, same, change⟩ := exists_getElem?_stepAt model found turn
    have after : next.stage.isWaiting = true := by simpa [isWaiting, same] using waits.tail.head
    rw [events, looks, enqueued_append, ← Nat.add_assoc, ← List.append_assoc,
      ← donationRetries_stepAt model pool turn]
    refine ih same ?_ waits.tail
    rw [donationRetries_stepAt]
    rcases change with ⟨own, made⟩ | ⟨other, rfl⟩
    · rw [if_pos own]
      have counted : pool.isLooking position = worker.stage.isLooking := by
        simp [isLooking, found]
      rw [counted]
      exact keeping.turn made now after
    · rw [if_neg other]
      exact keeping.mono (List.subset_append_left _ _)

/-- A worker that waits and has no page gets none before its call ends. -/
theorem pages_follow (found : pool.workers[position]? = some worker) (empty : worker.pages = [])
    (waits : pool.WaitsAlong model position schedule) :
    ∃ later, (pool.follow model schedule).workers[position]? = some later ∧ later.pages = [] := by
  induction schedule generalizing pool worker with
  | nil => exact ⟨worker, found, empty⟩
  | cons turn rest ih =>
    have now : worker.stage.isWaiting = true := by simpa [isWaiting, found] using waits.head
    obtain ⟨next, same, change⟩ := exists_getElem?_stepAt model found turn
    have after : next.stage.isWaiting = true := by simpa [isWaiting, same] using waits.tail.head
    refine ih same ?_ waits.tail
    rcases change with ⟨-, made⟩ | ⟨-, rfl⟩
    · exact List.subset_nil.mp (empty ▸ made.pages_subset now after)
    · exact empty

end Pool

end Wavefront
