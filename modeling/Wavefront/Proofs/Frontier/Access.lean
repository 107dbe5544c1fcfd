/-
# One access of a call

`Wait.step` makes one access to what is shared. `Wait.Turn` lists the ways in which an
access can turn out, with what each of them leaves behind and the events that it
stands for. Everything that is proved about calls goes through this list, so that
nothing else takes the step function apart.
-/

import Wavefront.Proofs.Frontier.History

namespace Wavefront

open History

variable {σ : Type}

namespace Frontier

variable {model : Model σ} {frontier after : Frontier σ} {disk final : Disk}

/-- The event that enqueueing a page stands for. -/
def enqueueEvents (frontier : Frontier σ) (model : Model σ) (page : Page σ) (disk : Disk) :
    History σ :=
  match (frontier.enqueue model page disk).1 with
  | .ok () => [.enqueued page]
  | .error stop => [.refused page stop]

/-- The event that enqueueing a single node stands for. -/
def enqueueNodeEvents (frontier : Frontier σ) (model : Model σ) (node : Node σ) (disk : Disk) :
    History σ :=
  match frontier.claim.1.add node with
  | .ok page => frontier.claim.2.enqueueEvents model page disk
  | .error fault => [.refused frontier.claim.1 (.fault fault)]

theorem delivered_enqueueEvents {page : Page σ} :
    delivered (frontier.enqueueEvents model page disk) = [] := by
  unfold enqueueEvents
  split <;> rfl

theorem delivered_enqueueNodeEvents {node : Node σ} :
    delivered (frontier.enqueueNodeEvents model node disk) = [] := by
  unfold enqueueNodeEvents
  split
  · exact delivered_enqueueEvents
  · rfl

theorem eq_of_take {id : PageId} {result : Except Failure (Option (Page σ))}
    (taken : frontier.take model id disk = (result, after, final)) :
    ∃ memory, after = { frontier with memory := memory } := by
  unfold take at taken
  split at taken <;> cases taken <;> exact ⟨_, rfl⟩

theorem eq_of_enqueue {page : Page σ} {result : Except Stop Unit}
    (enqueued : frontier.enqueue model page disk = (result, after, final)) :
    ∃ memory, after = { frontier with memory := memory } := by
  unfold enqueue at enqueued
  split at enqueued
  · cases enqueued
    exact ⟨_, rfl⟩
  · split at enqueued <;> cases enqueued <;> exact ⟨_, rfl⟩

theorem eq_of_enqueueNode {node : Node σ} {result : Except Stop Unit}
    (enqueued : frontier.enqueueNode model node disk = (result, after, final)) :
    ∃ memory, after = { frontier with memory := memory, head := frontier.head + 1 } := by
  unfold enqueueNode at enqueued
  dsimp only at enqueued
  split at enqueued
  · cases enqueued
    exact ⟨_, rfl⟩
  · obtain ⟨memory, rfl⟩ := eq_of_enqueue enqueued
    exact ⟨memory, rfl⟩

end Frontier

namespace Wait

/-- The ticket of a call, once it has one. -/
@[simp]
def ticket? : Wait σ → Option Nat
  | readTail => none
  | advance _ => none
  | look ticket _ => some ticket
  | rereadTail ticket _ => some ticket
  | rereadHead ticket _ _ => some ticket
  | latch ticket => some ticket
  | donate ticket _ => some ticket

/-- The page that a call is about to give away. -/
@[simp]
def pages : Wait σ → List (Page σ)
  | donate _ page => [page]
  | _ => []

end Wait

namespace Progress

/-- The ticket that a call goes on with. -/
@[simp]
def ticket? : Progress σ → Option Nat
  | waiting wait => wait.ticket?
  | _ => none

/-- The page that a call which goes on is about to give away. -/
@[simp]
def pages : Progress σ → List (Page σ)
  | waiting wait => wait.pages
  | _ => []

/-- The page that a call ends with. -/
@[simp]
def received : Progress σ → List (Page σ)
  | delivered page => [page]
  | _ => []

end Progress

namespace Wait

variable {model : Model σ} {held : Option (Page σ)} {frontier : Frontier σ} {disk : Disk}

/-- The events that the next access stands for. -/
def events (model : Model σ) (wait : Wait σ) (held : Option (Page σ)) (frontier : Frontier σ)
    (disk : Disk) : History σ :=
  match wait, (wait.step model held frontier disk).progress with
  | advance _, .waiting (look ticket _) => [.drawn ticket]
  | look ticket _, .delivered page => [.delivered ticket page]
  | donate _ page, .waiting _ => [.enqueued page]
  | donate ticket page, .stopped stop => [.refused page stop, .forgone ticket]
  | _, .waiting _ => []
  | _, _ => (wait.ticket?.map Event.forgone).toList

/-- What an access leads to, one case for each way in which it can turn out. -/
inductive Turn (model : Model σ) (held : Option (Page σ)) (frontier : Frontier σ) (disk : Disk) :
    Wait σ → Accessed σ → History σ → Prop where
  | closed (ended : frontier.tail = .finished) :
      Turn model held frontier disk .readTail ⟨.finished, held, frontier, disk⟩ []
  | reads {last : Nat} (read : frontier.tail = .ticket last) :
      Turn model held frontier disk .readTail ⟨.waiting (.advance last), held, frontier, disk⟩ []
  | draws {seen : Nat} (unchanged : frontier.tail = .ticket seen) :
      Turn model held frontier disk (.advance seen)
        ⟨.waiting (.look (seen + 1) 0), held, { frontier with tail := .ticket (seen + 1) }, disk⟩
        [.drawn (seen + 1)]
  | outrun {seen : Nat} (changed : frontier.tail ≠ .ticket seen) :
      Turn model held frontier disk (.advance seen) ⟨.waiting .readTail, held, frontier, disk⟩ []
  | misses {ticket retries : Nat} {after : Frontier σ} {final : Disk}
      (taken : frontier.take model ticket disk = (.ok none, after, final)) :
      Turn model held frontier disk (.look ticket retries)
        ⟨.waiting (.rereadTail ticket retries), held, after, final⟩ []
  | receives {ticket retries : Nat} {page : Page σ} {after : Frontier σ} {final : Disk}
      (taken : frontier.take model ticket disk = (.ok (some page), after, final)) :
      Turn model held frontier disk (.look ticket retries) ⟨.delivered page, held, after, final⟩
        [.delivered ticket page]
  | chokes {ticket retries : Nat} {failure : Failure} {after : Frontier σ} {final : Disk}
      (taken : frontier.take model ticket disk = (.error failure, after, final)) :
      Turn model held frontier disk (.look ticket retries)
        ⟨.stopped (.failure failure), held, after, final⟩ [.forgone ticket]
  | rereads {ticket retries : Nat} :
      Turn model held frontier disk (.rereadTail ticket retries)
        ⟨.waiting (.rereadHead ticket retries frontier.tail), held, frontier, disk⟩ []
  | ends {ticket retries : Nat} :
      Turn model held frontier disk (.rereadHead ticket retries .finished)
        ⟨.finished, held, frontier, disk⟩ [.forgone ticket]
  | exhausts {ticket retries last : Nat} (empty : held = none)
      (exhausted : exhausted frontier.head (.ticket last) frontier.workers = true) :
      Turn model held frontier disk (.rereadHead ticket retries (.ticket last))
        ⟨.waiting (.latch ticket), held, frontier, disk⟩ []
  | breaks {ticket retries last : Nat} {page : Page σ} (holding : held = some page)
      (exhausted : exhausted frontier.head (.ticket last) frontier.workers = true) :
      Turn model held frontier disk (.rereadHead ticket retries (.ticket last))
        ⟨.stopped (.fault .exhaustedWhileHolding), held, frontier, disk⟩ [.forgone ticket]
  | retries {ticket retries next last : Nat}
      (going : exhausted frontier.head (.ticket last) frontier.workers = false)
      (patient : held = none ∧ next = retries ∨
        last < frontier.head ∧ retries < frontier.donationRetries ∧ next = retries + 1) :
      Turn model held frontier disk (.rereadHead ticket retries (.ticket last))
        ⟨.waiting (.look ticket next), held, frontier, disk⟩ []
  | yields {ticket retries last : Nat} {page : Page σ} (holding : held = some page)
      (going : exhausted frontier.head (.ticket last) frontier.workers = false) :
      Turn model held frontier disk (.rereadHead ticket retries (.ticket last))
        ⟨.waiting (.donate ticket page), none, frontier, disk⟩ []
  | latches {ticket : Nat} :
      Turn model held frontier disk (.latch ticket) ⟨.finished, held, frontier.finish, disk⟩
        [.forgone ticket]
  | donates {ticket : Nat} {page : Page σ} {after : Frontier σ} {final : Disk}
      (enqueued : frontier.enqueue model page disk = (.ok (), after, final)) :
      Turn model held frontier disk (.donate ticket page)
        ⟨.waiting (.look ticket 0), held, after, final⟩ [.enqueued page]
  | refuses {ticket : Nat} {page : Page σ} {stop : Stop} {after : Frontier σ} {final : Disk}
      (enqueued : frontier.enqueue model page disk = (.error stop, after, final)) :
      Turn model held frontier disk (.donate ticket page) ⟨.stopped stop, held, after, final⟩
        [.refused page stop, .forgone ticket]

/-- Every access turns out in one of the ways listed. -/
theorem turn_step (wait : Wait σ) :
    Turn model held frontier disk wait (wait.step model held frontier disk)
      (wait.events model held frontier disk) := by
  cases wait with
  | readTail =>
    cases tail : frontier.tail with
    | finished => simpa [step, events, tail] using Turn.closed tail
    | ticket last => simpa [step, events, tail] using Turn.reads tail
  | advance seen =>
    by_cases unchanged : frontier.tail = .ticket seen
    · simpa [step, events, unchanged] using Turn.draws unchanged
    · simpa [step, events, unchanged] using Turn.outrun unchanged
  | look ticket retries =>
    rcases taken : frontier.take model ticket disk with ⟨failure | ⟨_ | page⟩, after, final⟩
    · simpa [step, events, taken] using Turn.chokes taken
    · simpa [step, events, taken] using Turn.misses taken
    · simpa [step, events, taken] using Turn.receives taken
  | rereadTail ticket retries => exact .rereads
  | rereadHead ticket retries tail =>
    cases tail with
    | finished => exact .ends
    | ticket last =>
      cases test : exhausted frontier.head (.ticket last) frontier.workers with
      | true =>
        cases held with
        | none => simpa [step, events, decide, test] using Turn.exhausts rfl test
        | some page => simpa [step, events, decide, test] using Turn.breaks rfl test
      | false =>
        cases held with
        | none => simpa [step, events, decide, test] using Turn.retries test (.inl ⟨rfl, rfl⟩)
        | some page =>
          by_cases enough : frontier.head ≤ last ∨ frontier.donationRetries ≤ retries
          · simpa [step, events, decide, test, enough] using Turn.yields rfl test
          · have patient : last < frontier.head ∧ retries < frontier.donationRetries := by omega
            simpa [step, events, decide, test, enough] using
              Turn.retries test (.inr ⟨patient.1, patient.2, rfl⟩)
  | latch ticket => exact .latches
  | donate ticket page =>
    rcases enqueued : frontier.enqueue model page disk with ⟨stop | ⟨⟩, after, final⟩
    · simpa [step, events, enqueued] using Turn.refuses enqueued
    · simpa [step, events, enqueued] using Turn.donates enqueued

/-- What an access delivers is what the call ends with. -/
theorem Turn.received {wait : Wait σ} {after : Accessed σ} {events : History σ}
    (turn : Turn model held frontier disk wait after events) :
    (delivered events).map (·.2) = after.progress.received := by
  cases turn <;> rfl

/-! ## What an access leaves alone -/

/-- An access changes nothing of a frontier but its memory and its tail. -/
theorem Turn.frontier_eq {wait : Wait σ} {after : Accessed σ} {events : History σ}
    (turn : Turn model held frontier disk wait after events) :
    ∃ memory tail, after.frontier = { frontier with memory := memory, tail := tail } ∧
      (frontier.tail = .finished → tail = .finished) := by
  cases turn with
  | closed | reads | outrun | rereads | ends | exhausts | breaks | retries | yields =>
    exact ⟨_, _, rfl, id⟩
  | latches => exact ⟨_, _, rfl, fun _ => rfl⟩
  | draws unchanged => exact ⟨_, _, rfl, fun ended => absurd (ended.symm.trans unchanged) (by simp)⟩
  | misses taken | receives taken | chokes taken =>
    obtain ⟨memory, rfl⟩ := Frontier.eq_of_take taken
    exact ⟨_, _, rfl, id⟩
  | donates enqueued | refuses enqueued =>
    obtain ⟨memory, rfl⟩ := Frontier.eq_of_enqueue enqueued
    exact ⟨_, _, rfl, id⟩

end Wait

end Wavefront
