/-
# Waiting for a page

To obtain a page, a worker takes the next ticket and then looks for the page of
that number until it is there. After every look in vain it rereads both counters,
`tail` first and `head` second, and decides:

* nothing is delivered any more: the call ends without a page;
* the frontier is exhausted: the call marks it finished and ends without a page;
* the caller itself holds a page, and either every page number has a ticket or it
  has looked often enough: it gives its page away and goes on looking.

The last rule breaks cycles in which everybody waits for a page that somebody
else holds. A call consists of single accesses to shared state, each of them one
`Wait.step`, so that calls of several workers can be interleaved in any order.
-/

import Wavefront.Frontier.Basic

namespace Wavefront

/-- Where a call stands: the access that it makes next. -/
inductive Wait (σ : Type) where
  /-- Read `tail` to choose a ticket. -/
  | readTail
  /-- Take the ticket after the one read, if `tail` has not changed since. -/
  | advance (seen : Nat)
  /-- Look for the page of the ticket. -/
  | look (ticket retries : Nat)
  /-- Reread `tail`. -/
  | rereadTail (ticket retries : Nat)
  /-- Reread `head` and decide. -/
  | rereadHead (ticket retries : Nat) (tail : Tail)
  /-- Mark the frontier finished, because no page can come for the ticket. -/
  | latch (ticket : Nat)
  /-- Give a page away. -/
  | donate (ticket : Nat) (page : Page σ)

/-- What an access has led to. -/
inductive Progress (σ : Type) where
  /-- The call goes on. -/
  | waiting (wait : Wait σ)
  /-- The call ends with a page. -/
  | delivered (page : Page σ)
  /-- The call ends without a page, and so will every other. -/
  | finished
  /-- The call fails. -/
  | stopped (stop : Stop)

/-- The state after an access: the call, the page its caller holds, and what is shared. -/
structure Accessed (σ : Type) where
  progress : Progress σ
  held : Option (Page σ)
  frontier : Frontier σ
  disk : Disk

namespace Wait

variable {σ : Type}

/-- Decide after a look in vain, from the two counters as they were read. -/
def decide (frontier : Frontier σ) (ticket retries : Nat) (tail : Tail) (held : Option (Page σ)) :
    Progress σ × Option (Page σ) :=
  match tail with
  | .finished => (.finished, held)
  | .ticket last =>
      if exhausted frontier.head tail frontier.workers then
        match held with
        | some _ => (.stopped (.fault .exhaustedWhileHolding), held)
        | none => (.waiting (.latch ticket), none)
      else
        match held with
        | none => (.waiting (.look ticket retries), none)
        | some page =>
            if frontier.head ≤ last ∨ frontier.donationRetries ≤ retries then
              (.waiting (.donate ticket page), none)
            else (.waiting (.look ticket (retries + 1)), some page)

/-- Make one access to shared state. -/
def step (model : Model σ) (wait : Wait σ) (held : Option (Page σ)) (frontier : Frontier σ)
    (disk : Disk) : Accessed σ :=
  match wait with
  | readTail =>
      match frontier.tail with
      | .finished => ⟨.finished, held, frontier, disk⟩
      | .ticket last => ⟨.waiting (.advance last), held, frontier, disk⟩
  | advance seen =>
      if frontier.tail = .ticket seen then
        ⟨.waiting (.look (seen + 1) 0), held, { frontier with tail := .ticket (seen + 1) }, disk⟩
      else ⟨.waiting .readTail, held, frontier, disk⟩
  | look ticket retries =>
      match frontier.take model ticket disk with
      | (.error failure, frontier, disk) => ⟨.stopped (.failure failure), held, frontier, disk⟩
      | (.ok (some page), frontier, disk) => ⟨.delivered page, held, frontier, disk⟩
      | (.ok none, frontier, disk) => ⟨.waiting (.rereadTail ticket retries), held, frontier, disk⟩
  | rereadTail ticket retries =>
      ⟨.waiting (.rereadHead ticket retries frontier.tail), held, frontier, disk⟩
  | rereadHead ticket retries tail =>
      let (progress, held) := decide frontier ticket retries tail held
      ⟨progress, held, frontier, disk⟩
  | latch _ => ⟨.finished, held, frontier.finish, disk⟩
  | donate ticket page =>
      match frontier.enqueue model page disk with
      | (.error stop, frontier, disk) => ⟨.stopped stop, held, frontier, disk⟩
      | (.ok (), frontier, disk) => ⟨.waiting (.look ticket 0), held, frontier, disk⟩

end Wait

end Wavefront
