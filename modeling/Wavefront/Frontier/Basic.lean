/-
# The frontier of unexplored states

All workers share one frontier. It hands out page numbers from `head` and tickets
from `tail`; a ticket is the number of the page that its owner will receive, so a
page reaches one worker only. A page waits in memory while its number is within
the memory budget and in a file otherwise. Once `tail` is `finished` nothing is
delivered any more, and it never becomes anything else again.

`exhausted` is the test for the end: every worker has a ticket past the last page
number, so no page can be produced that anybody waits for.
-/

import Wavefront.Settings
import Wavefront.Store.Memory
import Wavefront.Store.Spill

namespace Wavefront

/-- The last ticket handed out, or the mark that there are no more. -/
inductive Tail where
  | ticket (last : Nat)
  | finished
deriving DecidableEq, Repr

/-- Whether all of so many workers hold tickets past the last page number. -/
def exhausted (head : Nat) (tail : Tail) (workers : Nat) : Bool :=
  match tail with
  | .finished => false
  | .ticket last => workers ≤ last && head == last - workers

/-- The pages that wait to be explored, and the counters that hand them out. -/
structure Frontier (σ : Type) where
  /-- The number of workers that take tickets. -/
  workers : Nat
  sizing : PageSizing
  /-- Pages up to this number wait in memory. -/
  memoryPages : Nat
  /-- The number of polls after which a waiting worker gives up the page it holds. -/
  donationRetries : Nat
  /-- The last page number handed out. -/
  head : Nat
  tail : Tail
  memory : Memory σ
  spill : Spill

namespace Frontier

variable {σ : Type}

/-- An empty frontier that spills to the directory of the settings. -/
def establish (settings : Settings) (disk : Disk) : Except Failure (Frontier σ) × Disk :=
  match settings.validate with
  | .error cause => (.error (.settings cause), disk)
  | .ok () =>
      match Spill.establish settings.directory disk with
      | (.error failure, disk) => (.error failure, disk)
      | (.ok spill, disk) =>
          (.ok {
            workers := settings.workerCount
            sizing := settings.pageSizing
            memoryPages := settings.inMemoryPages
            donationRetries := settings.donationRetries
            head := 0
            tail := .ticket 0
            memory := .empty
            spill := spill }, disk)

/-- Hand out the next page number, with an empty page for it. -/
def claim (frontier : Frontier σ) : Page σ × Frontier σ :=
  let id := frontier.head + 1
  (.empty id (frontier.sizing.capacity id), { frontier with head := id })

/-- Whether the page of the given number waits in memory rather than in a file. -/
def keepsInMemory (frontier : Frontier σ) (id : PageId) : Bool := id ≤ frontier.memoryPages

/-- Let a page wait for whoever has its ticket. It must hold something. -/
def enqueue (frontier : Frontier σ) (model : Model σ) (page : Page σ) (disk : Disk) :
    Except Stop Unit × Frontier σ × Disk :=
  if page.isEmpty then (.error (.fault (.emptyPage page.id)), frontier, disk)
  else if frontier.keepsInMemory page.id then
    let (result, memory) := frontier.memory.put page
    (result.mapError .fault, { frontier with memory := memory }, disk)
  else
    let (result, disk) := frontier.spill.put model page disk
    (result.mapError .failure, frontier, disk)

/-- Let a single node wait on a page of its own. -/
def enqueueNode (frontier : Frontier σ) (model : Model σ) (node : Node σ) (disk : Disk) :
    Except Stop Unit × Frontier σ × Disk :=
  let (page, frontier) := frontier.claim
  match page.add node with
  | .error fault => (.error (.fault fault), frontier, disk)
  | .ok page => frontier.enqueue model page disk

/-- Take out the page of the given number, if it waits. -/
def take (frontier : Frontier σ) (model : Model σ) (id : PageId) (disk : Disk) :
    Except Failure (Option (Page σ)) × Frontier σ × Disk :=
  if frontier.keepsInMemory id then
    let (page, memory) := frontier.memory.take id
    (.ok page, { frontier with memory := memory }, disk)
  else
    let (result, disk) := frontier.spill.take model id (frontier.sizing.capacity id) disk
    (result, frontier, disk)

/-- Let nothing be delivered any more. -/
def finish (frontier : Frontier σ) : Frontier σ := { frontier with tail := .finished }

/-- Whether nothing will be delivered any more. -/
def isFinished (frontier : Frontier σ) : Bool := frontier.tail == .finished

/-- Whether no page number has been handed out. -/
def isEmpty (frontier : Frontier σ) : Bool := frontier.head == 0

/-- About how many nodes wait: the room on the pages not yet taken. -/
def roughSize (frontier : Frontier σ) : Nat :=
  match frontier.tail with
  | .finished => 0
  | .ticket low =>
      min ((frontier.head - low) * frontier.sizing.capacity frontier.head) (Text.wordLimit - 1)

/-- The capacity of the page that the next claim returns. -/
def nextCapacity (frontier : Frontier σ) : Nat := frontier.sizing.capacity (frontier.head + 1)

/-- The number of pages that wait, in memory and in files. -/
def resident (frontier : Frontier σ) (disk : Disk) : Nat :=
  frontier.memory.resident + frontier.spill.resident disk

/-- Drop all pages that wait; the answer is how many there were. -/
def discard (frontier : Frontier σ) (disk : Disk) : Except Stop Nat × Frontier σ × Disk :=
  if frontier.isFinished then
    let (inMemory, memory) := frontier.memory.clear
    let (inFiles, disk) := frontier.spill.clear disk
    ((inFiles.mapError .failure).map (inMemory + ·), { frontier with memory := memory }, disk)
  else (.error (.fault .discardedWhileLive), frontier, disk)

/-- Pausing and resuming are reserved for later. -/
def reserved (operation : Reserved) : Except Failure Unit := .error (.unsupported operation)

end Frontier

end Wavefront
