/-
# Clients of one frontier

A client holds at most one page and may be in the middle of a call for another.
Several clients wait side by side at one frontier; `Crowd.round` lets each of them
make one access in turn, and `Crowd.serve` goes on with rounds until the call of
one of them has ended. A client that drains begins its next call as soon as it has
received a page.
-/

import Wavefront.Frontier.Dequeue

namespace Wavefront

/-- How a call for a page ended. -/
abbrev Reply (σ : Type) := Except Stop (Option (Page σ))

/-- A client of a frontier. -/
structure Client (σ : Type) where
  /-- The page that the client holds. -/
  held : Option (Page σ)
  /-- The call that the client is in the middle of. -/
  call : Option (Wait σ)
  /-- Whether the client calls again until it gets no page. -/
  drains : Bool
  /-- How its calls ended, in order. -/
  replies : List (Reply σ)

namespace Client

variable {σ : Type}

/-- A client at the beginning of a call. -/
def calling (held : Option (Page σ)) (drains : Bool) : Client σ :=
  ⟨held, some .readTail, drains, []⟩

/-- Whether the client has no call under way. -/
def isIdle (client : Client σ) : Bool := client.call.isNone

/-- Whether the client has taken its first ticket, or has ended without one. -/
def hasTicket (client : Client σ) : Bool :=
  match client.call with
  | some .readTail => !client.replies.isEmpty
  | some (.advance _) => !client.replies.isEmpty
  | _ => true

/-- Make one access, if a call is under way. -/
def step (model : Model σ) (client : Client σ) (frontier : Frontier σ) (disk : Disk) :
    Client σ × Frontier σ × Disk :=
  match client.call with
  | none => (client, frontier, disk)
  | some wait =>
      let after := wait.step model client.held frontier disk
      let ended (reply : Reply σ) (next : Option (Wait σ)) : Client σ :=
        { client with held := after.held, call := next, replies := client.replies ++ [reply] }
      let moved := match after.progress with
        | .waiting wait => { client with held := after.held, call := some wait }
        | .delivered page =>
            ended (.ok (some page)) (if client.drains then some .readTail else none)
        | .finished => ended (.ok none) none
        | .stopped stop => ended (.error stop) none
      (moved, after.frontier, after.disk)

end Client

/-- A frontier with the clients that wait at it. -/
structure Crowd (σ : Type) where
  frontier : Frontier σ
  disk : Disk
  clients : List (Client σ)

namespace Crowd

variable {σ : Type}

/-- Let each of the clients make one access in turn. -/
def roundOf (model : Model σ) :
    List (Client σ) → Frontier σ → Disk → List (Client σ) × Frontier σ × Disk
  | [], frontier, disk => ([], frontier, disk)
  | client :: rest, frontier, disk =>
      let (client, frontier, disk) := client.step model frontier disk
      let (rest, frontier, disk) := roundOf model rest frontier disk
      (client :: rest, frontier, disk)

/-- Let every client make one access in turn. -/
def round (model : Model σ) (crowd : Crowd σ) : Crowd σ :=
  let (clients, frontier, disk) := roundOf model crowd.clients crowd.frontier crowd.disk
  ⟨frontier, disk, clients⟩

/-- Go on with rounds until the crowd satisfies a condition, but not for ever. -/
def roundsUntil (model : Model σ) (done : Crowd σ → Bool) : (limit : Nat) → Crowd σ → Crowd σ
  | 0, crowd => crowd
  | limit + 1, crowd =>
      if done crowd then crowd else roundsUntil model done limit (crowd.round model)

/-- A number of rounds that no call which ends at all exceeds in practice. -/
def patience : Nat := 0x4000000000000000

/-- Go on with rounds until the client at a position has no call under way. -/
def serve (model : Model σ) (position : Nat) (crowd : Crowd σ) : Crowd σ :=
  roundsUntil model (fun crowd => (crowd.clients[position]?.map Client.isIdle).getD true) patience
    crowd

/-- Go on with rounds until the client at a position has its first ticket. -/
def queueUp (model : Model σ) (position : Nat) (crowd : Crowd σ) : Crowd σ :=
  roundsUntil model (fun crowd => (crowd.clients[position]?.map Client.hasTicket).getD true)
    patience crowd

end Crowd

end Wavefront
