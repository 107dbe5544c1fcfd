/-
# Workers

A worker explores on its own as long as it can. It has a backlog of nodes that
only it will expand, a page that it fills with what exceeds the backlog, and the
trace log of the states that it discovers. `Stage` says where it stands between two
accesses to what the workers share.
-/

import Wavefront.Fifo
import Wavefront.Frontier.Dequeue
import Wavefront.Report
import Wavefront.Summary
import Wavefront.Trace.Log

namespace Wavefront

/-- Where a worker stands: what it does next. -/
inductive Stage (σ : Type) where
  /-- Ask whether an error was reported, and if not, choose a node to expand. -/
  | polling
  /-- Wait for a page. -/
  | waiting (wait : Wait σ)
  /-- Compute the successors of a node. -/
  | expanding (node : Node σ)
  /-- Ask whether the next of the remaining successors of a node is new. -/
  | sifting (node : Node σ) (rest : List σ)
  /-- Record a new successor of a node. -/
  | recording (node : Node σ) (state : σ) (rest : List σ)
  /-- Claim a page for a new successor of a node. -/
  | claiming (node child : Node σ) (rest : List σ)
  /-- Enqueue a full page. -/
  | publishing (node : Node σ) (page : Page σ) (rest : List σ)
  /-- Bring the log up to date and stop. -/
  | flushing
  /-- Report an error. -/
  | reporting (node : Option (Node σ)) (cause : Failure)
  /-- Mark the frontier finished after an error, and stop. -/
  | latching
  /-- Mark the frontier finished after a fault, and break down. -/
  | unwinding (fault : Fault)
  /-- The worker has stopped. -/
  | stopped
  /-- The worker has broken down. -/
  | broken (fault : Fault)

namespace Stage

variable {σ : Type}

/-- Where a worker goes when something ends its exploration. -/
def ending (node : Option (Node σ)) (stop : Stop) : Stage σ :=
  match stop with
  | .failure cause => .reporting node cause
  | .fault fault => .unwinding fault

/-- Whether a worker does nothing any more. -/
def isFinal : Stage σ → Bool
  | stopped => true
  | broken _ => true
  | _ => false

end Stage

/-- A worker with all that belongs to it alone. -/
structure Worker (σ : Type) where
  id : UInt16
  /-- The number of nodes below which new ones go into the backlog. -/
  localLimit : Nat
  /-- Nodes that only this worker will expand. -/
  backlog : Fifo (Node σ)
  /-- A claimed page that is not full yet. -/
  held : Option (Page σ)
  /-- The number of nodes ever put into the backlog. -/
  accepted : Nat
  /-- The number of nodes ever taken out of the backlog. -/
  processed : Nat
  log : Log
  /-- The number of successors computed, duplicates included. -/
  generated : Nat
  outDegree : Histogram
  /-- The deepest level of a recorded state. -/
  maxLevel : UInt32
  stage : Stage σ

namespace Worker

variable {σ : Type}

/-- The greatest level that a node can have. -/
def levelMax : UInt32 := 0xffffffff

/-- The level after a level, if there is one. -/
def nextLevel (level : UInt32) : Except Fault UInt32 :=
  if level = levelMax then .error .additionOverflow else .ok (level + 1)

/-- A worker that has done nothing yet, with an empty log. -/
def create (id : UInt16) (directory : Path) (specName : String) (localLimit : Nat) (disk : Disk) :
    Except Failure (Worker σ × Disk) :=
  match Log.create directory specName id disk with
  | .error cause => .error (.trace id (.io cause))
  | .ok (log, disk) =>
      .ok ({
        id := id
        localLimit := localLimit
        backlog := .empty
        held := none
        accepted := 0
        processed := 0
        log := log
        generated := 0
        outDegree := .empty ("worker " ++ toString id.toNat ++ " out-degree") outDegreeBuckets
        maxLevel := 0
        stage := .polling }, disk)

/-- The number of nodes in the backlog that have not been expanded. -/
def unexplored (worker : Worker σ) : Nat := worker.accepted - worker.processed

/-- Record an initial state. -/
def recordInitial (worker : Worker σ) (fingerprint : Fingerprint) : Uid × Worker σ :=
  let (uid, log) := worker.log.appendInitial fingerprint
  (uid, { worker with log := log, maxLevel := max worker.maxLevel 1 })

/-- Record that a node led to the state with a fingerprint; the answer is the level of
that state and the reference to its record. -/
def record (worker : Worker σ) (node : Node σ) (fingerprint : Fingerprint) :
    Except Fault (UInt32 × Uid × Worker σ) :=
  match nextLevel node.level with
  | .error fault => .error fault
  | .ok level =>
      let (uid, log) := worker.log.append ⟨node.uid, fingerprint⟩
      .ok (level, uid, { worker with log := log, maxLevel := max worker.maxLevel level })

/-- Read a record of the worker's log. -/
def readRecord (worker : Worker σ) (offset : UInt64) (disk : Disk) :
    Except Failure Record × Worker σ × Disk :=
  let (result, log, disk) := worker.log.read offset disk
  (result.mapError fun cause => .trace worker.id (.io cause), { worker with log := log }, disk)

/-- Give up the page held. -/
def release (worker : Worker σ) : Option (Page σ) × Worker σ :=
  (worker.held, { worker with held := none })

/-- Add a new node to a page of the worker, which holds none; a full page goes out at once. -/
def stow (worker : Worker σ) (page : Page σ) (node child : Node σ) (rest : List σ) : Worker σ :=
  match page.add child with
  | .error fault => { worker with held := some page, stage := .unwinding fault }
  | .ok page =>
      if page.isFull then { worker with stage := .publishing node page rest }
      else { worker with held := some page, stage := .sifting node rest }

/-- Find a place for a new node: the backlog, the page held, or a page yet to be claimed. -/
def place (worker : Worker σ) (node child : Node σ) (rest : List σ) : Worker σ :=
  if worker.backlog.size < worker.localLimit then
    { worker with
      backlog := worker.backlog.push child
      accepted := worker.accepted + 1
      stage := .sifting node rest }
  else
    match worker.held with
    | none => { worker with stage := .claiming node child rest }
    | some page => { worker with held := none }.stow page node child rest

/-- Take a page into the backlog. -/
def receive (worker : Worker σ) (page : Page σ) : Worker σ :=
  { worker with
    backlog := worker.backlog.pushAll page.nodes.toList
    accepted := worker.accepted + page.size
    stage := .polling }

end Worker

end Wavefront
