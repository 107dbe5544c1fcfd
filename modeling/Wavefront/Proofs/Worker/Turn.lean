/-
# One step of a worker, case by case

`Worker.step` is one function of some thirty branches. `Worker.Turn` lists them with what
is known in each, what the worker and the shared state become, and which events the step
stands for. An invariant of the workers is proved by going through the list.
-/

import Wavefront.Proofs.Frontier.Access
import Wavefront.Worker.Step

namespace Wavefront

open History

variable {σ : Type}

/-! ## What a worker has -/

namespace Stage

/-- The ticket of a worker that waits. -/
@[simp]
def ticket? : Stage σ → Option Nat
  | waiting wait => wait.ticket?
  | _ => none

/-- The page that a worker is about to give away. -/
@[simp]
def pages : Stage σ → List (Page σ)
  | waiting wait => wait.pages
  | publishing _ page _ => [page]
  | _ => []

/-- The node that a worker is about to expand or to put on a page. -/
@[simp]
def nodes : Stage σ → List (Node σ)
  | expanding node => [node]
  | claiming _ child _ => [child]
  | _ => []

end Stage

namespace Worker

/-- The pages in a worker's hands. -/
def pages (worker : Worker σ) : List (Page σ) := worker.held.toList ++ worker.stage.pages

/-- The ticket that a worker waits on. -/
def tickets (worker : Worker σ) : List Nat := worker.stage.ticket?.toList

/-- The nodes that a worker has and that are not expanded. -/
def nodes (worker : Worker σ) : List (Node σ) :=
  worker.backlog.toList ++ worker.stage.nodes ++ nodesOn worker.pages

/-! ## Steps -/

/-- The node that recording a new successor makes. -/
def discovery (worker : Worker σ) (model : Model σ) (node : Node σ) (state : σ) : Node σ :=
  ⟨state, node.level + 1, (worker.log.append ⟨node.uid, model.fingerprint state⟩).1⟩

/-- The worker after it has recorded a new successor. -/
def noting (worker : Worker σ) (model : Model σ) (node : Node σ) (state : σ) : Worker σ :=
  { worker with
    log := (worker.log.append ⟨node.uid, model.fingerprint state⟩).2
    maxLevel := max worker.maxLevel (node.level + 1) }

/-- The worker after an access of its call. -/
def proceed (worker : Worker σ) (after : Accessed σ) : Worker σ :=
  let worker := { worker with held := after.held }
  match after.progress with
  | .waiting wait => { worker with stage := .waiting wait }
  | .delivered page => worker.receive page
  | .finished => { worker with stage := .flushing }
  | .stopped stop => { worker with stage := .ending none stop }

/-- The events that a worker's next step stands for. -/
def events (model : Model σ) (worker : Worker σ) (shared : Shared σ) : History σ :=
  match worker.stage with
  | .waiting wait => wait.events model worker.held shared.frontier shared.disk
  | .recording node state _ =>
      if node.level = levelMax then []
      else [.recorded (some node) (worker.discovery model node state)]
  | .publishing _ page _ => shared.frontier.enqueueEvents model page shared.disk
  | _ => []

/-- Adding a node to a page of a worker that holds none. -/
inductive Stowed (worker : Worker σ) (page : Page σ) (node child : Node σ) (rest : List σ) :
    Worker σ → Prop where
  | bursts {fault : Fault} (full : page.add child = .error fault) :
      Stowed worker page node child rest
        { worker with held := some page, stage := .unwinding fault }
  | fills {grown : Page σ} (added : page.add child = .ok grown) (full : grown.isFull = true) :
      Stowed worker page node child rest { worker with stage := .publishing node grown rest }
  | holds {grown : Page σ} (added : page.add child = .ok grown) (room : grown.isFull = false) :
      Stowed worker page node child rest
        { worker with held := some grown, stage := .sifting node rest }

theorem stowed_stow (worker : Worker σ) (page : Page σ) (node child : Node σ) (rest : List σ) :
    Stowed worker page node child rest (worker.stow page node child rest) := by
  unfold stow
  cases added : page.add child with
  | error fault => exact .bursts added
  | ok grown =>
    simp only
    split
    · rename_i full
      exact .fills added full
    · rename_i room
      exact .holds added (by simpa using room)

/-- Finding a place for a new node. -/
inductive Placed (worker : Worker σ) (node child : Node σ) (rest : List σ) : Worker σ → Prop where
  | keeps (room : worker.backlog.size < worker.localLimit) :
      Placed worker node child rest
        { worker with
          backlog := worker.backlog.push child
          accepted := worker.accepted + 1
          stage := .sifting node rest }
  | seeks (empty : worker.held = none) (full : worker.localLimit ≤ worker.backlog.size) :
      Placed worker node child rest { worker with stage := .claiming node child rest }
  | stows {page : Page σ} {next : Worker σ} (holding : worker.held = some page)
      (stowed : Stowed { worker with held := none } page node child rest next)
      (full : worker.localLimit ≤ worker.backlog.size) :
      Placed worker node child rest next

theorem placed_place (worker : Worker σ) (node child : Node σ) (rest : List σ) :
    Placed worker node child rest (worker.place node child rest) := by
  unfold place
  split
  · exact .keeps ‹_›
  · have full : worker.localLimit ≤ worker.backlog.size := by omega
    split
    · exact .seeks ‹_› full
    · exact .stows ‹_› (stowed_stow _ _ _ _ _) full

/-- What a step of a worker leads to, one case for each way in which it can turn out. -/
inductive Turn (model : Model σ) (worker : Worker σ) (shared : Shared σ) :
    Worker σ → Shared σ → History σ → Prop where
  /-- The worker has come to its end. -/
  | rests (final : worker.stage.isFinal = true) : Turn model worker shared worker shared []
  /-- An error was reported, so the worker comes to its end. -/
  | heeds (stage : worker.stage = .polling) (reported : shared.report.isSome = true) :
      Turn model worker shared { worker with stage := .flushing } shared []
  /-- There is nothing to do, so the worker begins to wait. -/
  | idles (stage : worker.stage = .polling) (empty : worker.backlog.toList = []) :
      Turn model worker shared { worker with stage := .waiting .readTail } shared []
  /-- The worker takes a node from its backlog. -/
  | picks {node : Node σ} {backlog : Fifo (Node σ)} (stage : worker.stage = .polling)
      (taken : worker.backlog.toList = node :: backlog.toList) :
      Turn model worker shared
        { worker with
          backlog := backlog
          processed := worker.processed + 1
          stage := .expanding node } shared []
  /-- The worker makes an access of its call. -/
  | accesses {wait : Wait σ} {after : Accessed σ} {events : History σ}
      (stage : worker.stage = .waiting wait)
      (turn : Wait.Turn model worker.held shared.frontier shared.disk wait after events) :
      Turn model worker shared (worker.proceed after)
        { shared with frontier := after.frontier, disk := after.disk } events
  /-- The successors of a node cannot be computed. -/
  | fails {node : Node σ} {stop : Stop} (stage : worker.stage = .expanding node)
      (failed : model.successors node.state = .error stop) :
      Turn model worker shared { worker with stage := .ending (some node) stop }
        { shared with expanded := node :: shared.expanded } []
  /-- There are too many successors to be counted. -/
  | overflows {node : Node σ} {states : List σ} {fault : Fault} {degrees : Histogram}
      (stage : worker.stage = .expanding node) (computed : model.successors node.state = .ok states)
      (counted : worker.outDegree.add states.length = (.error fault, degrees)) :
      Turn model worker shared
        { worker with
          generated := worker.generated + states.length
          outDegree := degrees
          stage := .unwinding fault }
        { shared with expanded := node :: shared.expanded } []
  /-- The worker has computed the successors of a node. -/
  | expands {node : Node σ} {states : List σ} {degrees : Histogram}
      (stage : worker.stage = .expanding node) (computed : model.successors node.state = .ok states)
      (counted : worker.outDegree.add states.length = (.ok (), degrees)) :
      Turn model worker shared
        { worker with
          generated := worker.generated + states.length
          outDegree := degrees
          stage := .sifting node states }
        { shared with expanded := node :: shared.expanded } []
  /-- No successors remain. -/
  | concludes {node : Node σ} (stage : worker.stage = .sifting node []) :
      Turn model worker shared { worker with stage := .polling } shared []
  /-- The next successor is new. -/
  | meets {node : Node σ} {state : σ} {rest : List σ}
      (stage : worker.stage = .sifting node (state :: rest))
      (new : shared.seen.contains (model.fingerprint state) = false) :
      Turn model worker shared { worker with stage := .recording node state rest }
        { shared with seen := shared.seen.insert (model.fingerprint state) } []
  /-- The next successor is known. -/
  | skips {node : Node σ} {state : σ} {rest : List σ}
      (stage : worker.stage = .sifting node (state :: rest))
      (known : shared.seen.contains (model.fingerprint state) = true) :
      Turn model worker shared { worker with stage := .sifting node rest }
        { shared with seen := shared.seen.insert (model.fingerprint state) } []
  /-- A new successor lies too deep. -/
  | sinks {node : Node σ} {state : σ} {rest : List σ}
      (stage : worker.stage = .recording node state rest) (deep : node.level = levelMax) :
      Turn model worker shared { worker with stage := .unwinding .additionOverflow } shared []
  /-- A new successor is recorded and put in its place. -/
  | records {node : Node σ} {state : σ} {rest : List σ} {next : Worker σ}
      (stage : worker.stage = .recording node state rest) (room : node.level ≠ levelMax)
      (placed : Placed (worker.noting model node state) node (worker.discovery model node state)
        rest next) :
      Turn model worker shared next shared
        [.recorded (some node) (worker.discovery model node state)]
  /-- A page is claimed for a new successor. -/
  | claims {node child : Node σ} {rest : List σ} {next : Worker σ}
      (stage : worker.stage = .claiming node child rest)
      (stowed : Stowed worker shared.frontier.claim.1 node child rest next) :
      Turn model worker shared next { shared with frontier := shared.frontier.claim.2 } []
  /-- A full page is enqueued. -/
  | publishes {node : Node σ} {page : Page σ} {rest : List σ} {after : Frontier σ} {final : Disk}
      (stage : worker.stage = .publishing node page rest)
      (enqueued : shared.frontier.enqueue model page shared.disk = (.ok (), after, final)) :
      Turn model worker shared { worker with stage := .sifting node rest }
        { shared with frontier := after, disk := final } [.enqueued page]
  /-- A full page cannot be enqueued. -/
  | strands {node : Node σ} {page : Page σ} {rest : List σ} {stop : Stop} {after : Frontier σ}
      {final : Disk} (stage : worker.stage = .publishing node page rest)
      (enqueued : shared.frontier.enqueue model page shared.disk = (.error stop, after, final)) :
      Turn model worker shared { worker with stage := .ending (some node) stop }
        { shared with frontier := after, disk := final } [.refused page stop]
  /-- The log is brought up to date. -/
  | flushes (stage : worker.stage = .flushing) :
      Turn model worker shared
        { worker with log := (worker.log.flush shared.disk).1, stage := .stopped }
        { shared with disk := (worker.log.flush shared.disk).2 } []
  /-- An error is reported. -/
  | reports {node : Option (Node σ)} {cause : Failure}
      (stage : worker.stage = .reporting node cause) :
      Turn model worker shared { worker with stage := .latching }
        { shared with report := (Report.publish shared.report ⟨node, cause⟩).2 } []
  /-- The frontier is finished after an error. -/
  | latches (stage : worker.stage = .latching) :
      Turn model worker shared { worker with stage := .stopped }
        { shared with frontier := shared.frontier.finish } []
  /-- The frontier is finished after a fault. -/
  | unwinds {fault : Fault} (stage : worker.stage = .unwinding fault) :
      Turn model worker shared { worker with stage := .broken fault }
        { shared with frontier := shared.frontier.finish } []

/-- Every step turns out in one of the ways listed. -/
theorem turn_step (model : Model σ) (worker : Worker σ) (shared : Shared σ) :
    Turn model worker shared (worker.step model shared).1 (worker.step model shared).2
      (worker.events model shared) := by
  cases stage : worker.stage with
  | polling =>
    by_cases reported : shared.report.isSome = true
    · simpa [step, events, stage, reported] using Turn.heeds stage reported
    · cases popped : worker.backlog.pop? with
      | none =>
        have empty := worker.backlog.pop?_eq_none_iff.mp popped
        simpa [step, events, stage, reported, popped] using Turn.idles stage empty
      | some pair =>
        obtain ⟨node, backlog⟩ := pair
        simpa [step, events, stage, reported, popped] using
          Turn.picks stage (Fifo.toList_of_pop? popped)
  | waiting wait =>
    have turn := Turn.accesses stage (@Wait.turn_step _ model worker.held shared.frontier
      shared.disk wait)
    simp only [step, events, stage]
    simp only [proceed] at turn
    generalize wait.step model worker.held shared.frontier shared.disk = after at turn ⊢
    rcases after with ⟨progress, held, frontier, disk⟩
    cases progress <;> exact turn
  | expanding node =>
    cases computed : model.successors node.state with
    | error stop => simpa [step, events, stage, computed] using Turn.fails stage computed
    | ok states =>
      rcases counted : worker.outDegree.add states.length with ⟨fault | ⟨⟩, degrees⟩
      · simpa [step, events, stage, computed, counted] using Turn.overflows stage computed counted
      · simpa [step, events, stage, computed, counted] using Turn.expands stage computed counted
  | sifting node remaining =>
    cases remaining with
    | nil => simpa [step, events, stage] using Turn.concludes stage
    | cons state rest =>
      cases known : shared.seen.contains (model.fingerprint state) with
      | false => simpa [step, events, stage, Seen.meet, known] using Turn.meets stage known
      | true => simpa [step, events, stage, Seen.meet, known] using Turn.skips stage known
  | recording node state rest =>
    by_cases deep : node.level = levelMax
    · simpa [step, events, stage, record, nextLevel, deep] using Turn.sinks stage deep
    · simp only [step, events, stage, record, nextLevel, if_neg deep]
      exact Turn.records stage deep (placed_place _ _ _ _)
  | claiming node child rest =>
    simp only [step, events, stage]
    exact Turn.claims stage (stowed_stow _ _ _ _ _)
  | publishing node page rest =>
    rcases enqueued : shared.frontier.enqueue model page shared.disk with ⟨stop | ⟨⟩, after, final⟩
    · simpa [step, events, stage, Frontier.enqueueEvents, enqueued] using
        Turn.strands stage enqueued
    · simpa [step, events, stage, Frontier.enqueueEvents, enqueued] using
        Turn.publishes stage enqueued
  | flushing => simpa [step, events, stage] using Turn.flushes stage
  | reporting node cause => simpa [step, events, stage] using Turn.reports stage
  | latching => simpa [step, events, stage] using Turn.latches stage
  | unwinding fault => simpa [step, events, stage] using Turn.unwinds stage
  | stopped => simpa [step, events, stage] using Turn.rests (by simp [stage, Stage.isFinal])
  | broken fault => simpa [step, events, stage] using Turn.rests (by simp [stage, Stage.isFinal])

/-! ## What a step leaves alone -/

variable {model : Model σ} {worker next : Worker σ} {shared after : Shared σ} {events : History σ}

/-- A step changes nothing of the frontier but its counters and its memory; `head` does not fall,
and a frontier that is finished stays finished. -/
theorem Turn.frontier_eq (turn : Turn model worker shared next after events) :
    ∃ head tail memory,
      after.frontier = { shared.frontier with head := head, tail := tail, memory := memory } ∧
        shared.frontier.head ≤ head ∧ (shared.frontier.tail = .finished → tail = .finished) := by
  cases turn with
  | rests | heeds | idles | picks | fails | overflows | expands | concludes | meets | skips | sinks
    | records | flushes | reports => exact ⟨_, _, _, rfl, Nat.le_refl _, fun ended => ended⟩
  | accesses stage turn =>
    obtain ⟨memory, tail, same, stays⟩ := turn.frontier_eq
    exact ⟨_, tail, memory, same, Nat.le_refl _, stays⟩
  | claims stage stowed => exact ⟨_, _, _, rfl, Nat.le_succ _, fun ended => ended⟩
  | publishes stage enqueued | strands stage enqueued =>
    obtain ⟨memory, rfl⟩ := Frontier.eq_of_enqueue enqueued
    exact ⟨_, _, _, rfl, Nat.le_refl _, fun ended => ended⟩
  | latches | unwinds => exact ⟨_, _, _, rfl, Nat.le_refl _, fun _ => rfl⟩

/-- What a worker that waits does is an access of its call. -/
theorem Turn.of_waiting {wait : Wait σ} (waits : worker.stage = .waiting wait)
    (turn : Turn model worker shared next after events) :
    ∃ accessed, Wait.Turn model worker.held shared.frontier shared.disk wait accessed events ∧
      next = worker.proceed accessed ∧
      after = { shared with frontier := accessed.frontier, disk := accessed.disk } := by
  cases turn with
  | accesses stage turn =>
    obtain rfl := Stage.waiting.inj (waits.symm.trans stage)
    exact ⟨_, turn, rfl, rfl⟩
  | rests final => simp [waits, Stage.isFinal] at final
  | heeds stage | idles stage | picks stage | fails stage | overflows stage | expands stage
    | concludes stage | meets stage | skips stage | sinks stage | records stage | claims stage
    | publishes stage | strands stage | flushes stage | reports stage | latches stage
    | unwinds stage => cases waits.symm.trans stage

theorem Turn.of_flushing (flushing : worker.stage = .flushing)
    (turn : Turn model worker shared next after events) :
    next = { worker with log := (worker.log.flush shared.disk).1, stage := .stopped } ∧
      after = { shared with disk := (worker.log.flush shared.disk).2 } ∧ events = [] := by
  cases turn with
  | flushes stage => exact ⟨rfl, rfl, rfl⟩
  | rests final => simp [flushing, Stage.isFinal] at final
  | heeds stage | idles stage | picks stage | accesses stage | fails stage | overflows stage
    | expands stage | concludes stage | meets stage | skips stage | sinks stage | records stage
    | claims stage | publishes stage | strands stage | reports stage | latches stage
    | unwinds stage => cases flushing.symm.trans stage

/-- A worker that has come to its end does nothing any more. -/
theorem Turn.of_isFinal (final : worker.stage.isFinal = true)
    (turn : Turn model worker shared next after events) :
    next = worker ∧ after = shared ∧ events = [] := by
  cases turn with
  | rests => exact ⟨rfl, rfl, rfl⟩
  | heeds stage | idles stage | picks stage | accesses stage | fails stage | overflows stage
    | expands stage | concludes stage | meets stage | skips stage | sinks stage | records stage
    | claims stage | publishes stage | strands stage | flushes stage | reports stage
    | latches stage | unwinds stage => simp [stage, Stage.isFinal] at final

end Worker

end Wavefront
