/-
# The history of a frontier

The program keeps no record of what has happened, but what is to be said about it
is about whole runs: which tickets were drawn, which pages were enqueued, and which
ticket each of them was delivered to. An `Event` is one such happening. Events are
observed from outside, out of the state before a step, and change nothing; a history
is the list of them in order, and the functions here read it.

A page waits if it was enqueued and not delivered. A ticket is forgone if the call
that drew it ended without a page.
-/

import Mathlib.Data.List.Basic
import Wavefront.Frontier.Dequeue

namespace Wavefront

/-- The nodes on pages, in order. -/
def nodesOn {σ : Type} (pages : List (Page σ)) : List (Node σ) := pages.flatMap (·.nodes.toList)

section

variable {σ : Type} (page : Page σ) (pages more : List (Page σ))

@[simp]
theorem nodesOn_nil : nodesOn ([] : List (Page σ)) = [] := rfl

@[simp]
theorem nodesOn_cons : nodesOn (page :: pages) = page.nodes.toList ++ nodesOn pages := rfl

@[simp]
theorem nodesOn_append : nodesOn (pages ++ more) = nodesOn pages ++ nodesOn more :=
  List.flatMap_append

variable {page pages more}

theorem mem_nodesOn {node : Node σ} : node ∈ nodesOn pages ↔ ∃ page ∈ pages, node ∈ page.nodes := by
  simp [nodesOn]

theorem nodesOn_perm (same : pages.Perm more) : (nodesOn pages).Perm (nodesOn more) :=
  same.flatMap_right _

end

/-- Something that happens at a frontier or in the trace logs. -/
inductive Event (σ : Type) where
  /-- A call took a ticket. -/
  | drawn (ticket : Nat)
  /-- The call with a ticket ended with a page. -/
  | delivered (ticket : Nat) (page : Page σ)
  /-- The call with a ticket ended without a page. -/
  | forgone (ticket : Nat)
  /-- A page was left to wait. -/
  | enqueued (page : Page σ)
  /-- A page could not be left to wait, and was lost. -/
  | refused (page : Page σ) (stop : Stop)
  /-- A node was recorded, with the node that it was reached from if it is not an initial one. -/
  | recorded (parent : Option (Node σ)) (node : Node σ)

namespace Event

variable {σ : Type}

@[simp]
def drawn? : Event σ → Option Nat
  | .drawn ticket => some ticket
  | _ => none

@[simp]
def delivered? : Event σ → Option (Nat × Page σ)
  | .delivered ticket page => some (ticket, page)
  | _ => none

@[simp]
def forgone? : Event σ → Option Nat
  | .forgone ticket => some ticket
  | _ => none

@[simp]
def enqueued? : Event σ → Option (Page σ)
  | .enqueued page => some page
  | _ => none

@[simp]
def refused? : Event σ → Option (Page σ)
  | .refused page _ => some page
  | _ => none

@[simp]
def cause? : Event σ → Option Stop
  | .refused _ stop => some stop
  | _ => none

@[simp]
def recorded? : Event σ → Option (Option (Node σ) × Node σ)
  | .recorded parent node => some (parent, node)
  | _ => none

end Event

/-- What has happened, in order. -/
abbrev History (σ : Type) := List (Event σ)

namespace History

variable {σ : Type}

/-- The tickets taken. -/
def drawn (events : History σ) : List Nat := events.filterMap Event.drawn?

/-- The pages delivered, with their tickets. -/
def delivered (events : History σ) : List (Nat × Page σ) := events.filterMap Event.delivered?

/-- The tickets whose calls ended without a page. -/
def forgone (events : History σ) : List Nat := events.filterMap Event.forgone?

/-- The pages left to wait. -/
def enqueued (events : History σ) : List (Page σ) := events.filterMap Event.enqueued?

/-- The pages that could not be left to wait. -/
def refused (events : History σ) : List (Page σ) := events.filterMap Event.refused?

/-- Why pages could not be left to wait. -/
def causes (events : History σ) : List Stop := events.filterMap Event.cause?

/-- The nodes recorded, each with the one that it was reached from. -/
def recorded (events : History σ) : List (Option (Node σ) × Node σ) :=
  events.filterMap Event.recorded?

/-- The tickets that were answered with a page. -/
def answered (events : History σ) : List Nat := (delivered events).map (·.1)

/-- The nodes recorded. -/
def nodes (events : History σ) : List (Node σ) := (recorded events).map (·.2)

/-- The pages that were left to wait and have not been delivered. -/
def waiting (events : History σ) : List (Page σ) :=
  (enqueued events).filter (·.id ∉ answered events)

section

variable (event : Event σ) (events more : History σ)

@[simp]
theorem drawn_nil : drawn ([] : History σ) = [] := rfl

@[simp]
theorem drawn_cons : drawn (event :: events) = event.drawn?.toList ++ drawn events := by
  cases event <;> rfl

@[simp]
theorem drawn_append : drawn (events ++ more) = drawn events ++ drawn more :=
  List.filterMap_append

@[simp]
theorem delivered_nil : delivered ([] : History σ) = [] := rfl

@[simp]
theorem delivered_cons :
    delivered (event :: events) = event.delivered?.toList ++ delivered events := by
  cases event <;> rfl

@[simp]
theorem delivered_append : delivered (events ++ more) = delivered events ++ delivered more :=
  List.filterMap_append

@[simp]
theorem forgone_nil : forgone ([] : History σ) = [] := rfl

@[simp]
theorem forgone_cons : forgone (event :: events) = event.forgone?.toList ++ forgone events := by
  cases event <;> rfl

@[simp]
theorem forgone_append : forgone (events ++ more) = forgone events ++ forgone more :=
  List.filterMap_append

@[simp]
theorem enqueued_nil : enqueued ([] : History σ) = [] := rfl

@[simp]
theorem enqueued_cons : enqueued (event :: events) = event.enqueued?.toList ++ enqueued events := by
  cases event <;> rfl

@[simp]
theorem enqueued_append : enqueued (events ++ more) = enqueued events ++ enqueued more :=
  List.filterMap_append

@[simp]
theorem refused_nil : refused ([] : History σ) = [] := rfl

@[simp]
theorem refused_cons : refused (event :: events) = event.refused?.toList ++ refused events := by
  cases event <;> rfl

@[simp]
theorem refused_append : refused (events ++ more) = refused events ++ refused more :=
  List.filterMap_append

@[simp]
theorem causes_nil : causes ([] : History σ) = [] := rfl

@[simp]
theorem causes_cons : causes (event :: events) = event.cause?.toList ++ causes events := by
  cases event <;> rfl

@[simp]
theorem causes_append : causes (events ++ more) = causes events ++ causes more :=
  List.filterMap_append

/-- Whenever a page is refused, there is a cause. -/
theorem length_causes : (causes events).length = (refused events).length := by
  induction events with
  | nil => rfl
  | cons event rest ih =>
    rw [causes_cons, refused_cons, List.length_append, List.length_append, ih]
    cases event <;> rfl

@[simp]
theorem recorded_nil : recorded ([] : History σ) = [] := rfl

@[simp]
theorem recorded_cons : recorded (event :: events) = event.recorded?.toList ++ recorded events := by
  cases event <;> rfl

@[simp]
theorem recorded_append : recorded (events ++ more) = recorded events ++ recorded more :=
  List.filterMap_append

@[simp]
theorem answered_nil : answered ([] : History σ) = [] := rfl

@[simp]
theorem answered_cons :
    answered (event :: events) = (event.delivered?.map (·.1)).toList ++ answered events := by
  cases event <;> rfl

@[simp]
theorem answered_append : answered (events ++ more) = answered events ++ answered more := by
  simp [answered]

@[simp]
theorem nodes_nil : nodes ([] : History σ) = [] := rfl

@[simp]
theorem nodes_cons :
    nodes (event :: events) = (event.recorded?.map (·.2)).toList ++ nodes events := by
  cases event <;> rfl

@[simp]
theorem waiting_nil : waiting ([] : History σ) = [] := rfl

@[simp]
theorem nodes_append : nodes (events ++ more) = nodes events ++ nodes more := by
  simp [nodes]

end

variable {events more : History σ} {page : Page σ} {ticket : Nat}

theorem mem_waiting :
    page ∈ waiting events ↔ page ∈ enqueued events ∧ page.id ∉ answered events := by
  simp [waiting]

/-- Which pages wait is decided by the pages left to wait and by the tickets answered. -/
theorem waiting_append_of_nil (noneEnqueued : enqueued more = [])
    (noneAnswered : answered more = []) :
    waiting (events ++ more) = waiting events := by
  simp [waiting, noneEnqueued, noneAnswered]

theorem waiting_append_enqueued (fresh : page.id ∉ answered events) :
    waiting (events ++ [.enqueued page]) = waiting events ++ [page] := by
  simp [waiting, fresh]

theorem waiting_append_delivered :
    waiting (events ++ [.delivered ticket page]) = (waiting events).filter (·.id ≠ ticket) := by
  simp only [waiting, enqueued_append, answered_append, enqueued_cons, enqueued_nil, answered_cons,
    answered_nil, List.filter_filter]
  simp only [Event.enqueued?, Event.delivered?, Option.map_some, Option.toList_none,
    Option.toList_some, List.append_nil]
  apply List.filter_congr
  intro other _
  simp [and_comm]

end History

end Wavefront
