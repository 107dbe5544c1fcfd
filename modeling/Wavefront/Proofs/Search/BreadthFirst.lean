/-
# Breadth-first search

The plain algorithm, for comparison: one queue of states to be expanded, and one set of the
fingerprints that have been met. The initial states enter the queue first, in order; then the
state at the head is expanded again and again, and those of its successors whose fingerprints
are new enter at the end. The search is over when the queue is empty or a state has failed.

Nothing here knows of workers, pages, files or words of a limited size: levels and counts are
numbers, and a state that was discovered keeps the state that it was discovered from.
-/

import Mathlib.Data.List.Basic
import Wavefront.Exploration.Run
import Wavefront.Proofs.Trace.Discovery

namespace Wavefront.BreadthFirst

variable {σ : Type}

/-! ## The algorithm -/

/-- A state that was discovered, with its place in the order of discovery. -/
inductive Visit (σ : Type) where
  /-- An initial state. -/
  | initial (index : Nat) (state : σ)
  /-- A successor of a state that was discovered before. -/
  | successor (origin : Visit σ) (index : Nat) (state : σ)

namespace Visit

def state : Visit σ → σ
  | initial _ state => state
  | successor _ _ state => state

def index : Visit σ → Nat
  | initial index _ => index
  | successor _ index _ => index

/-- Where the state was discovered from, if it is not an initial one. -/
def origin? : Visit σ → Option (Visit σ)
  | initial .. => none
  | successor origin .. => some origin

/-- The number of states on the way to this one. -/
def level : Visit σ → Nat
  | initial .. => 1
  | successor origin .. => origin.level + 1

/-- The fingerprints on the way to this state. -/
def trail (model : Model σ) : Visit σ → List Fingerprint
  | initial _ state => [model.fingerprint state]
  | successor origin _ state => origin.trail model ++ [model.fingerprint state]

/-- A state that is discovered from another one, or as an initial one. -/
def make (origin : Option (Visit σ)) (index : Nat) (state : σ) : Visit σ :=
  match origin with
  | none => initial index state
  | some origin => successor origin index state

end Visit

/-- How far a search has come. -/
structure Search (σ : Type) where
  /-- The states expanded, in order. -/
  expanded : List (Visit σ)
  /-- The states yet to be expanded, in order. -/
  queue : List (Visit σ)
  /-- The fingerprints met. -/
  seen : List Fingerprint
  /-- How many successors the states expanded have. -/
  degrees : List Nat
  /-- The state whose successors could not be computed. -/
  failure : Option (Visit σ × Stop)

namespace Search

/-- All states discovered, in order. -/
def found (search : Search σ) : List (Visit σ) := search.expanded ++ search.queue

/-- Whether there is nothing to be done any more. -/
def isOver (search : Search σ) : Bool := search.failure.isSome || search.queue.isEmpty

/-- Put a state into the queue, unless its fingerprint has been met. -/
def offer (model : Model σ) (origin : Option (Visit σ)) (search : Search σ) (state : σ) :
    Search σ :=
  if model.fingerprint state ∈ search.seen then search
  else
    { search with
      queue := search.queue ++ [.make origin search.found.length state]
      seen := search.seen ++ [model.fingerprint state] }

/-- Offer states in order. -/
def offerAll (model : Model σ) (origin : Option (Visit σ)) (search : Search σ) (states : List σ) :
    Search σ :=
  states.foldl (offer model origin) search

/-- Expand the state at the head of the queue. -/
def expand (model : Model σ) (search : Search σ) : Search σ :=
  match search.failure, search.queue with
  | none, visit :: rest =>
      let search := { search with expanded := search.expanded ++ [visit], queue := rest }
      match model.successors visit.state with
      | .error stop => { search with failure := some (visit, stop) }
      | .ok states =>
          offerAll model (some visit) { search with degrees := search.degrees ++ [states.length] }
            states
  | _, _ => search

/-- A search that has discovered nothing. -/
def empty : Search σ := ⟨[], [], [], [], none⟩

/-- The search after so many expansions. -/
def after (model : Model σ) (initial : List σ) : (expansions : Nat) → Search σ
  | 0 => offerAll model none empty initial
  | expansions + 1 => (after model initial expansions).expand model

end Search

/-! ## Discoveries -/

namespace Visit

variable (origin : Option (Visit σ)) (index : Nat) (state : σ)

@[simp]
theorem state_make : (make origin index state).state = state := by
  cases origin <;> rfl

@[simp]
theorem index_make : (make origin index state).index = index := by
  cases origin <;> rfl

@[simp]
theorem origin?_make : (make origin index state).origin? = origin := by
  cases origin <;> rfl

end Visit

namespace Search

variable {model : Model σ} {search : Search σ} {origin : Option (Visit σ)} {state : σ}
  {states : List σ} {visit : Visit σ}

theorem offer_of_mem (known : model.fingerprint state ∈ search.seen) :
    search.offer model origin state = search :=
  if_pos known

theorem offer_of_notMem (new : model.fingerprint state ∉ search.seen) :
    search.offer model origin state =
      { search with
        queue := search.queue ++ [.make origin search.found.length state]
        seen := search.seen ++ [model.fingerprint state] } :=
  if_neg new

/-- A state whose fingerprint is new is discovered last. -/
theorem found_offer (new : model.fingerprint state ∉ search.seen) :
    (search.offer model origin state).found =
      search.found ++ [.make origin search.found.length state] := by
  rw [offer_of_notMem new]
  exact (List.append_assoc _ _ _).symm

theorem offerAll_append (search : Search σ) (origin : Option (Visit σ)) (first second : List σ) :
    search.offerAll model origin (first ++ second) =
      (search.offerAll model origin first).offerAll model origin second :=
  List.foldl_append

/-- What offering a state preserves holds after offering several. -/
theorem offerAll_induction {invariant : Search σ → Prop}
    (preserved : ∀ search state, invariant search → invariant (search.offer model origin state))
    (start : invariant search) (states : List σ) :
    invariant (search.offerAll model origin states) := by
  induction states generalizing search with
  | nil => exact start
  | cons state rest ih => exact ih (preserved search state start)

/-- What a search has expanded and counted does not change while states are offered. -/
theorem offerAll_eq (search : Search σ) (origin : Option (Visit σ)) (states : List σ) :
    (search.offerAll model origin states).expanded = search.expanded ∧
      (search.offerAll model origin states).degrees = search.degrees ∧
      (search.offerAll model origin states).failure = search.failure := by
  apply @offerAll_induction _ model search origin fun later =>
    later.expanded = search.expanded ∧ later.degrees = search.degrees ∧
      later.failure = search.failure
  · intro later state same
    by_cases known : model.fingerprint state ∈ later.seen
    · rwa [offer_of_mem known]
    · rwa [offer_of_notMem known]
  · exact ⟨rfl, rfl, rfl⟩

/-- A search that is not over has a state to be expanded. -/
theorem exists_queue_eq (going : ¬ search.isOver = true) :
    search.failure = none ∧ ∃ visit rest, search.queue = visit :: rest := by
  simp only [isOver, Bool.or_eq_true, Option.isSome_iff_ne_none, List.isEmpty_iff, not_or,
    not_not] at going
  exact ⟨going.1, List.exists_cons_of_ne_nil going.2⟩

/-- A state that is expanded has been discovered before. -/
theorem append_queue_eq {rest : List (Visit σ)} (queue : search.queue = visit :: rest) :
    search.expanded ++ [visit] ++ rest = search.found := by
  rw [List.append_assoc, found, queue]
  rfl

/-- A search that is not over expands the head of its queue, which may fail. -/
theorem expand_of_error {rest : List (Visit σ)} {stop : Stop} (going : search.failure = none)
    (queue : search.queue = visit :: rest) (failed : model.successors visit.state = .error stop) :
    search.expand model =
      { search with
        expanded := search.expanded ++ [visit]
        queue := rest
        failure := some (visit, stop) } := by
  simp only [expand, going, queue, failed]

/-- A search that is not over expands the head of its queue. -/
theorem expand_of_ok {rest : List (Visit σ)} (going : search.failure = none)
    (queue : search.queue = visit :: rest) (computed : model.successors visit.state = .ok states) :
    search.expand model =
      offerAll model (some visit)
        { search with
          expanded := search.expanded ++ [visit]
          queue := rest
          degrees := search.degrees ++ [states.length] } states := by
  simp only [expand, going, queue, computed]

/-- A search that is over stays as it is. -/
theorem expand_of_isOver (ended : search.isOver = true) : search.expand model = search := by
  unfold expand
  split
  · rename_i going queue
    simp [isOver, going, queue] at ended
  · rfl

/-! ## Order -/

/-- What is known of any search: the fingerprints met are those of the states discovered, which are
numbered in order, and whatever a state was discovered from was discovered before. -/
structure Orderly (model : Model σ) (search : Search σ) : Prop where
  seen : search.seen = search.found.map fun visit => model.fingerprint visit.state
  indices : search.found.map Visit.index = List.range search.found.length
  origins : ∀ visit ∈ search.found, ∀ origin, visit.origin? = some origin → origin ∈ search.found

/-- Offering a state keeps a search in order. -/
theorem Orderly.offer (orderly : search.Orderly model)
    (known : ∀ visit, origin = some visit → visit ∈ search.found) (state : σ) :
    (search.offer model origin state).Orderly model := by
  by_cases met : model.fingerprint state ∈ search.seen
  · rwa [offer_of_mem met]
  · have found := @found_offer _ _ _ origin _ met
    constructor
    · rw [found, List.map_append, ← orderly.seen, offer_of_notMem met]
      simp
    · rw [found, List.map_append, orderly.indices, List.length_append, List.length_singleton,
        List.range_succ]
      simp
    · rw [found]
      intro visit member origin' same
      rcases List.mem_append.mp member with old | new
      · exact List.mem_append_left _ (orderly.origins visit old origin' same)
      · rw [List.mem_singleton.mp new, Visit.origin?_make] at same
        exact List.mem_append_left _ (known origin' same)

/-- A search with the same discoveries is in order, too. -/
theorem Orderly.of_found {later : Search σ} (orderly : search.Orderly model)
    (found : later.found = search.found) (seen : later.seen = search.seen) :
    later.Orderly model := by
  constructor
  · rw [seen, found]
    exact orderly.seen
  · rw [found]
    exact orderly.indices
  · rw [found]
    exact orderly.origins

/-- Discoveries and counts are only ever added to. -/
structure Grows (before later : Search σ) : Prop where
  found : before.found <+: later.found
  degrees : before.degrees <+: later.degrees

theorem Grows.refl (search : Search σ) : search.Grows search :=
  ⟨List.prefix_rfl, List.prefix_rfl⟩

theorem Grows.trans {before middle later : Search σ} (first : before.Grows middle)
    (second : middle.Grows later) : before.Grows later :=
  ⟨first.found.trans second.found, first.degrees.trans second.degrees⟩

theorem grows_offer (search : Search σ) (origin : Option (Visit σ)) (state : σ) :
    search.Grows (search.offer model origin state) := by
  by_cases met : model.fingerprint state ∈ search.seen
  · rw [offer_of_mem met]
    exact .refl search
  · have degrees : (search.offer model origin state).degrees = search.degrees :=
      (offerAll_eq search origin [state]).2.1
    constructor
    · rw [found_offer met]
      exact List.prefix_append _ _
    · exact degrees ▸ List.prefix_rfl

theorem grows_offerAll (search : Search σ) (origin : Option (Visit σ)) (states : List σ) :
    search.Grows (search.offerAll model origin states) := by
  apply offerAll_induction
  · intro later state grows
    exact grows.trans (later.grows_offer origin state)
  · exact .refl search

/-- Offering states keeps a search in order. -/
theorem Orderly.offerAll (orderly : search.Orderly model)
    (known : ∀ visit, origin = some visit → visit ∈ search.found) (states : List σ) :
    (search.offerAll model origin states).Orderly model := by
  suffices both : (search.offerAll model origin states).Orderly model ∧
      search.Grows (search.offerAll model origin states) from both.1
  apply @offerAll_induction _ model search origin fun later =>
    later.Orderly model ∧ search.Grows later
  · intro later state ⟨orderly, grows⟩
    have still : ∀ visit, origin = some visit → visit ∈ later.found := fun visit same =>
      grows.found.subset (known visit same)
    exact ⟨orderly.offer still state, grows.trans (later.grows_offer origin state)⟩
  · exact ⟨orderly, .refl search⟩

/-- An expansion keeps a search in order, and adds to it only. -/
theorem Orderly.expand (orderly : search.Orderly model) :
    (search.expand model).Orderly model ∧ search.Grows (search.expand model) := by
  by_cases ended : search.isOver = true
  · rw [expand_of_isOver ended]
    exact ⟨orderly, .refl search⟩
  · obtain ⟨going, visit, rest, queue⟩ := exists_queue_eq ended
    have same := append_queue_eq queue
    cases computed : model.successors visit.state with
    | error stop =>
      rw [expand_of_error going queue computed]
      exact ⟨orderly.of_found same rfl, same ▸ List.prefix_rfl, List.prefix_rfl⟩
    | ok states =>
      rw [expand_of_ok going queue computed]
      have begun : Orderly model { search with
          expanded := search.expanded ++ [visit]
          queue := rest
          degrees := search.degrees ++ [states.length] } := orderly.of_found same rfl
      refine ⟨begun.offerAll (fun origin alike => ?_) states, ?_⟩
      · obtain rfl := Option.some.inj alike
        simp [found]
      · exact Grows.trans ⟨same ▸ List.prefix_rfl, List.prefix_append _ _⟩
          (grows_offerAll _ (some visit) states)

variable {initial : List σ} {expansions : Nat}

theorem orderly_after (model : Model σ) (initial : List σ) (expansions : Nat) :
    (after model initial expansions).Orderly model := by
  induction expansions with
  | zero =>
    have nothing : (empty : Search σ).Orderly model := ⟨rfl, rfl, by simp [empty, found]⟩
    exact nothing.offerAll (by simp) initial
  | succ expansions ih => exact ih.expand.1

/-- A search only adds to what it has discovered and counted. -/
theorem grows_after (model : Model σ) (initial : List σ) {expansions more : Nat}
    (less : expansions ≤ more) :
    (after model initial expansions).Grows (after model initial more) := by
  induction less with
  | refl => exact .refl _
  | @step more _ ih => exact ih.trans (orderly_after model initial more).expand.2

/-- A search fails at the state that it has expanded last, whose successors cannot be computed. -/
theorem exists_of_failure {stop : Stop}
    (failed : (after model initial expansions).failure = some (visit, stop)) :
    ∃ earlier, (after model initial expansions).expanded = earlier ++ [visit] ∧
      model.successors visit.state = .error stop := by
  induction expansions with
  | zero =>
    rw [after, (offerAll_eq _ _ _).2.2] at failed
    cases failed
  | succ expansions ih =>
    rw [after] at failed ⊢
    by_cases ended : (after model initial expansions).isOver = true
    · rw [expand_of_isOver ended] at failed ⊢
      exact ih failed
    · obtain ⟨going, next, rest, queue⟩ := exists_queue_eq ended
      cases computed : model.successors next.state with
      | error cause =>
        rw [expand_of_error going queue computed] at failed ⊢
        obtain ⟨rfl, rfl⟩ := failed
        exact ⟨_, rfl, computed⟩
      | ok states =>
        rw [expand_of_ok going queue computed, (offerAll_eq _ _ _).2.2] at failed
        cases going.symm.trans failed

/-- A search that is over is over for good. -/
theorem after_eq_of_isOver (ended : (after model initial expansions).isOver = true) {more : Nat}
    (less : expansions ≤ more) : after model initial more = after model initial expansions := by
  induction less with
  | refl => rfl
  | @step more _ ih =>
    rw [after, ih]
    exact expand_of_isOver ended

/-- A search has only one end. -/
theorem after_eq_of_both {other : Nat} (ended : (after model initial expansions).isOver = true)
    (done : (after model initial other).isOver = true) :
    after model initial expansions = after model initial other := by
  rcases Nat.le_total expansions other with less | more
  · exact (after_eq_of_isOver ended less).symm
  · exact after_eq_of_isOver done more

end Search

/-! ## In terms of the engine

What the engine keeps of a state that was discovered: a level and an offset of limited size, and a
record that refers to the record of the state it was discovered from. -/

namespace Visit

/-- The node for a state that was discovered. Records lie in one log, one after the other. -/
def node (visit : Visit σ) : Node σ :=
  ⟨visit.state, UInt32.ofNat visit.level, ⟨0, UInt64.ofNat (Record.width * visit.index)⟩⟩

/-- The node, and that of the state that it was discovered from. -/
def finding (visit : Visit σ) : Finding σ := (visit.origin?.map node, visit.node)

/-- A successor lies one level deeper. -/
theorem level_node_successor (origin : Visit σ) (index : Nat) (state : σ) :
    (successor origin index state).node.level = origin.node.level + 1 :=
  UInt32.ofNat_add _ _

/-- The record of a state that was discovered. -/
def record (model : Model σ) (visit : Visit σ) : Record :=
  match visit.origin? with
  | none => .initial 0 (model.fingerprint visit.state)
  | some origin =>
      ⟨⟨0, UInt64.ofNat (Record.width * origin.index)⟩, model.fingerprint visit.state⟩

theorem recordOf_finding (model : Model σ) (visit : Visit σ) :
    Trace.recordOf model visit.finding = visit.record model := by
  cases visit <;> rfl

end Visit

namespace Search

/-- The deepest level of a state that was discovered. -/
def depth (search : Search σ) : Nat := (search.found.map Visit.level).foldl max 0

theorem depth_offer {model : Model σ} {search : Search σ} {origin : Option (Visit σ)} {state : σ}
    (new : model.fingerprint state ∉ search.seen) :
    (search.offer model origin state).depth =
      max search.depth (Visit.make origin search.found.length state).level := by
  rw [depth, found_offer new, List.map_append, List.foldl_append]
  rfl

/-- What a search counts that began with so many states. -/
def summary (search : Search σ) (initialStates : Nat) : Summary where
  statesGenerated := initialStates + search.degrees.sum
  distinctStates := search.found.length
  maxLevel := UInt32.ofNat search.depth
  outDegree := ((Histogram.empty "out-degree" outDegreeBuckets).addAll search.degrees).2
  workers := 1

/-- How a search ends: an error of the model is a verdict, anything else stops the run. -/
def outcome (model : Model σ) (search : Search σ) (initialStates : Nat) (directory : Path) :
    Except Stop (Outcome σ) :=
  match search.failure with
  | none => .ok ⟨.complete, search.summary initialStates, directory⟩
  | some (visit, .failure cause) =>
      if cause.isOfModel then
        .ok ⟨.failed visit.node cause (visit.trail model), search.summary initialStates, directory⟩
      else .error (.failure cause)
  | some (_, .fault fault) => .error (.fault fault)

/-- The records of all states discovered, one after the other. -/
def log (model : Model σ) (search : Search σ) : Bytes :=
  (search.found.map (Visit.record model)).flatMap Record.encode

/-- No level, offset or counter of the search reaches its limit. -/
structure Fits (search : Search σ) : Prop where
  levels : ∀ visit ∈ search.found, visit.level < 2 ^ 32 - 1
  offsets : Record.width * search.found.length < 2 ^ 64
  generated : search.degrees.sum < 2 ^ 64

variable {search : Search σ}

/-- No level is the greatest that there is. -/
theorem Fits.level_ne (fits : search.Fits) :
    ∀ visit ∈ search.found, visit.node.level ≠ Worker.levelMax := by
  intro visit member deep
  have small := fits.levels visit member
  have same := congrArg UInt32.toNat deep
  have top : Worker.levelMax.toNat = 2 ^ 32 - 1 := rfl
  have level : visit.node.level.toNat = visit.level :=
    UInt32.toNat_ofNat_of_lt (Nat.lt_of_lt_of_le small (by decide))
  omega

/-- There are fewer states than can be counted. -/
theorem Fits.length_lt (fits : search.Fits) : search.found.length < Histogram.counterMax := by
  have offsets := fits.offsets
  rw [show Record.width = 18 from rfl] at offsets
  rw [show Histogram.counterMax = 2 ^ 64 - 1 from rfl]
  omega

/-- No state lies deeper than can be said. -/
theorem Fits.depth_lt (fits : search.Fits) : search.depth < 2 ^ 32 - 1 := by
  have levels : ∀ level ∈ search.found.map Visit.level, level < 2 ^ 32 - 1 := by
    simpa using fits.levels
  rw [depth]
  apply List.foldlRecOn (motive := fun deepest => deepest < 2 ^ 32 - 1)
  · decide
  · intro deepest small level member
    exact Nat.max_lt.mpr ⟨small, levels level member⟩

theorem Fits.of_grows {later : Search σ} (fits : later.Fits) (grows : search.Grows later) :
    search.Fits where
  levels visit member := fits.levels visit (grows.found.subset member)
  offsets :=
    Nat.lt_of_le_of_lt (Nat.mul_le_mul_left _ grows.found.length_le) fits.offsets
  generated := by
    obtain ⟨more, same⟩ := grows.degrees
    have total := fits.generated
    rw [← same, List.sum_append] at total
    omega

/-- If a search that is over stays within the limits, it has been within them all the time. -/
theorem fits_after {model : Model σ} {initial : List σ} {expansions : Nat}
    (ended : (after model initial expansions).isOver = true)
    (fits : (after model initial expansions).Fits) (number : Nat) :
    (after model initial number).Fits := by
  rcases Nat.le_total number expansions with less | more
  · exact fits.of_grows (grows_after model initial less)
  · rwa [after_eq_of_isOver ended more]

/-! ## Records -/

/-- A route leads to every state discovered, along which its trail lies. -/
theorem Orderly.exists_route {model : Model σ} (orderly : search.Orderly model) {visit : Visit σ}
    (member : visit ∈ search.found) :
    ∃ path, Trace.Route (search.found.map Visit.finding) path visit.node ∧
      path.map (fun node => model.fingerprint node.state) = visit.trail model := by
  induction visit with
  | initial index state =>
    refine ⟨[Visit.node (.initial index state)], .seed ?_, rfl⟩
    exact List.mem_map_of_mem (f := Visit.finding) member
  | successor origin index state ih =>
    obtain ⟨path, route, trail⟩ := ih (orderly.origins _ member origin rfl)
    refine ⟨_, .step route (List.mem_map_of_mem (f := Visit.finding) member), ?_⟩
    rw [List.map_append, trail]
    rfl

/-- All records lie in one log, in the order of discovery. -/
theorem recordsOf_findings (model : Model σ) (visits : List (Visit σ)) :
    Trace.recordsOf model (visits.map Visit.finding) 0 = visits.map (Visit.record model) := by
  have all : Trace.findingsOf (visits.map Visit.finding) 0 = visits.map Visit.finding := by
    apply List.filter_eq_self.mpr
    intro item member
    obtain ⟨visit, -, rfl⟩ := List.mem_map.mp member
    rfl
  rw [Trace.recordsOf, all, List.map_map]
  exact List.map_congr_left fun visit _ => Visit.recordOf_finding model visit

/-- A state discovered is found at its place. -/
theorem Orderly.getElem?_index {model : Model σ} (orderly : search.Orderly model) {visit : Visit σ}
    (member : visit ∈ search.found) : search.found[visit.index]? = some visit := by
  obtain ⟨place, within, rfl⟩ := List.getElem_of_mem member
  have numbers := congrArg (·[place]?) orderly.indices
  simp only [List.getElem?_map, List.getElem?_eq_getElem within, Option.map_some,
    List.getElem?_range within, Option.some.injEq] at numbers
  rw [numbers, List.getElem?_eq_getElem within]

/-- The record of the state that was discovered after so many others is at its offset. -/
theorem decode_log (model : Model σ) {visit : Visit σ} {index : Nat}
    (found : search.found[index]? = some visit) :
    ∃ rest, Record.decode ((search.log model).drop (Record.width * index)) =
      .ok (visit.record model, rest) := by
  apply Record.decode_drop
  rw [List.getElem?_map, found, Option.map_some]

/-- The record of a state refers to the record of the state that it was discovered from. -/
theorem Orderly.predecessor?_record {model : Model σ} (orderly : search.Orderly model)
    (fits : search.Fits) {visit : Visit σ} (member : visit ∈ search.found) :
    (visit.record model).predecessor? =
      visit.origin?.map fun origin => ⟨0, UInt64.ofNat (Record.width * origin.index)⟩ := by
  cases visit with
  | initial index state => rfl
  | successor origin index state =>
    have there := orderly.getElem?_index (orderly.origins _ member origin rfl)
    have within := (List.getElem?_eq_some_iff.mp there).1
    have offsets := fits.offsets
    rw [show Record.width = 18 from rfl] at offsets
    have real : UInt64.ofNat (Record.width * origin.index) ≠ Record.nowhere := by
      intro same
      have value := congrArg UInt64.toNat same
      rw [show Record.width = 18 from rfl, UInt64.toNat_ofNat', Nat.mod_eq_of_lt (by omega),
        show Record.nowhere.toNat = 2 ^ 64 - 1 from rfl] at value
      omega
    exact if_neg real

end Search

end Wavefront.BreadthFirst
