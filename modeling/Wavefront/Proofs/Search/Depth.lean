/-
# Levels and shortest paths

The level at which breadth-first search discovers a state is the number of states on a shortest
path to it. The search looks at states level by level: what it has discovered lies in the order of
the levels, and the states in its queue lie at most one level above the deepest. So a path leads
to a state that was discovered, and no later than the path is long, or else through a state in the
queue that lies higher than the end of the path.
-/

import Wavefront.Proofs.Exploration.Exactness
import Wavefront.Proofs.Search.BreadthFirst

namespace Wavefront

variable {σ : Type}

/-! ## Paths -/

namespace Model

/-- A path of so many states leads from an initial state to this one. -/
inductive ReachableIn (model : Model σ) (initial : List σ) : Nat → σ → Prop where
  | start {state : σ} (member : state ∈ initial) : ReachableIn model initial 1 state
  | step {length : Nat} {state next : σ} {states : List σ}
      (before : ReachableIn model initial length state)
      (computed : model.successors state = .ok states) (member : next ∈ states) :
      ReachableIn model initial (length + 1) next

/-- The number of states on a shortest path to a state. -/
structure IsDepth (model : Model σ) (initial : List σ) (state : σ) (depth : Nat) : Prop where
  reached : model.ReachableIn initial depth state
  least : ∀ length, model.ReachableIn initial length state → depth ≤ length

variable {model : Model σ} {initial : List σ} {state : σ} {length : Nat}

/-- Where a path leads can be reached. -/
theorem ReachableIn.reachable (path : model.ReachableIn initial length state) :
    model.Reachable initial state := by
  induction path with
  | start member => exact .start member
  | step before computed member ih => exact .step ih computed member

/-- A path leads to what can be reached. -/
theorem Reachable.exists_reachableIn (reachable : model.Reachable initial state) :
    ∃ length, model.ReachableIn initial length state := by
  induction reachable with
  | start member => exact ⟨1, .start member⟩
  | step before computed member ih =>
    obtain ⟨length, path⟩ := ih
    exact ⟨length + 1, .step path computed member⟩

end Model

namespace BreadthFirst

variable {model : Model σ} {initial : List σ} {search : Search σ}

namespace Visit

@[simp]
theorem level_make (origin : Option (Visit σ)) (index : Nat) (state : σ) :
    (make origin index state).level = origin.elim 1 (·.level + 1) := by
  cases origin <;> rfl

/-- The trail of a state is as long as its level says. -/
theorem length_trail (model : Model σ) (visit : Visit σ) :
    (visit.trail model).length = visit.level := by
  induction visit with
  | initial index state => rfl
  | successor origin index state ih => simp [trail, level, ih]

end Visit

namespace Search

/-! ## Layers -/

/-- The states discovered lie in the order of their levels, none deeper than so many, and those in
the queue at most one level above that. -/
structure Layered (deepest : Nat) (search : Search σ) : Prop where
  sorted : (search.found.map Visit.level).Pairwise (· ≤ ·)
  shallow : ∀ visit ∈ search.found, visit.level ≤ deepest
  near : ∀ visit ∈ search.queue, deepest ≤ visit.level + 1

/-- A state with the fingerprint was discovered at the level or above. -/
def Meets (model : Model σ) (search : Search σ) (level : Nat) (print : Fingerprint) : Prop :=
  ∃ visit ∈ search.found, model.fingerprint visit.state = print ∧ visit.level ≤ level

variable {deepest : Nat} {origin : Option (Visit σ)} {state : σ} {states : List σ}

theorem Meets.mono {later : Search σ} {level : Nat} {print : Fingerprint}
    (meets : search.Meets model level print) (grows : search.Grows later) :
    later.Meets model level print := by
  obtain ⟨visit, member, same, high⟩ := meets
  exact ⟨visit, grows.found.subset member, same, high⟩

/-- A state that is offered has been discovered then, at the deepest level or above. -/
theorem Layered.meets_offer (layered : search.Layered deepest) (orderly : search.Orderly model)
    (level : origin.elim 1 (·.level + 1) = deepest) :
    (search.offer model origin state).Meets model deepest (model.fingerprint state) := by
  by_cases known : model.fingerprint state ∈ search.seen
  · rw [offer_of_mem known]
    rw [orderly.seen] at known
    obtain ⟨visit, member, same⟩ := List.mem_map.mp known
    exact ⟨visit, member, same, layered.shallow visit member⟩
  · refine ⟨.make origin search.found.length state, ?_, by simp, by simp [level]⟩
    rw [found_offer known]
    exact List.mem_append_right _ List.mem_cons_self

/-- A state that is offered for the deepest level keeps the layers. -/
theorem Layered.offer (layered : search.Layered deepest)
    (level : origin.elim 1 (·.level + 1) = deepest) (state : σ) :
    (search.offer model origin state).Layered deepest := by
  by_cases known : model.fingerprint state ∈ search.seen
  · rwa [offer_of_mem known]
  · have found := @found_offer _ _ _ origin _ known
    constructor
    · rw [found, List.map_append, List.pairwise_append]
      refine ⟨layered.sorted, by simp, ?_⟩
      simpa [level] using layered.shallow
    · rw [found]
      intro visit member
      rcases List.mem_append.mp member with old | new
      · exact layered.shallow visit old
      · simp [List.mem_singleton.mp new, level]
    · rw [offer_of_notMem known]
      intro visit member
      rcases List.mem_append.mp member with old | new
      · exact layered.near visit old
      · simp [List.mem_singleton.mp new, level]

/-- States that are offered for the deepest level keep the layers, and all of them have been
discovered then. -/
theorem Layered.offerAll (layered : search.Layered deepest) (orderly : search.Orderly model)
    (known : ∀ visit, origin = some visit → visit ∈ search.found)
    (level : origin.elim 1 (·.level + 1) = deepest) (states : List σ) :
    (search.offerAll model origin states).Layered deepest ∧ ∀ state ∈ states,
      (search.offerAll model origin states).Meets model deepest (model.fingerprint state) := by
  induction states generalizing search with
  | nil => exact ⟨layered, by simp⟩
  | cons state rest ih =>
    have grows : search.Grows (search.offer model origin state) :=
      search.grows_offer origin state
    obtain ⟨later, each⟩ := ih (layered.offer level state) (orderly.offer known state)
      fun visit same => grows.found.subset (known visit same)
    refine ⟨later, fun other member => ?_⟩
    rcases List.mem_cons.mp member with rfl | among
    · exact (layered.meets_offer orderly level).mono (grows_offerAll _ origin rest)
    · exact each other among

/-- When the state at the head of the queue is taken, its successors are the next layer. -/
theorem Layered.take {visit : Visit σ} {rest : List (Visit σ)} {later : Search σ}
    (layered : search.Layered deepest) (queue : search.queue = visit :: rest)
    (found : later.found = search.found) (remaining : later.queue = rest) :
    later.Layered (visit.level + 1) := by
  have sorted := layered.sorted
  constructor
  · rwa [found]
  · rw [found]
    intro other member
    exact (layered.shallow other member).trans
      (layered.near visit (queue ▸ List.mem_cons_self))
  · rw [remaining]
    intro other member
    rw [Search.found, queue, List.map_append, List.pairwise_append] at sorted
    have head := List.pairwise_cons.mp sorted.2.1
    exact Nat.succ_le_succ (head.1 other.level (List.mem_map_of_mem member))

/-! ## Levels -/

/-- What is known of the levels of a search between two expansions: paths of such lengths lead to
the states discovered; and the initial states, and the successors of what was expanded, have been
discovered no later than paths lead there. -/
structure Levelled (model : Model σ) (initial : List σ) (search : Search σ) : Prop where
  layered : ∃ deepest, search.Layered deepest
  distinct : search.seen.Nodup
  reached : ∀ visit ∈ search.found, model.ReachableIn initial visit.level visit.state
  starts : ∀ state ∈ initial, search.Meets model 1 (model.fingerprint state)
  closed : ∀ visit ∈ search.expanded, ∀ states, model.successors visit.state = .ok states →
    ∀ state ∈ states, search.Meets model (visit.level + 1) (model.fingerprint state)

/-- Offering states keeps the fingerprints met distinct. -/
theorem nodup_seen_offerAll (distinct : search.seen.Nodup) (states : List σ) :
    (search.offerAll model origin states).seen.Nodup := by
  apply @offerAll_induction _ model search origin fun later => later.seen.Nodup
  · intro later state distinct
    by_cases known : model.fingerprint state ∈ later.seen
    · rwa [offer_of_mem known]
    · rw [offer_of_notMem known, List.nodup_append_comm]
      exact List.nodup_cons.mpr ⟨known, distinct⟩
  · exact distinct

/-- What holds of the states discovered and of those that are offered holds of all discovered. -/
theorem forall_found_offerAll {property : Visit σ → Prop}
    (before : ∀ visit ∈ search.found, property visit) {states : List σ}
    (offered : ∀ state ∈ states, ∀ index, property (.make origin index state)) :
    ∀ visit ∈ (search.offerAll model origin states).found, property visit := by
  induction states generalizing search with
  | nil => exact before
  | cons state rest ih =>
    apply ih _ fun other member => offered other (List.mem_cons_of_mem _ member)
    by_cases known : model.fingerprint state ∈ search.seen
    · rwa [offer_of_mem known]
    · rw [found_offer known]
      intro visit member
      rcases List.mem_append.mp member with old | new
      · exact before visit old
      · rw [List.mem_singleton.mp new]
        exact offered state List.mem_cons_self _

/-- The levels of a search that has expanded nothing. -/
theorem levelled_start (model : Model σ) (initial : List σ) :
    (after model initial 0).Levelled model initial := by
  have nothing : (empty : Search σ).Layered 1 :=
    ⟨List.Pairwise.nil, by simp [empty, found], by simp [empty]⟩
  have orderly : (empty : Search σ).Orderly model := ⟨rfl, rfl, by simp [empty, found]⟩
  obtain ⟨layered, each⟩ := @Layered.offerAll _ _ _ _ none nothing orderly (by simp) rfl initial
  have expanded := (@offerAll_eq _ model empty none initial).1
  exact {
    layered := ⟨1, layered⟩
    distinct := nodup_seen_offerAll List.nodup_nil initial
    reached := forall_found_offerAll (by simp [empty, found])
      fun state member index => .start member
    starts := each
    closed := fun visit member => by
      rw [after, expanded] at member
      cases member }

/-- An expansion keeps what is known of the levels. -/
theorem Levelled.expand (levelled : search.Levelled model initial)
    (orderly : search.Orderly model) : (search.expand model).Levelled model initial := by
  by_cases ended : search.isOver = true
  · rwa [expand_of_isOver ended]
  · obtain ⟨going, visit, rest, queue⟩ := exists_queue_eq ended
    obtain ⟨deepest, layered⟩ := levelled.layered
    have same := append_queue_eq queue
    have grows := orderly.expand.2
    have starts := fun state member => (levelled.starts state member).mono grows
    -- What was expanded before stays closed, so only the state expanded now is to be looked at.
    have closed (expanded : (search.expand model).expanded = search.expanded ++ [visit])
        (each : ∀ states, model.successors visit.state = .ok states → ∀ state ∈ states,
          (search.expand model).Meets model (visit.level + 1) (model.fingerprint state)) :
        ∀ other ∈ (search.expand model).expanded, ∀ states,
          model.successors other.state = .ok states → ∀ state ∈ states,
            (search.expand model).Meets model (other.level + 1) (model.fingerprint state) := by
      rw [expanded]
      intro other member states computed state among
      rcases List.mem_append.mp member with old | new
      · exact (levelled.closed other old states computed state among).mono grows
      · obtain rfl := List.mem_singleton.mp new
        exact each states computed state among
    cases computed : model.successors visit.state with
    | error stop =>
      have next := expand_of_error going queue computed
      refine ⟨⟨_, layered.take queue ?_ ?_⟩, ?_, ?_, starts, closed ?_ (by simp [computed])⟩
      · rw [next]
        exact same
      · rw [next]
      · rw [next]
        exact levelled.distinct
      · rw [next]
        exact fun other member => levelled.reached other (same ▸ member)
      · rw [next]
    | ok states =>
      have next := expand_of_ok going queue computed
      let begun : Search σ :=
        { search with
          expanded := search.expanded ++ [visit]
          queue := rest
          degrees := search.degrees ++ [states.length] }
      have inside : ∀ origin, some visit = some origin → origin ∈ begun.found := by
        rintro origin ⟨rfl⟩
        simp [begun, found]
      have taken : begun.Layered (visit.level + 1) := layered.take queue same rfl
      obtain ⟨later, each⟩ := taken.offerAll (orderly.of_found same rfl) inside rfl states
      have path := levelled.reached visit (by simp [found, queue])
      rw [← next] at later each
      refine ⟨⟨_, later⟩, ?_, ?_, starts, closed ?_ ?_⟩
      · rw [next]
        exact @nodup_seen_offerAll _ _ begun _ levelled.distinct states
      · rw [next]
        apply forall_found_offerAll
        · exact fun other member => levelled.reached other (same ▸ member)
        · exact fun state member index => .step path computed member
      · rw [next]
        exact (offerAll_eq _ _ _).1
      · intro others same
        obtain rfl := Except.ok.inj (computed.symm.trans same)
        exact each

theorem levelled_after (model : Model σ) (initial : List σ) (expansions : Nat) :
    (after model initial expansions).Levelled model initial := by
  induction expansions with
  | zero => exact levelled_start model initial
  | succ expansions ih => exact ih.expand (orderly_after model initial expansions)

/-! ## Shortest paths -/

/-- States discovered with one fingerprint are the same discovery. -/
theorem Orderly.eq_of_fingerprint {visit other : Visit σ} (orderly : search.Orderly model)
    (distinct : search.seen.Nodup) (member : visit ∈ search.found) (among : other ∈ search.found)
    (same : model.fingerprint visit.state = model.fingerprint other.state) : visit = other := by
  rw [orderly.seen] at distinct
  exact List.inj_on_of_nodup_map distinct member among same

section

variable (levelled : search.Levelled model initial) (distinguishes : model.Distinguishes initial)

include levelled distinguishes

/-- A path leads to a state that was discovered no later than it is long, unless the queue holds a
state that lies higher than its end. -/
theorem Levelled.exists_of_reachableIn {length : Nat} {state : σ}
    (path : model.ReachableIn initial length state) :
    (∃ visit ∈ search.found, visit.state = state ∧ visit.level ≤ length) ∨
      ∃ visit ∈ search.queue, visit.level < length := by
  have own {length : Nat} {state : σ} (path : model.ReachableIn initial length state)
      (meets : search.Meets model length (model.fingerprint state)) :
      ∃ visit ∈ search.found, visit.state = state ∧ visit.level ≤ length := by
    obtain ⟨visit, member, same, high⟩ := meets
    have reachable := (levelled.reached visit member).reachable
    exact ⟨visit, member, distinguishes _ _ reachable path.reachable same, high⟩
  induction path with
  | start member => exact .inl (own (.start member) (levelled.starts _ member))
  | @step length state next states before computed member ih =>
    rcases ih with ⟨visit, among, rfl, high⟩ | ⟨visit, waits, high⟩
    · rcases List.mem_append.mp among with expanded | waits
      · left
        apply own (.step before computed member)
        obtain ⟨other, found, same, level⟩ :=
          levelled.closed visit expanded states computed next member
        exact ⟨other, found, same, by omega⟩
      · exact .inr ⟨visit, waits, by omega⟩
    · exact .inr ⟨visit, waits, by omega⟩

/-- A state is discovered at its depth. -/
theorem Levelled.isDepth (orderly : search.Orderly model) {visit : Visit σ}
    (member : visit ∈ search.found) : model.IsDepth initial visit.state visit.level where
  reached := levelled.reached visit member
  least length path := by
    obtain ⟨deepest, layered⟩ := levelled.layered
    rcases levelled.exists_of_reachableIn distinguishes path with
      ⟨other, among, same, high⟩ | ⟨waiting, waits, high⟩
    · obtain rfl := orderly.eq_of_fingerprint levelled.distinct among member (by rw [same])
      exact high
    · have shallow := layered.shallow visit member
      have near := layered.near waiting waits
      omega

/-- When the queue is empty, every state that can be reached was discovered. -/
theorem Levelled.exists_of_reachable (empty : search.queue = []) {state : σ}
    (reachable : model.Reachable initial state) : ∃ visit ∈ search.found, visit.state = state := by
  obtain ⟨length, path⟩ := reachable.exists_reachableIn
  rcases levelled.exists_of_reachableIn distinguishes path with
    ⟨visit, member, same, -⟩ | ⟨visit, waits, -⟩
  · exact ⟨visit, member, same⟩
  · rw [empty] at waits
    cases waits

end

/-- The depth of a search is the greatest level of the states discovered, and zero if there are
none. -/
theorem depth_spec (search : Search σ) :
    search.depth ∈ 0 :: search.found.map Visit.level ∧
      ∀ level ∈ 0 :: search.found.map Visit.level, level ≤ search.depth :=
  List.max?_eq_some_iff.mp (List.max?_cons' ..)

/-- No state discovered lies deeper than the search. -/
theorem level_le_depth {visit : Visit σ} (member : visit ∈ search.found) :
    visit.level ≤ search.depth :=
  search.depth_spec.2 _ (List.mem_cons_of_mem _ (List.mem_map_of_mem member))

end Search

end BreadthFirst

end Wavefront
