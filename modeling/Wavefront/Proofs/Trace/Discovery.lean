/-
# From records back to states

The nodes of a run are recorded one after another, each with the node that it was reached
from. `Recorded` says what is known of such a sequence: initial nodes have level 1, any
other is one level below a node that was recorded before, and the state of each is the
first with its fingerprint among the states that it was found in.

The last point is what makes replaying work. A trace keeps fingerprints only, and many
states may share one; but the engine records a state only if no state before it in the
list has its fingerprint, and replaying takes the first state with the fingerprint wanted.
So a replay meets the very states that were recorded, on the route by which each of
them was reached.
-/

import Mathlib.Data.List.Chain
import Wavefront.Proofs.Trace.Logs
import Wavefront.Trace.Replay
import Wavefront.Worker.Basic

namespace Wavefront

variable {σ : Type} {model : Model σ} {initial : List σ}

/-- A state is initial, or one of the successors of a state that can be reached. -/
inductive Model.Reachable (model : Model σ) (initial : List σ) : σ → Prop where
  | start {state : σ} (member : state ∈ initial) : Reachable model initial state
  | step {state next : σ} {states : List σ} (before : Reachable model initial state)
      (computed : model.successors state = .ok states) (member : next ∈ states) :
      Reachable model initial next

/-- A list with the initial states and the successors of its members has every reachable state. -/
theorem Model.Reachable.mem_of_closed {known : List σ} {state : σ}
    (reachable : model.Reachable initial state) (starts : initial ⊆ known)
    (closed : ∀ state ∈ known, ∀ states, model.successors state = .ok states → states ⊆ known) :
    state ∈ known := by
  induction reachable with
  | start member => exact starts member
  | step before computed member ih => exact closed _ ih _ computed member

/-- A node that was recorded, and the node that it was reached from if it is not an initial one. -/
abbrev Finding (σ : Type) := Option (Node σ) × Node σ

namespace Trace

variable {items more : List (Finding σ)} {item : Finding σ} {path : List (Node σ)}
  {parent node : Node σ}

/-- The findings of one worker. -/
def findingsOf (items : List (Finding σ)) (worker : UInt16) : List (Finding σ) :=
  items.filter (·.2.uid.worker == worker)

/-- The record of a finding. -/
def recordOf (model : Model σ) : Finding σ → Record
  | (none, node) => .initial node.uid.worker (model.fingerprint node.state)
  | (some parent, node) => ⟨parent.uid, model.fingerprint node.state⟩

theorem fingerprint_recordOf (model : Model σ) (item : Finding σ) :
    (recordOf model item).fingerprint = model.fingerprint item.2.state := by
  rcases item with ⟨_ | parent, node⟩ <;> rfl

/-- The records in the log of a worker. -/
def recordsOf (model : Model σ) (items : List (Finding σ)) (worker : UInt16) : List Record :=
  (findingsOf items worker).map (recordOf model)

theorem findingsOf_append (items more : List (Finding σ)) (worker : UInt16) :
    findingsOf (items ++ more) worker = findingsOf items worker ++ findingsOf more worker :=
  List.filter_append ..

/-- What the rules say of one finding: an initial node has level 1, any other is one level below
the node it was reached from, and each has the first state of its fingerprint there is. -/
inductive Founded (model : Model σ) (initial : List σ) : Finding σ → Prop where
  | seed {node : Node σ} (level : node.level = 1)
      (first : initial.find? (model.fingerprint · == model.fingerprint node.state) =
        some node.state) : Founded model initial (none, node)
  | step {parent node : Node σ} {states : List σ} (level : node.level = parent.level + 1)
      (room : parent.level ≠ Worker.levelMax)
      (computed : model.successors parent.state = .ok states)
      (first : states.find? (model.fingerprint · == model.fingerprint node.state) =
        some node.state) : Founded model initial (some parent, node)

/-- Nodes recorded one after another, each by the rules, reached from one recorded before, and
with a reference to the place after all records of its worker. -/
inductive Recorded (model : Model σ) (initial : List σ) : List (Finding σ) → Prop where
  | none : Recorded model initial []
  | snoc {items : List (Finding σ)} {item : Finding σ} (before : Recorded model initial items)
      (founded : Founded model initial item)
      (known : ∀ parent, item.1 = some parent → parent ∈ items.map (·.2))
      (offset : item.2.uid.offset =
        UInt64.ofNat (Record.width * (findingsOf items item.2.uid.worker).length)) :
      Recorded model initial (items ++ [item])

namespace Recorded

theorem founded (recorded : Recorded model initial items) :
    ∀ item ∈ items, Founded model initial item := by
  induction recorded with
  | none => simp
  | snoc before founded known offset ih =>
    intro item member
    rcases List.mem_append.mp member with old | new
    · exact ih item old
    · obtain rfl := List.mem_singleton.mp new
      exact founded

/-- Only states that can be reached are recorded. -/
theorem reachable (recorded : Recorded model initial items) :
    ∀ item ∈ items, model.Reachable initial item.2.state := by
  induction recorded with
  | none => simp
  | snoc before founded known offset ih =>
    intro item member
    rcases List.mem_append.mp member with old | new
    · exact ih item old
    · obtain rfl := List.mem_singleton.mp new
      cases founded with
      | seed level first => exact .start (List.mem_of_find?_eq_some first)
      | step level room computed first =>
        obtain ⟨origin, there, rfl⟩ := List.mem_map.mp (known _ rfl)
        exact .step (ih origin there) computed (List.mem_of_find?_eq_some first)

/-- The reference of a node says where in the log of its worker its record is. -/
theorem exists_index (recorded : Recorded model initial items) :
    ∀ item ∈ items, ∃ index, (findingsOf items item.2.uid.worker)[index]? = some item ∧
      item.2.uid.offset = UInt64.ofNat (Record.width * index) := by
  induction recorded with
  | none => simp
  | snoc before founded known offset ih =>
    intro item member
    rw [findingsOf_append]
    rcases List.mem_append.mp member with old | new
    · obtain ⟨index, found, there⟩ := ih item old
      have within := (List.getElem?_eq_some_iff.mp found).1
      exact ⟨index, by rw [List.getElem?_append_left within]; exact found, there⟩
    · obtain rfl := List.mem_singleton.mp new
      refine ⟨_, ?_, offset⟩
      rw [List.getElem?_append_right (Nat.le_refl _)]
      simp [findingsOf]

end Recorded

/-! ## Routes -/

/-- The nodes from an initial one to a given one, each reached from the one before. -/
inductive Route (items : List (Finding σ)) : List (Node σ) → Node σ → Prop where
  | seed {node : Node σ} (member : (none, node) ∈ items) : Route items [node] node
  | step {path : List (Node σ)} {parent node : Node σ} (before : Route items path parent)
      (member : (some parent, node) ∈ items) : Route items (path ++ [node]) node

namespace Route

theorem mono (route : Route items path node) (within : items ⊆ more) : Route more path node := by
  induction route with
  | seed member => exact .seed (within member)
  | step before member ih => exact .step ih (within member)

theorem getLast? (route : Route items path node) : path.getLast? = some node := by
  cases route <;> simp

end Route

/-- A route leads to every node recorded, and is no longer than the record. -/
theorem Recorded.exists_route (recorded : Recorded model initial items) :
    ∀ item ∈ items, ∃ path, Route items path item.2 ∧ path.length ≤ items.length := by
  induction recorded with
  | none => simp
  | @snoc items added before founded known offset ih =>
    have wider : items ⊆ items ++ [added] := List.subset_append_left _ _
    intro item member
    rw [List.length_append, List.length_singleton]
    rcases List.mem_append.mp member with old | new
    · obtain ⟨path, route, short⟩ := ih item old
      exact ⟨path, route.mono wider, by omega⟩
    · obtain rfl := List.mem_singleton.mp new
      cases founded with
      | seed level first => exact ⟨_, .seed member, by simp⟩
      | step level room computed first =>
        obtain ⟨origin, there, rfl⟩ := List.mem_map.mp (known _ rfl)
        obtain ⟨path, route, short⟩ := ih origin there
        refine ⟨_, .step (route.mono wider) member, ?_⟩
        rw [List.length_append, List.length_singleton]
        omega

section

variable (founded : ∀ item ∈ items, Founded model initial item)

include founded

/-- The level of a node is the length of the route that leads to it. -/
theorem Route.length_eq (route : Route items path node) : path.length = node.level.toNat := by
  induction route with
  | seed member =>
    cases founded _ member with
    | seed level first => simp [level]
  | @step path parent node before member ih =>
    cases founded _ member with
    | step level room computed first =>
      have below : parent.level.toNat ≠ 2 ^ 32 - 1 := fun same =>
        room (UInt32.toNat_inj.mp same)
      have limit := parent.level.toNat_lt
      rw [List.length_append, List.length_singleton, ih, level, UInt32.toNat_add]
      simp only [UInt32.toNat_one]
      omega

omit founded in
/-- No node lies deeper than there are nodes. -/
theorem Recorded.level_le (recorded : Recorded model initial items) :
    ∀ item ∈ items, item.2.level.toNat ≤ items.length := by
  intro item member
  obtain ⟨path, route, short⟩ := recorded.exists_route item member
  exact (route.length_eq recorded.founded).symm.trans_le short

/-- A route begins with an initial state, and every other state on it is a successor of the one
before. -/
theorem Route.states (route : Route items path node) :
    (∃ start ∈ initial, (path.map Node.state).head? = some start) ∧
      (path.map Node.state).IsChain fun state next =>
        ∃ states, model.successors state = .ok states ∧ next ∈ states := by
  induction route with
  | seed member =>
    cases founded _ member with
    | seed level first =>
      exact ⟨⟨_, List.mem_of_find?_eq_some first, rfl⟩, List.isChain_singleton _⟩
  | @step path parent node before member ih =>
    obtain ⟨⟨start, inside, head⟩, chain⟩ := ih
    cases founded _ member with
    | step level room computed first =>
      rw [List.map_append]
      refine ⟨⟨start, inside, ?_⟩, List.isChain_append.mpr ⟨chain, List.isChain_singleton _, ?_⟩⟩
      · rw [List.head?_append, head, Option.some_or]
      · intro last isLast next isNext
        have same : last = parent.state := by simpa [before.getLast?, eq_comm] using isLast
        have alike : next = node.state := by simpa [eq_comm] using isNext
        subst same
        subst alike
        exact ⟨_, computed, List.mem_of_find?_eq_some first⟩

/-! ## Replaying -/

omit founded

/-- Following one step more goes on from the last state. -/
theorem follow_append {step : Nat} {state last next : σ} {wanted : Fingerprint}
    {fingerprints : List Fingerprint} {states successors : List σ}
    (followed : follow model step state fingerprints = .ok states)
    (isLast : (state :: states).getLast? = some last)
    (computed : model.successors last = .ok successors)
    (first : successors.find? (model.fingerprint · == wanted) = some next) :
    follow model step state (fingerprints ++ [wanted]) = .ok (states ++ [next]) := by
  induction fingerprints generalizing step state states with
  | nil =>
    obtain rfl : [] = states := by simpa [follow] using followed
    obtain rfl : state = last := by simpa using isLast
    simp [follow, computed, first]
  | cons earlier rest ih =>
    rw [follow] at followed
    rw [List.cons_append, follow]
    cases here : model.successors state with
    | error stop => simp [here] at followed
    | ok among =>
      simp only [here] at followed ⊢
      cases found : among.find? (model.fingerprint · == earlier) with
      | none => simp [found] at followed
      | some middle =>
        simp only [found] at followed ⊢
        cases later : follow model (step + 1) middle rest with
        | error stop => simp [later] at followed
        | ok beyond =>
          simp only [later, Except.ok.injEq] at followed
          subst followed
          rw [List.getLast?_cons_cons] at isLast
          rw [ih later isLast]
          rfl

include founded

/-- Replaying the fingerprints along a route meets the states along the route. -/
theorem Route.replay (route : Route items path node) :
    Trace.replay model initial (path.map fun node => model.fingerprint node.state) =
      .ok (path.map Node.state) := by
  induction route with
  | seed member =>
    cases founded _ member with
    | seed level first => simp [Trace.replay, first, follow]
  | @step path parent node before member ih =>
    cases founded _ member with
    | step level room computed first =>
      cases path with
      | nil => simpa using before.getLast?
      | cons start rest =>
        simp only [List.map_cons, List.map_append, List.map_nil, List.cons_append] at ih ⊢
        rw [Trace.replay] at ih ⊢
        cases begun : initial.find? (model.fingerprint · == model.fingerprint start.state) with
        | none => simp [begun] at ih
        | some origin =>
          simp only [begun] at ih ⊢
          cases followed : follow model 1 origin
            (rest.map fun node => model.fingerprint node.state) with
          | error stop => simp [followed] at ih
          | ok states =>
            simp only [followed, Except.ok.injEq, List.cons.injEq] at ih
            obtain ⟨rfl, rfl⟩ := ih
            have isLast : (start.state :: rest.map Node.state).getLast? = some parent.state := by
              rw [← List.map_cons, List.getLast?_map, before.getLast?, Option.map_some]
            rw [follow_append followed isLast computed first]

end

/-! ## Climbing -/

/-- Climbing from a node collects the fingerprints along the route that leads to it. -/
theorem Route.climb {target : Uid} {room : Nat} {below : List Fingerprint} {forest : Forest}
    {disk : Disk} (route : Route items path node) (recorded : Recorded model initial items)
    (known : ∀ item ∈ items, item.2.uid.worker ∈ forest.logs.map Log.worker)
    (small : ∀ worker, Record.width * (findingsOf items worker).length < 2 ^ 64)
    (hold : Log.Hold forest.logs disk (recordsOf model items)) (enough : path.length ≤ room) :
    (Forest.climb target room node.uid below forest disk).1 =
      .ok (path.map (fun node => model.fingerprint node.state) ++ below) := by
  have read {forest : Forest} {disk : Disk} {item : Finding σ} (member : item ∈ items)
      (known : ∀ item ∈ items, item.2.uid.worker ∈ forest.logs.map Log.worker)
      (hold : Log.Hold forest.logs disk (recordsOf model items)) :
      ∃ later final, forest.read item.2.uid disk = (.ok (recordOf model item), later, final) ∧
        Log.Hold later.logs final (recordsOf model items) ∧
          later.logs.map Log.worker = forest.logs.map Log.worker := by
    obtain ⟨index, found, offset⟩ := recorded.exists_index item member
    have within := (List.getElem?_eq_some_iff.mp found).1
    refine hold.read (known item member) ?_ offset ?_
    · rw [recordsOf, List.getElem?_map, found, Option.map_some]
    · have bound := small item.2.uid.worker
      have more : Record.width * index <
          Record.width * (findingsOf items item.2.uid.worker).length :=
        Nat.mul_lt_mul_of_pos_left within (by decide)
      omega
  have offset_ne {item : Finding σ} (member : item ∈ items) :
      item.2.uid.offset ≠ Record.nowhere := by
    obtain ⟨index, found, offset⟩ := recorded.exists_index item member
    have within := (List.getElem?_eq_some_iff.mp found).1
    have bound := small item.2.uid.worker
    have more : Record.width * (index + 1) ≤
        Record.width * (findingsOf items item.2.uid.worker).length :=
      Nat.mul_le_mul_left _ within
    have width : Record.width = 18 := rfl
    rw [Nat.mul_succ, width] at more
    rw [width] at bound offset
    intro same
    have values := congrArg UInt64.toNat (offset.symm.trans same)
    rw [UInt64.toNat_ofNat', Nat.mod_eq_of_lt (by omega)] at values
    have top : Record.nowhere.toNat = 2 ^ 64 - 1 := rfl
    omega
  induction route generalizing room below forest disk with
  | @seed node member =>
    cases room with
    | zero => simp at enough
    | succ room =>
      obtain ⟨later, final, gives, -, -⟩ := read member known hold
      have origin : (recordOf model (none, node)).predecessor? = none := rfl
      rw [Forest.climb, gives]
      simp only [origin]
      rfl
  | @step path parent node before member ih =>
    cases room with
    | zero => simp at enough
    | succ room =>
      obtain ⟨later, final, gives, hold', same⟩ := read member known hold
      obtain ⟨grand, there⟩ : ∃ grand, (grand, parent) ∈ items := by
        cases before with
        | seed member => exact ⟨_, member⟩
        | step before member => exact ⟨_, member⟩
      have origin : (recordOf model (some parent, node)).predecessor? = some parent.uid := by
        have real : parent.uid.offset ≠ Record.nowhere := offset_ne there
        simp [recordOf, Record.predecessor?, real]
      rw [Forest.climb, gives]
      simp only [origin]
      rw [List.length_append, List.length_singleton] at enough
      have up := @ih room (model.fingerprint node.state :: below) later final
        (same ▸ known) hold' (by omega)
      rw [List.map_append, List.append_assoc]
      exact up

end Trace

end Wavefront
