/-
# What the workers of a pool count

Every worker counts for itself: the successors it has computed, how many there were each
time, and how deep the nodes lie that it recorded. Taken together, the counts say the same
of the nodes that were expanded and recorded, as long as nothing hinders the exploration:
no page is refused, no level is the greatest there is, and no counter is full.
-/

import Wavefront.Proofs.Histogram
import Wavefront.Proofs.Pool.Books

namespace Wavefront

open History

variable {σ : Type}

/-! ## Successors -/

/-- The number of successors of a state, if they can be computed. -/
def Model.outDegree? (model : Model σ) (state : σ) : Option Nat :=
  match model.successors state with
  | .ok states => some states.length
  | .error _ => none

/-- The numbers of successors of those of some nodes that have any. -/
def Model.tally (model : Model σ) (nodes : List (Node σ)) : List Nat :=
  nodes.filterMap fun node => model.outDegree? node.state

section

variable {model : Model σ} {node : Node σ} {states : List σ} {stop : Stop}

@[simp]
theorem Model.tally_append (model : Model σ) (first second : List (Node σ)) :
    model.tally (first ++ second) = model.tally first ++ model.tally second :=
  List.filterMap_append

theorem Model.tally_of_ok (computed : model.successors node.state = .ok states) :
    model.tally [node] = [states.length] := by
  simp [tally, outDegree?, computed]

theorem Model.tally_of_error (failed : model.successors node.state = .error stop) :
    model.tally [node] = [] := by
  simp [tally, outDegree?, failed]

/-- States that all have successors are all counted. -/
theorem Model.length_tally_eq {nodes : List (Node σ)}
    (each : ∀ node ∈ nodes, ∃ states, model.successors node.state = .ok states) :
    (model.tally nodes).length = nodes.length := by
  induction nodes with
  | nil => rfl
  | cons first rest ih =>
    obtain ⟨states, computed⟩ := each first List.mem_cons_self
    have later := ih fun node member => each node (List.mem_cons_of_mem _ member)
    have split : model.tally (first :: rest) = model.tally [first] ++ model.tally rest :=
      model.tally_append [first] rest
    rw [split, tally_of_ok computed, List.length_append, later, List.length_cons]
    exact Nat.add_comm 1 rest.length

theorem Model.length_tally_le (model : Model σ) (nodes : List (Node σ)) :
    (model.tally nodes).length ≤ nodes.length :=
  List.length_filterMap_le _ _

end

namespace Worker

variable {model : Model σ} {worker next : Worker σ} {shared after : Shared σ} {events : History σ}
  {page : Page σ} {node child : Node σ} {rest : List σ}

theorem Stowed.counts_eq (stowed : Stowed worker page node child rest next) :
    next.generated = worker.generated ∧ next.outDegree = worker.outDegree ∧
      next.maxLevel = worker.maxLevel := by
  cases stowed <;> exact ⟨rfl, rfl, rfl⟩

theorem proceed_counts_eq (worker : Worker σ) (accessed : Accessed σ) :
    (worker.proceed accessed).generated = worker.generated ∧
      (worker.proceed accessed).outDegree = worker.outDegree ∧
      (worker.proceed accessed).maxLevel = worker.maxLevel := by
  rcases accessed with ⟨progress, held, frontier, disk⟩
  cases progress <;> exact ⟨rfl, rfl, rfl⟩

/-- A worker that expands a node counts its successors, unless it has counted too often. -/
theorem Turn.tally (turn : Turn model worker shared next after events) :
    ∃ fresh, after.expanded = fresh ++ shared.expanded ∧
      next.generated = worker.generated + (model.tally fresh).sum ∧
      (worker.outDegree.Consistent →
        model.tally fresh ≠ [] ∧ Histogram.counterMax ≤ worker.outDegree.observations ∨
        next.outDegree.Consistent ∧ next.outDegree.observations =
          worker.outDegree.observations + (model.tally fresh).length) := by
  have quiet {next : Worker σ} (same : next.generated = worker.generated)
      (alike : next.outDegree = worker.outDegree) :
      ∃ fresh, shared.expanded = fresh ++ shared.expanded ∧
        next.generated = worker.generated + (model.tally fresh).sum ∧
        (worker.outDegree.Consistent →
          model.tally fresh ≠ [] ∧ Histogram.counterMax ≤ worker.outDegree.observations ∨
          next.outDegree.Consistent ∧ next.outDegree.observations =
            worker.outDegree.observations + (model.tally fresh).length) :=
    ⟨[], rfl, same, fun consistent => .inr (by rw [alike]; exact ⟨consistent, rfl⟩)⟩
  cases turn with
  | rests | heeds | idles | picks | concludes | meets | skips | sinks | publishes | strands
    | flushes | reports | latches | unwinds => exact quiet rfl rfl
  | accesses => exact quiet (proceed_counts_eq _ _).1 (proceed_counts_eq _ _).2.1
  | records stage room placed =>
    cases placed with
    | keeps | seeks => exact quiet rfl rfl
    | stows holding stowed => exact quiet stowed.counts_eq.1 stowed.counts_eq.2.1
  | claims stage stowed => exact quiet stowed.counts_eq.1 stowed.counts_eq.2.1
  | fails stage failed =>
    refine ⟨[_], rfl, ?_, fun consistent => .inr ⟨consistent, ?_⟩⟩
    · simp [Model.tally_of_error failed]
    · simp [Model.tally_of_error failed]
  | overflows stage computed counted =>
    refine ⟨[_], rfl, ?_, fun consistent => .inl ⟨by simp [Model.tally_of_ok computed], ?_⟩⟩
    · simp [Model.tally_of_ok computed]
    · exact Histogram.counterMax_le_of_add_eq_error consistent counted
  | expands stage computed counted =>
    refine ⟨[_], rfl, ?_, fun consistent => .inr ?_⟩
    · simp [Model.tally_of_ok computed]
    · rw [Model.tally_of_ok computed]
      exact Histogram.add_eq_ok consistent counted

/-- A worker that records a node takes note of its level. -/
theorem Turn.maxLevel (turn : Turn model worker shared next after events) :
    next.maxLevel = worker.maxLevel ∧ History.nodes events = [] ∨
      ∃ node, History.nodes events = [node] ∧ next.maxLevel = max worker.maxLevel node.level := by
  cases turn with
  | records stage room placed =>
    refine .inr ⟨_, rfl, ?_⟩
    cases placed with
    | keeps | seeks => rfl
    | stows holding stowed => exact stowed.counts_eq.2.2
  | claims stage stowed => exact .inl ⟨stowed.counts_eq.2.2, rfl⟩
  | accesses stage turn =>
    refine .inl ⟨(proceed_counts_eq _ _).2.2, ?_⟩
    cases turn <;> rfl
  | rests | heeds | idles | picks | fails | overflows | expands | concludes | meets | skips | sinks
    | publishes | strands | flushes | reports | latches | unwinds => exact .inl ⟨rfl, rfl⟩

end Worker

/-! ## Pools -/

/-- The larger of two levels is one of them, and neither exceeds it. -/
theorem max_level (first second : UInt32) :
    first ≤ max first second ∧ second ≤ max first second ∧
      (max first second = first ∨ max first second = second) := by
  show first ≤ (if first ≤ second then second else first) ∧
    second ≤ (if first ≤ second then second else first) ∧
      ((if first ≤ second then second else first) = first ∨
        (if first ≤ second then second else first) = second)
  split
  · rename_i less
    exact ⟨less, UInt32.le_refl _, .inr rfl⟩
  · rename_i more
    exact ⟨UInt32.le_refl _, UInt32.le_of_lt (UInt32.not_le.mp more), .inl rfl⟩

/-- The larger of two levels is that of the larger of two numbers. -/
theorem ofNat_max {first second : Nat} (small : first < 2 ^ 32) (low : second < 2 ^ 32) :
    UInt32.ofNat (max first second) = max (UInt32.ofNat first) (UInt32.ofNat second) := by
  have compare : UInt32.ofNat first ≤ UInt32.ofNat second ↔ first ≤ second :=
    UInt32.ofNat_le_iff_le small low
  show _ = if UInt32.ofNat first ≤ UInt32.ofNat second then _ else _
  by_cases less : first ≤ second
  · rw [if_pos (compare.mpr less), Nat.max_eq_right less]
  · rw [if_neg (mt compare.mp less), Nat.max_eq_left (Nat.le_of_not_le less)]

namespace Pool

variable {model : Model σ} {past events : History σ} {pool : Pool σ} {position : Nat}
  {worker next : Worker σ} {shared : Shared σ}

/-- Something other than the model stands in the way of the exploration: a page could not be kept,
a node lies as deep as can be said, or more nodes were expanded than can be counted. -/
def Hindered (past : History σ) (pool : Pool σ) : Prop :=
  refused past ≠ [] ∨ (∃ node ∈ History.nodes past, node.level = Worker.levelMax) ∨
    Histogram.counterMax < pool.shared.expanded.length

/-- What hinders an exploration does not go away. -/
theorem Hindered.step (turn : worker.Turn model pool.shared next shared events)
    (hindered : Hindered past pool) :
    Hindered (past ++ events) ⟨pool.workers.set position next, shared⟩ := by
  rcases hindered with refused | ⟨node, member, deep⟩ | many
  · exact .inl (by simp [refused])
  · exact .inr (.inl ⟨node, by simp [member], deep⟩)
  · obtain ⟨fresh, grown, -⟩ := turn.tally
    refine .inr (.inr ?_)
    show _ < shared.expanded.length
    rw [grown, List.length_append]
    omega

/-- A limit of the numbers that levels and samples are kept in has been reached: a node lies as deep
as can be said, or there are more samples than can be counted. -/
def Limited (model : Model σ) (past : History σ) (pool : Pool σ) : Prop :=
  (∃ node ∈ History.nodes past, node.level = Worker.levelMax) ∨
    Histogram.counterMax < (model.tally pool.shared.expanded).length

theorem Limited.hindered (limited : Limited model past pool) : Hindered past pool := by
  rcases limited with deep | many
  · exact .inr (.inl deep)
  · exact .inr (.inr (many.trans_le (model.length_tally_le _)))

/-- A limit that was reached stays reached. -/
theorem Limited.step (turn : worker.Turn model pool.shared next shared events)
    (limited : Limited model past pool) :
    Limited model (past ++ events) ⟨pool.workers.set position next, shared⟩ := by
  rcases limited with ⟨node, member, deep⟩ | many
  · exact .inl ⟨node, by simp [member], deep⟩
  · obtain ⟨fresh, grown, -⟩ := turn.tally
    refine .inr ?_
    show _ < (model.tally shared.expanded).length
    rw [grown, Model.tally_append, List.length_append]
    omega

/-- The workers have counted the nodes that were expanded. -/
structure Tallied (model : Model σ) (pool : Pool σ) : Prop where
  generated : (pool.workers.map (·.generated)).sum = (model.tally pool.shared.expanded).sum
  observed : Histogram.counterMax < (model.tally pool.shared.expanded).length ∨
    (∀ worker ∈ pool.workers, worker.outDegree.Consistent) ∧
      (pool.workers.map (·.outDegree.observations)).sum = (model.tally pool.shared.expanded).length

theorem Tallied.step (found : pool.workers[position]? = some worker)
    (turn : worker.Turn model pool.shared next shared events) (tallied : Tallied model pool) :
    Tallied model ⟨pool.workers.set position next, shared⟩ := by
  obtain ⟨fresh, grown, generated, observes⟩ := turn.tally
  have more : (model.tally shared.expanded).length =
      (model.tally fresh).length + (model.tally pool.shared.expanded).length := by
    rw [grown, Model.tally_append, List.length_append]
  constructor
  · have before := tallied.generated
    rw [sum_map_others (·.generated) found] at before
    rw [sum_map_set_others (·.generated) found, generated, grown, Model.tally_append,
      List.sum_append, ← before]
    omega
  · rcases tallied.observed with many | ⟨consistent, observed⟩
    · refine .inl ?_
      show _ < (model.tally shared.expanded).length
      omega
    rw [sum_map_others (·.outDegree.observations) found] at observed
    rcases observes (consistent worker (List.mem_of_getElem? found)) with
      ⟨some, full⟩ | ⟨alike, counted⟩
    · -- A full counter has counted fewer nodes than were expanded.
      have one := List.length_pos_iff.mpr some
      refine .inl ?_
      show _ < (model.tally shared.expanded).length
      omega
    · refine .inr ⟨forall_mem_set consistent alike, ?_⟩
      rw [sum_map_set_others (·.outDegree.observations) found, counted]
      show _ = (model.tally shared.expanded).length
      omega

/-- When a worker cannot count the successors of a node, there are too many samples. -/
theorem Tallied.lt_of_overflow (tallied : Tallied model pool)
    (found : pool.workers[position]? = some worker) {node : Node σ} {states : List σ}
    {fault : Fault}
    {degrees : Histogram} (computed : model.successors node.state = .ok states)
    (counted : worker.outDegree.add states.length = (.error fault, degrees)) :
    Histogram.counterMax < (model.tally (node :: pool.shared.expanded)).length := by
  have split : model.tally (node :: pool.shared.expanded) =
      model.tally [node] ++ model.tally pool.shared.expanded := model.tally_append [node] _
  rw [split, Model.tally_of_ok computed, List.length_append, List.length_singleton]
  rcases tallied.observed with many | ⟨consistent, observed⟩
  · omega
  · have full := Histogram.counterMax_le_of_add_eq_error
      (consistent worker (List.mem_of_getElem? found)) counted
    rw [sum_map_others (·.outDegree.observations) found] at observed
    omega

/-- The deepest level that a worker has noted is the deepest level there is. -/
structure Sounded (past : History σ) (pool : Pool σ) : Prop where
  bound : ∀ node ∈ History.nodes past, ∃ worker ∈ pool.workers, node.level ≤ worker.maxLevel
  reached : ∀ worker ∈ pool.workers, worker.maxLevel = 0 ∨
    ∃ node ∈ History.nodes past, node.level = worker.maxLevel

/-- A worker that takes note of the levels of what it records keeps the deepest level right. -/
theorem Sounded.set {recorded : List (Node σ)} (found : pool.workers[position]? = some worker)
    (notes : next.maxLevel = worker.maxLevel ∧ recorded = [] ∨
      ∃ node, recorded = [node] ∧ next.maxLevel = max worker.maxLevel node.level)
    (grown : History.nodes (past ++ events) = History.nodes past ++ recorded)
    (sounded : Sounded past pool) :
    Sounded (past ++ events) ⟨pool.workers.set position next, shared⟩ := by
  have here : next ∈ pool.workers.set position next := mem_set_self found
  have higher : worker.maxLevel ≤ next.maxLevel := by
    rcases notes with ⟨same, -⟩ | ⟨node, -, more⟩
    · rw [same]
      exact UInt32.le_refl _
    · rw [more]
      exact (max_level _ _).1
  constructor
  · intro node member
    rw [grown] at member
    rcases List.mem_append.mp member with old | new
    · obtain ⟨other, among, less⟩ := sounded.bound node old
      rcases mem_set_of_mem found among with rfl | still
      · exact ⟨next, here, UInt32.le_trans less higher⟩
      · exact ⟨other, still, less⟩
    · rcases notes with ⟨-, none⟩ | ⟨deep, one, more⟩
      · simp [none] at new
      · rw [one, List.mem_singleton] at new
        rw [new]
        exact ⟨next, here, more ▸ (max_level _ _).2.1⟩
  · intro other among
    rw [grown]
    rcases mem_of_mem_set among with rfl | old
    · rcases notes with ⟨same, none⟩ | ⟨deep, one, more⟩
      · rw [same, none, List.append_nil]
        exact sounded.reached worker (List.mem_of_getElem? found)
      · rcases (max_level worker.maxLevel deep.level).2.2 with old | new
        · rw [more, old]
          rcases sounded.reached worker (List.mem_of_getElem? found) with none | ⟨node, there, same⟩
          · exact .inl none
          · exact .inr ⟨node, by simp [there], same⟩
        · exact .inr ⟨deep, by simp [one], by rw [more, new]⟩
    · rcases sounded.reached other old with none | ⟨node, there, same⟩
      · exact .inl none
      · exact .inr ⟨node, by simp [there], same⟩

theorem Sounded.step (found : pool.workers[position]? = some worker)
    (turn : worker.Turn model pool.shared next shared events) (sounded : Sounded past pool) :
    Sounded (past ++ events) ⟨pool.workers.set position next, shared⟩ :=
  sounded.set found turn.maxLevel (nodes_append _ _)

end Pool

end Wavefront
