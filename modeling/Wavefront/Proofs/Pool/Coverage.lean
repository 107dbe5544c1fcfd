/-
# Nothing is overlooked

The fingerprints met so far are those of the nodes recorded, and of the states that
workers are about to record, each of them once. And every successor of a node that was
expanded has been met, or is among the successors that a worker has yet to look at, or else
the exploration is in trouble: an error has been reported or is going to be.

Together these say that, once all workers have gone through their successors without
trouble, the nodes recorded are closed under successors.
-/

import Wavefront.Proofs.Pool.Blame

namespace Wavefront

open History

variable {σ : Type}

/-! ## Fingerprints met -/

namespace Seen

variable {seen : Seen} {prints more : List Fingerprint} {fingerprint : Fingerprint}

/-- The fingerprints met are those of a list, which has each of them once. -/
structure Lists (seen : Seen) (prints : List Fingerprint) : Prop where
  nodup : prints.Nodup
  size : seen.size = prints.length
  contains : ∀ fingerprint, seen.contains fingerprint = true ↔ fingerprint ∈ prints

theorem lists_empty : empty.Lists [] :=
  ⟨.nil, rfl, by simp⟩

/-- There is a list of the fingerprints met. -/
theorem exists_lists (seen : Seen) : ∃ prints, seen.Lists prints := by
  refine ⟨seen.fingerprints.toList, ?_, Std.ExtTreeSet.length_toList.symm,
    fun _ => Std.ExtTreeSet.mem_toList.symm⟩
  refine (Std.ExtTreeSet.distinct_toList (t := seen.fingerprints)).imp ?_
  rintro first second apart rfl
  exact apart Std.ReflCmp.compare_self

namespace Lists

theorem perm (lists : seen.Lists prints) (same : prints.Perm more) : seen.Lists more :=
  ⟨same.nodup_iff.mp lists.nodup, lists.size.trans same.length_eq,
    fun fingerprint => (lists.contains fingerprint).trans same.mem_iff⟩

/-- Meeting a known fingerprint changes nothing. -/
theorem insert_of_contains (lists : seen.Lists prints) (known : seen.contains fingerprint = true) :
    (seen.insert fingerprint).Lists prints := by
  refine ⟨lists.nodup, ?_, fun other => ?_⟩
  · rw [size_insert, if_pos known, lists.size]
  · rw [← lists.contains, contains_insert, Bool.or_eq_true, beq_iff_eq]
    constructor
    · rintro (rfl | old)
      · exact known
      · exact old
    · exact .inr

/-- Meeting a new fingerprint adds it. -/
theorem insert (lists : seen.Lists prints) (new : seen.contains fingerprint = false) :
    (seen.insert fingerprint).Lists (fingerprint :: prints) := by
  refine ⟨List.nodup_cons.mpr ⟨fun old => ?_, lists.nodup⟩, ?_, fun other => ?_⟩
  · rw [← lists.contains, new] at old
    cases old
  · rw [size_insert, new, lists.size]
    rfl
  · rw [contains_insert, Bool.or_eq_true, beq_iff_eq, lists.contains, List.mem_cons, eq_comm]

end Lists

end Seen

/-! ## Workers -/

namespace Stage

/-- The state that a worker has met and is about to record. -/
def met : Stage σ → List σ
  | recording _ state _ => [state]
  | _ => []

/-- The successors that a worker has yet to look at. -/
def remaining : Stage σ → List σ
  | sifting _ rest => rest
  | recording _ _ rest => rest
  | claiming _ _ rest => rest
  | publishing _ _ rest => rest
  | _ => []

/-- Whether a worker is about to report an error, or breaks down. -/
def IsTroubled : Stage σ → Prop
  | reporting .. => True
  | unwinding _ => True
  | broken _ => True
  | _ => False

theorem isTroubled_ending (node : Option (Node σ)) (stop : Stop) :
    (ending node stop).IsTroubled := by
  cases stop <;> trivial

theorem met_ending (node : Option (Node σ)) (stop : Stop) : (ending node stop).met = [] := by
  cases stop <;> rfl

end Stage

namespace Worker

variable {model : Model σ} {worker next : Worker σ} {shared after : Shared σ} {events : History σ}
  {page : Page σ} {node child : Node σ} {rest : List σ}

/-- What a step does to the fingerprints met. -/
inductive Meeting (model : Model σ) (worker : Worker σ) (seen : Seen) :
    List σ → Seen → List (Node σ) → Prop where
  | nothing : Meeting model worker seen worker.stage.met seen []
  | known {fingerprint : Fingerprint} (known : seen.contains fingerprint = true) :
      Meeting model worker seen worker.stage.met (seen.insert fingerprint) []
  | new {state : σ} (before : worker.stage.met = [])
      (new : seen.contains (model.fingerprint state) = false) :
      Meeting model worker seen [state] (seen.insert (model.fingerprint state)) []
  | recorded {node : Node σ} (before : worker.stage.met = [node.state]) :
      Meeting model worker seen [] seen [node]
  | lost {node : Node σ} {state : σ} {rest : List σ}
      (stage : worker.stage = .recording node state rest)
      (deep : node.level = levelMax) : Meeting model worker seen [] seen []

theorem Stowed.met_eq (stowed : Stowed worker page node child rest next) : next.stage.met = [] := by
  cases stowed <;> rfl

theorem Turn.meeting (turn : Turn model worker shared next after events) :
    Meeting model worker shared.seen next.stage.met after.seen (History.nodes events) := by
  have quiet {later : Stage σ} (before : worker.stage.met = []) (now : later.met = []) :
      Meeting model worker shared.seen later.met shared.seen [] := by
    rw [now, ← before]
    exact .nothing
  cases turn with
  | rests => exact .nothing
  | heeds stage | idles stage | picks stage | overflows stage | expands stage | concludes stage
    | publishes stage | flushes stage | reports stage | latches stage | unwinds stage =>
    exact quiet (by rw [stage]; rfl) rfl
  | fails stage | strands stage => exact quiet (by rw [stage]; rfl) (Stage.met_ending _ _)
  | @accesses wait after events stage turn =>
    have none : History.nodes events = [] := by cases turn <;> rfl
    rw [none]
    refine quiet (by rw [stage]; rfl) ?_
    rcases after with ⟨progress, held, frontier, disk⟩
    cases progress with
    | waiting | delivered | finished => rfl
    | stopped stop => exact Stage.met_ending _ _
  | meets stage new => exact .new (by rw [stage]; rfl) new
  | skips stage known =>
    have same : worker.stage.met = [] := by rw [stage]; rfl
    have unchanged := @Meeting.known _ model worker _ _ known
    rwa [same] at unchanged
  | sinks stage deep => exact .lost stage deep
  | @records node state rest _ stage room placed =>
    have now : next.stage.met = [] := by
      cases placed with
      | keeps | seeks => rfl
      | stows holding stowed => exact stowed.met_eq
    rw [now]
    show Meeting model worker shared.seen [] shared.seen [worker.discovery model node state]
    exact .recorded (by rw [stage]; rfl)
  | claims stage stowed => exact quiet (by rw [stage]; rfl) stowed.met_eq

/-- Trouble does not go away. -/
theorem Turn.troubled (turn : Turn model worker shared next after events)
    (troubled : worker.stage.IsTroubled) : after.report.isSome = true ∨ next.stage.IsTroubled := by
  cases turn with
  | rests => exact .inr troubled
  | unwinds => exact .inr trivial
  | reports =>
    refine .inl ?_
    cases kept : shared.report <;> simp [Report.publish]
  | heeds stage | idles stage | picks stage | accesses stage | fails stage | overflows stage
    | expands stage | concludes stage | meets stage | skips stage | sinks stage | records stage
    | claims stage | publishes stage | strands stage | flushes stage | latches stage =>
    rw [stage] at troubled
    exact troubled.elim

theorem Stowed.mem_remaining {state : σ} (stowed : Stowed worker page node child rest next)
    (member : state ∈ rest) : next.stage.IsTroubled ∨ state ∈ next.stage.remaining := by
  cases stowed with
  | bursts => exact .inl trivial
  | fills | holds => exact .inr member

/-- A successor that a worker has yet to look at remains so, unless it is met. -/
theorem Turn.remaining (turn : Turn model worker shared next after events) {state : σ}
    (member : state ∈ worker.stage.remaining) :
    next.stage.IsTroubled ∨ state ∈ next.stage.remaining ∨
      after.seen.contains (model.fingerprint state) = true := by
  cases turn with
  | rests => exact .inr (.inl member)
  | heeds stage | idles stage | picks stage | accesses stage | fails stage | overflows stage
    | expands stage | concludes stage | flushes stage | reports stage | latches stage
    | unwinds stage =>
    rw [stage] at member
    cases member
  | meets stage | skips stage =>
    rw [stage] at member
    rcases List.mem_cons.mp member with rfl | later
    · exact .inr (.inr (by simp))
    · exact .inr (.inl later)
  | sinks => exact .inl trivial
  | records stage room placed =>
    rw [stage] at member
    cases placed with
    | keeps | seeks => exact .inr (.inl member)
    | stows holding stowed =>
      exact (stowed.mem_remaining member).imp_right .inl
  | claims stage stowed =>
    rw [stage] at member
    exact (stowed.mem_remaining member).imp_right .inl
  | publishes stage =>
    rw [stage] at member
    exact .inr (.inl member)
  | strands => exact .inl (Stage.isTroubled_ending _ _)

/-- A worker that expands a node has yet to look at all of its successors. -/
theorem Turn.expanded (turn : Turn model worker shared next after events) :
    ∃ fresh, after.expanded = fresh ++ shared.expanded ∧ ∀ node ∈ fresh,
      next.stage.IsTroubled ∨ model.successors node.state = .ok next.stage.remaining := by
  cases turn with
  | fails => exact ⟨[_], rfl, fun _ _ => .inl (Stage.isTroubled_ending _ _)⟩
  | overflows => exact ⟨[_], rfl, fun _ _ => .inl trivial⟩
  | expands stage computed =>
    refine ⟨[_], rfl, fun other member => .inr ?_⟩
    rw [List.mem_singleton.mp member]
    exact computed
  | rests | heeds | idles | picks | accesses | concludes | meets | skips | sinks | records | claims
    | publishes | strands | flushes | reports | latches | unwinds => exact ⟨[], rfl, by simp⟩

end Worker

/-! ## Pools -/

namespace Pool

variable {model : Model σ} {initial : List σ} {place : Location} {past events : History σ}
  {pool : Pool σ} {position : Nat} {worker next : Worker σ} {shared : Shared σ}

/-- The fingerprints of the nodes recorded, and of the states about to be recorded. -/
def prints (model : Model σ) (past : History σ) (pool : Pool σ) : List Fingerprint :=
  ((History.nodes past).map Node.state ++ pool.workers.flatMap (·.stage.met)).map model.fingerprint

/-- A step keeps the list of the fingerprints met, whatever was known before, unless a state lies
deeper than can be said. -/
theorem lists_step_of_lists {known : List Fingerprint}
    (found : pool.workers[position]? = some worker)
    (turn : worker.Turn model pool.shared next shared events)
    (lists : pool.shared.seen.Lists (pool.prints model past ++ known)) :
    (∃ node state rest, worker.stage = .recording node state rest ∧
        node.level = Worker.levelMax) ∨
      shared.seen.Lists (prints model (past ++ events)
        ⟨pool.workers.set position next, shared⟩ ++ known) := by
  have before := flatMap_perm_others (fun worker => worker.stage.met) found
  have now := @flatMap_set_perm_others _ _ _ _ _ next (fun worker => worker.stage.met) found
  -- The states met, with those of the worker whose turn it is apart from those of the others.
  have earlier : (pool.prints model past ++ known).Perm
      (((History.nodes past).map Node.state ++ (worker.stage.met ++
        (pool.workers.eraseIdx position).flatMap (·.stage.met))).map model.fingerprint ++ known) :=
    ((before.append_left _).map _).append_right _
  have later : (prints model (past ++ events) ⟨pool.workers.set position next, shared⟩ ++
      known).Perm
      (((History.nodes past ++ History.nodes events).map Node.state ++ (next.stage.met ++
        (pool.workers.eraseIdx position).flatMap (·.stage.met))).map model.fingerprint ++
          known) := by
    rw [prints, nodes_append]
    exact ((now.append_left _).map _).append_right _
  have listed := lists.perm earlier
  have meeting := turn.meeting
  generalize next.stage.met = met, shared.seen = seen, History.nodes events = recorded
    at meeting later
  cases meeting with
  | nothing =>
    rw [List.append_nil] at later
    exact .inr (listed.perm later.symm)
  | known met =>
    rw [List.append_nil] at later
    exact .inr ((listed.insert_of_contains met).perm later.symm)
  | new none new =>
    rw [none] at listed
    refine .inr ((listed.insert new).perm (List.Perm.trans ?_ later.symm))
    simpa using List.perm_middle.symm
  | recorded one =>
    rw [one] at listed
    exact .inr (listed.perm (by simpa using later.symm))
  | lost stage deep => exact .inl ⟨_, _, _, stage, deep⟩

/-- A step keeps the list of the fingerprints met, unless the exploration is hindered. -/
theorem lists_step (found : pool.workers[position]? = some worker)
    (turn : worker.Turn model pool.shared next shared events)
    (coherent : Coherent model initial place past pool)
    (lists : Hindered past pool ∨ pool.shared.seen.Lists (pool.prints model past)) :
    Hindered (past ++ events) ⟨pool.workers.set position next, shared⟩ ∨
      shared.seen.Lists (prints model (past ++ events)
        ⟨pool.workers.set position next, shared⟩) := by
  rcases lists with hindered | lists
  · exact .inl (hindered.step turn)
  · rw [← List.append_nil (pool.prints model past)] at lists
    rcases lists_step_of_lists found turn lists with ⟨node, state, rest, stage, deep⟩ | still
    · have there := coherent.mem_nodes_of_recording (List.mem_of_getElem? found) stage
      exact .inl (Hindered.step turn (.inr (.inl ⟨node, there, deep⟩)))
    · rw [List.append_nil] at still
      exact .inr still

/-- An error has been reported, or is going to be, or a worker breaks down. -/
def Troubled (pool : Pool σ) : Prop :=
  pool.shared.report.isSome = true ∨ ∃ worker ∈ pool.workers, worker.stage.IsTroubled

theorem Troubled.step (found : pool.workers[position]? = some worker)
    (turn : worker.Turn model pool.shared next shared events) (troubled : pool.Troubled) :
    Troubled ⟨pool.workers.set position next, shared⟩ := by
  rcases troubled with reported | ⟨other, among, trouble⟩
  · exact .inl (turn.report_isSome reported)
  · rcases mem_set_of_mem found among with rfl | still
    · exact (turn.troubled trouble).imp_right fun later => ⟨next, mem_set_self found, later⟩
    · exact .inr ⟨other, still, trouble⟩

/-- Every node that was expanded has successors, and each of them has been met or is yet to be
looked at, unless there is trouble. -/
def Covered (model : Model σ) (pool : Pool σ) : Prop :=
  ∀ node ∈ pool.shared.expanded, pool.Troubled ∨
    ∃ states, model.successors node.state = .ok states ∧ ∀ state ∈ states,
      pool.shared.seen.contains (model.fingerprint state) = true ∨
        ∃ worker ∈ pool.workers, state ∈ worker.stage.remaining

theorem Covered.step (found : pool.workers[position]? = some worker)
    (turn : worker.Turn model pool.shared next shared events) (covered : pool.Covered model) :
    Covered model ⟨pool.workers.set position next, shared⟩ := by
  have here : next ∈ pool.workers.set position next := mem_set_self found
  obtain ⟨fresh, grown, begun⟩ := turn.expanded
  intro node member
  by_cases trouble : next.stage.IsTroubled
  · exact .inl (.inr ⟨next, here, trouble⟩)
  have split : node ∈ fresh ++ pool.shared.expanded := grown ▸ member
  rcases List.mem_append.mp split with new | old
  · rcases begun node new with troubled | computed
    · exact absurd troubled trouble
    · exact .inr ⟨_, computed, fun state among => .inr ⟨next, here, among⟩⟩
  · rcases covered node old with troubled | ⟨states, computed, each⟩
    · exact .inl (troubled.step found turn)
    · refine .inr ⟨states, computed, fun state among => ?_⟩
      rcases each state among with met | ⟨other, there, remains⟩
      · exact .inl (turn.grows.2 _ met)
      · rcases mem_set_of_mem found there with rfl | still
        · rcases turn.remaining remains with troubled | later | met
          · exact absurd troubled trouble
          · exact .inr ⟨next, here, later⟩
          · exact .inl met
        · exact .inr ⟨other, still, remains⟩

end Pool

end Wavefront
