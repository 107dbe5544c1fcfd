/-
# Adding up what workers counted

A summary is made worker by worker. As long as all samples can be counted it comes out, and
says what the workers counted together; the deepest level is that of one of them.
-/

import Wavefront.Exploration.Run
import Wavefront.Proofs.Pool.Counters

namespace Wavefront

variable {σ : Type}

/-- What adding the counts of workers to a summary leads to. -/
structure Summary.Adds (summary : Summary) (workers : List (Worker σ))
    (total : Summary) : Prop where
  generated : total.statesGenerated =
    summary.statesGenerated + (workers.map (·.generated)).sum
  distinct : total.distinctStates = summary.distinctStates
  observed : total.outDegree.observations =
    summary.outDegree.observations + (workers.map (·.outDegree.observations)).sum
  bound : summary.maxLevel ≤ total.maxLevel ∧ ∀ worker ∈ workers, worker.maxLevel ≤ total.maxLevel
  reached : total.maxLevel = summary.maxLevel ∨ ∃ worker ∈ workers, worker.maxLevel = total.maxLevel

namespace Exploration

variable {workers : List (Worker σ)} {summary : Summary}

/-- A summary comes out, unless there are more samples than can be counted. -/
theorem exists_summarize_eq_ok (consistent : summary.outDegree.Consistent)
    (each : ∀ worker ∈ workers, worker.outDegree.Consistent)
    (room : summary.outDegree.observations + (workers.map (·.outDegree.observations)).sum ≤
      Histogram.counterMax) :
    ∃ total, summarize workers summary = .ok total ∧ summary.Adds workers total := by
  induction workers generalizing summary with
  | nil => exact ⟨summary, rfl, rfl, rfl, rfl, ⟨UInt32.le_refl _, by simp⟩, .inl rfl⟩
  | cons worker rest ih =>
    simp only [List.map_cons, List.sum_cons] at room
    obtain ⟨merged, done, still, counted⟩ :=
      Histogram.merge_of_le consistent (each worker List.mem_cons_self) (by omega)
    have later : ∀ other ∈ rest, other.outDegree.Consistent :=
      fun other member => each other (List.mem_cons_of_mem _ member)
    obtain ⟨total, summed, adds⟩ := @ih
      { summary with
        statesGenerated := summary.statesGenerated + worker.generated
        maxLevel := max summary.maxLevel worker.maxLevel
        outDegree := merged } still later (by rw [counted]; omega)
    obtain ⟨before, here, either⟩ := max_level summary.maxLevel worker.maxLevel
    refine ⟨total, by simp only [summarize, done, summed], ?_, adds.distinct, ?_, ⟨?_, ?_⟩, ?_⟩
    · rw [adds.generated, List.map_cons, List.sum_cons, Nat.add_assoc]
    · rw [adds.observed, counted, List.map_cons, List.sum_cons, Nat.add_assoc]
    · exact UInt32.le_trans before adds.bound.1
    · intro other member
      rcases List.mem_cons.mp member with rfl | old
      · exact UInt32.le_trans here adds.bound.1
      · exact adds.bound.2 other old
    · rcases adds.reached with top | ⟨other, member, top⟩
      · rcases either with old | new
        · exact .inl (top.trans old)
        · exact .inr ⟨worker, List.mem_cons_self, (top.trans new).symm⟩
      · exact .inr ⟨other, List.mem_cons_of_mem _ member, top⟩

end Exploration

namespace Pool

variable {model : Model σ} {past : History σ} {pool : Pool σ} {launch : Exploration.Launch σ}

/-- What the summary of a run says of the nodes that were recorded and expanded. -/
structure Summarizes (model : Model σ) (launch : Exploration.Launch σ) (past : History σ)
    (pool : Pool σ) (summary : Summary) : Prop where
  generated : summary.statesGenerated =
    launch.initialStates + (model.tally pool.shared.expanded).sum
  distinct : summary.distinctStates = pool.shared.seen.size
  observed : summary.outDegree.observations = (model.tally pool.shared.expanded).length
  bound : ∀ node ∈ History.nodes past, node.level ≤ summary.maxLevel
  reached : History.nodes past = [] ∧ summary.maxLevel = 0 ∨
    ∃ node ∈ History.nodes past, node.level = summary.maxLevel

/-- What the workers of a run counted can be added up, unless there are too many samples. -/
theorem Tallied.exists_summaryOf (tallied : Tallied model pool)
    (few : (model.tally pool.shared.expanded).length ≤ Histogram.counterMax) :
    ∃ total, Exploration.summaryOf launch pool = .ok total ∧
      Summary.Adds { Summary.empty pool.workers.length with
        statesGenerated := launch.initialStates
        distinctStates := pool.shared.seen.size } pool.workers total ∧
      total.outDegree.observations = (model.tally pool.shared.expanded).length := by
  obtain ⟨consistent, observed⟩ := tallied.observed.resolve_left few.not_gt
  have none : (Summary.empty pool.workers.length).outDegree.observations = 0 := rfl
  obtain ⟨total, summed, adds⟩ := @Exploration.exists_summarize_eq_ok _ pool.workers
    { Summary.empty pool.workers.length with
      statesGenerated := launch.initialStates
      distinctStates := pool.shared.seen.size }
    (Histogram.consistent_empty _ _) consistent (by
      rw [none, observed]
      omega)
  refine ⟨total, summed, adds, ?_⟩
  rw [adds.observed, observed]
  exact Nat.zero_add _

/-- The workers of a run that is not hindered can be summarized. -/
theorem exists_summaryOf_eq_ok (tallied : Tallied model pool) (sounded : Sounded past pool)
    (free : ¬ Hindered past pool) :
    ∃ summary, Exploration.summaryOf launch pool = .ok summary ∧
      pool.Summarizes model launch past summary := by
  obtain ⟨total, summed, adds, observed⟩ := tallied.exists_summaryOf
    (Nat.le_of_not_lt fun many => free (Limited.hindered (.inr many)))
  have bound : ∀ node ∈ History.nodes past, node.level ≤ total.maxLevel := by
    intro node member
    obtain ⟨worker, among, less⟩ := sounded.bound node member
    exact UInt32.le_trans less (adds.bound.2 worker among)
  have least (none : total.maxLevel = 0) : History.nodes past = [] ∧ total.maxLevel = 0 ∨
      ∃ node ∈ History.nodes past, node.level = total.maxLevel := by
    rcases List.eq_nil_or_concat (History.nodes past) with empty | ⟨before, node, some⟩
    · exact .inl ⟨empty, none⟩
    · have member : node ∈ History.nodes past := by simp [some]
      have flat := UInt32.le_iff_toNat_le.mp (none ▸ bound node member)
      refine .inr ⟨node, member, ?_⟩
      rw [none, ← UInt32.toNat_inj]
      exact Nat.le_zero.mp flat
  refine ⟨total, summed, ?_, adds.distinct, observed, bound, ?_⟩
  · rw [adds.generated, tallied.generated]
  · rcases adds.reached with top | ⟨worker, among, top⟩
    · exact least top
    · rcases sounded.reached worker among with none | ⟨node, member, same⟩
      · exact least (top.symm.trans none)
      · exact .inr ⟨node, member, same.trans top⟩

end Pool

end Wavefront
