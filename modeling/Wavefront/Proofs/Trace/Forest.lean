/-
# Finding the log of a worker

Logs are put in the order of their workers before they are searched, and the search halves a range
until one log is left. If no worker has two logs, then the one that a worker's name leads to is the
one there is, and the order in which the logs came is forgotten: the same logs in any order make
the same forest.
-/

import Mathlib.Algebra.BigOperators.Group.List.Basic
import Mathlib.Algebra.Ring.Nat
import Mathlib.Data.List.Nodup
import Wavefront.Trace.Forest

namespace Wavefront

/-! ## Order -/

namespace Log

theorem perm_insertInto (log : Log) (logs : List Log) :
    (log.insertInto logs).Perm (log :: logs) := by
  induction logs with
  | nil => exact .refl _
  | cons first rest ih =>
    rw [insertInto]
    split
    · exact .refl _
    · exact (ih.cons first).trans (.swap _ _ _)

/-- Nothing is lost and nothing is added when logs are put in order. -/
theorem perm_sort (logs : List Log) : (sort logs).Perm logs := by
  induction logs with
  | nil => exact .refl _
  | cons log rest ih => exact (log.perm_insertInto _).trans (ih.cons log)

end Log

namespace Forest

theorem perm_collect (logs : List Log) : (collect logs).logs.Perm logs := Log.perm_sort logs

theorem recordCount_collect (logs : List Log) :
    (collect logs).recordCount = (logs.map Log.count).sum := by
  rw [← ((perm_collect logs).map Log.count).sum_nat, recordCount, List.sum_eq_foldr, List.foldr_map]

theorem eq_of_logs {forest other : Forest} (same : forest.logs = other.logs) : forest = other := by
  cases forest
  cases other
  cases same
  rfl

/-- If no worker has two logs, then forests with the same logs are the same. -/
theorem eq_of_perm {forest other : Forest} (distinct : (forest.logs.map Log.worker).Nodup)
    (same : forest.logs.Perm other.logs) : forest = other := by
  refine eq_of_logs (List.Perm.eq_of_pairwise ?_ forest.ascending other.ascending same)
  intro log twin member among before after
  exact List.inj_on_of_nodup_map distinct member (same.mem_iff.mpr among)
    (UInt16.le_antisymm before after)

/-- The order in which logs come does not matter to what is collected. -/
theorem collect_eq_of_perm {logs others : List Log} (distinct : (logs.map Log.worker).Nodup)
    (same : others.Perm logs) : collect others = collect logs := by
  have whole := (perm_collect others).trans same
  exact eq_of_perm ((whole.map _).nodup_iff.mpr distinct) (whole.trans (perm_collect logs).symm)

/-! ## Search -/

/-- The search ends at the position of a worker that is among those in the range, if the workers are
in ascending order and different from each other. -/
theorem search_eq {workers : List UInt16} (ascending : workers.Pairwise (· ≤ ·))
    (distinct : workers.Nodup) {position : Nat} (inside : position < workers.length)
    {base size : Nat} (within : base + size ≤ workers.length) (first : base ≤ position)
    (last : position < base + size) :
    search workers workers[position] base size within = position := by
  induction size using Nat.strongRecOn generalizing base with
  | ind size ih =>
    unfold search
    split
    · rename_i more
      -- The middle of the range is after the position exactly if its worker is.
      have middle : base + size / 2 < workers.length := by omega
      dsimp only
      split
      · rename_i before
        refine ih (size - size / 2) (by omega) _ first ?_
        by_contra beyond
        have order : workers[base + size / 2] ≤ workers[position] := by
          rcases Nat.lt_or_eq_of_le (show base + size / 2 ≤ position by omega) with less | rfl
          · exact List.pairwise_iff_getElem.mp ascending _ _ middle inside less
          · exact UInt16.le_refl _
        exact absurd before (UInt16.not_lt.mpr order)
      · rename_i after
        refine ih (size - size / 2) (by omega) _ ?_ (by omega)
        by_contra beyond
        have less : position < base + size / 2 := by omega
        have order := List.pairwise_iff_getElem.mp ascending _ _ inside middle less
        have same := UInt16.le_antisymm order (UInt16.not_lt.mp after)
        exact absurd (distinct.getElem_inj_iff.mp same) (Nat.ne_of_lt less)
    · omega

/-- The log of a worker is one of the forest, and it is the worker's. -/
theorem of_log? {forest : Forest} {worker : UInt16} {log : Log}
    (found : forest.log? worker = some log) : log ∈ forest.logs ∧ log.worker = worker := by
  obtain ⟨here, own⟩ := Option.filter_eq_some_iff.mp found
  exact ⟨List.mem_of_getElem? here, beq_iff_eq.mp own⟩

/-- If no worker has two logs, then each log is the one that is found for its worker. -/
theorem log?_eq_some {forest : Forest} (distinct : (forest.logs.map Log.worker).Nodup) {log : Log}
    (member : log ∈ forest.logs) : forest.log? log.worker = some log := by
  obtain ⟨position, inside, rfl⟩ := List.getElem_of_mem member
  have inside' : position < (forest.logs.map Log.worker).length := by rwa [List.length_map]
  have ended := search_eq (List.pairwise_map.mpr forest.ascending) distinct inside'
    (Nat.le_of_eq (Nat.zero_add _)) (Nat.zero_le _) (by omega)
  rw [List.getElem_map] at ended
  simp only [log?, ended]
  exact Option.filter_eq_some_iff.mpr ⟨List.getElem?_eq_getElem inside, beq_self_eq_true _⟩

/-- If no worker has two logs, then halving finds what going through the logs in the order in which
they came would find. -/
theorem log?_collect {logs : List Log} (distinct : (logs.map Log.worker).Nodup)
    (worker : UInt16) : (collect logs).log? worker = logs.find? (·.worker == worker) := by
  have same := perm_collect logs
  cases found : logs.find? (·.worker == worker) with
  | some log =>
    obtain rfl : log.worker = worker := by simpa using List.find?_some found
    exact log?_eq_some ((same.map _).nodup_iff.mpr distinct)
      (same.mem_iff.mpr (List.mem_of_find?_eq_some found))
  | none =>
    refine Option.eq_none_iff_forall_ne_some.mpr fun log there => ?_
    obtain ⟨member, rfl⟩ := of_log? there
    simpa using List.find?_eq_none.mp found log (same.mem_iff.mp member)

end Forest

end Wavefront
