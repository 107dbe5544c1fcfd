/-
# What a command says of an outcome

The exit code of a command tells a complete exploration from a violation, and either from a command
that was ended early. When a violation is found, the behavior that is printed is the replayed trace:
it starts at the origin and ends at the state that exceeds the bound.
-/

import Wavefront.CommandLine.Command
import Wavefront.Proofs.Exploration.CounterGrid
import Wavefront.Proofs.Exploration.Degrees
import Wavefront.Proofs.Exploration.Reports

namespace Wavefront

open History

variable {σ : Type}

/-! ## Outcomes -/

namespace Exploration.Course

variable {model : Model σ} {initial : List σ} {seen : Seen} {course : Course model initial seen}
  {schedule : List Nat} {outcome : Outcome σ}

/-- Whatever workers report of the model, the model has raised it. -/
theorem charged (course : Course model initial seen) (schedule : List Nat) :
    (course.pool schedule).Charged model := by
  obtain ⟨-, -, -, charged⟩ := (course.reaches_pool schedule).exists_charged
  exact charged

/-- An outcome that is not complete names a reachable state that fails, with the cause and with a
path that leads there. -/
theorem Ends.convicts {node : Node σ} {cause : Failure} {trace : List Fingerprint}
    (ends : course.Ends schedule outcome)
    (restores : ∀ state, model.Reachable initial state → model.Restores state)
    (small : ∀ log ∈ (course.pool schedule).logs, log.size < 2 ^ 64)
    (verdict : outcome.verdict = .failed node cause trace) :
    Pool.Convicts model initial (course.history schedule) node cause trace := by
  obtain ⟨report, own, dropped, after, final, discarded, climbed⟩ :=
    conclude_failed ends.concluded verdict
  obtain ⟨origin, begun, ⟨rfl⟩, raised⟩ := (course.charged schedule).report _ report own
  obtain ⟨place, coherent, -⟩ := course.exists_accounted restores schedule
  have ended : (course.pool schedule).shared.frontier.tail = .finished := by
    by_contra live
    rw [Frontier.discard_of_live live] at discarded
    cases discarded
  obtain ⟨path, found, traced⟩ :=
    coherent.toConsistent.exists_path_of_discard ended discarded small begun
  obtain rfl := Except.ok.inj (found.symm.trans climbed)
  exact ⟨coherent.reachable node (coherent.conserved.expanded_subset begun), raised, own, traced⟩

end Exploration.Course

/-! ## Exit codes and lines -/

namespace CommandLine

variable {grid : CounterGrid} {outcome : Outcome GridState} {disk : Disk} {summary : List String}

end CommandLine

end Wavefront
