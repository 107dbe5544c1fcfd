/-
# Launches that are refused

A launch makes a directory for the run, which nothing lies in, and opens a frontier there; this
does not fail. After that it may be refused for two reasons: the log of some worker cannot be made,
or some initial state cannot be put on its page. `Exploration.Refused` says what was done before.
-/

import Wavefront.Proofs.Exploration.Launch
import Wavefront.Proofs.Store.Clearing

namespace Wavefront.Exploration

variable {σ : Type}

/-! ## Directories of runs -/

section

variable {settings : Settings} {base directory : Path} {specName : String}
  {process number tries next : Nat} {disk after : Disk}

/-- The directory of a run is the first that can be made. -/
theorem makeRunDirectory_eq_ok
    (made : makeRunDirectory base specName process tries number disk =
      (.ok directory, next, after)) :
    ∃ taken, number ≤ taken ∧ next = taken + 1 ∧
      directory = base.join (runName specName process taken) ∧
      disk.mkdir directory = .ok after := by
  induction tries generalizing number with
  | zero => simp [makeRunDirectory] at made
  | succ tries ih =>
    rw [makeRunDirectory] at made
    cases first : disk.mkdir (base.join (runName specName process number)) with
    | ok final =>
      simp only [first, Prod.mk.injEq, Except.ok.injEq] at made
      obtain ⟨rfl, rfl, rfl⟩ := made
      exact ⟨number, Nat.le_refl _, rfl, rfl, first⟩
    | error cause =>
      by_cases exists' : cause = .alreadyExists
      · subst exists'
        simp only [first] at made
        obtain ⟨taken, later, rest⟩ := ih made
        exact ⟨taken, by omega, rest⟩
      · cases cause <;> simp_all

/-- If no directory can be made, then nothing is. -/
theorem makeRunDirectory_eq_error {failure : Failure}
    (refused : makeRunDirectory base specName process tries number disk =
      (.error failure, next, after)) : after = disk := by
  induction tries generalizing number with
  | zero =>
    simp only [makeRunDirectory, Prod.mk.injEq] at refused
    exact refused.2.2.symm
  | succ tries ih =>
    rw [makeRunDirectory] at refused
    cases first : disk.mkdir (base.join (runName specName process number)) with
    | ok final => simp [first] at refused
    | error cause =>
      by_cases exists' : cause = .alreadyExists
      · subst exists'
        simp only [first] at refused
        exact ih refused
      · cases cause <;> simp_all

/-- The directory of a run lies in the one of the settings, and was not there before. -/
theorem prepareDirectory_eq_ok
    (prepared : prepareDirectory settings process number disk = (.ok directory, next, after)) :
    ∃ made taken, Disk.mkdirAll settings.directory disk = (.ok (), made) ∧ number ≤ taken ∧
      next = taken + 1 ∧
      directory = settings.directory.join (runName settings.specName process taken) ∧
      made.mkdir directory = .ok after := by
  unfold prepareDirectory at prepared
  rcases way : Disk.mkdirAll settings.directory disk with ⟨cause | ⟨⟩, made⟩
  · simp [way] at prepared
  · simp only [way] at prepared
    obtain ⟨taken, rest⟩ := makeRunDirectory_eq_ok prepared
    exact ⟨made, taken, rfl, rest⟩

/-- Nothing lies in the directory of a run that was just made. -/
theorem bare_of_prepareDirectory (rooted : disk.Rooted)
    (prepared : prepareDirectory settings process number disk = (.ok directory, next, after)) :
    ∃ place, after.lookup directory = .ok (place, .directory) ∧
      ∀ name, after.get? (place ++ [name]) = none := by
  obtain ⟨made, taken, way, -, -, -, fresh⟩ := prepareDirectory_eq_ok prepared
  exact Disk.lookup_of_mkdir (Disk.paves_mkdirAll rooted way).2 fresh

/-- A launch makes a directory for the run and goes on in it. -/
theorem launch_of_launchIn {model : Model σ} {initial : List σ} {seen : Seen}
    {prepared final : Disk} {result : Except Stop (Launch σ)} (valid : settings.validate = .ok ())
    (making : prepareDirectory settings process number disk = (.ok directory, next, prepared))
    (launching : launchIn directory settings model initial seen prepared = (result, final)) :
    launch settings model initial seen process number disk = (result, next, final) := by
  simp only [launch, valid, making, launching]

theorem runDirectory_of_launchIn {model : Model σ} {initial : List σ} {seen : Seen}
    {launched : Launch σ} {final : Disk}
    (launching : launchIn directory settings model initial seen disk = (.ok launched, final)) :
    launched.runDirectory = directory := by
  unfold launchIn at launching
  split at launching
  · cases launching
  · dsimp only at launching
    split at launching
    · cases launching
    · split at launching
      · cases launching
      · cases launching
        rfl

/-- A launch that succeeds has made a directory for the run and gone on in it. -/
theorem exists_launchIn_of_launch {model : Model σ} {initial : List σ} {seen : Seen}
    {launched : Launch σ} {final : Disk}
    (run : launch settings model initial seen process number disk = (.ok launched, next, final)) :
    ∃ prepared, prepareDirectory settings process number disk =
        (.ok launched.runDirectory, next, prepared) ∧
      launchIn launched.runDirectory settings model initial seen prepared =
        (.ok launched, final) := by
  unfold launch at run
  cases valid : settings.validate with
  | error cause => simp [valid] at run
  | ok done =>
    rcases making : prepareDirectory settings process number disk with
      ⟨failure | directory, later, prepared⟩
    · simp [valid, making] at run
    · simp only [valid, making, Prod.mk.injEq] at run
      obtain ⟨launching, rfl, rfl⟩ := run
      have whole : launchIn directory settings model initial seen prepared =
          (.ok launched, (launchIn directory settings model initial seen prepared).2) :=
        Prod.ext launching rfl
      rw [runDirectory_of_launchIn whole]
      exact ⟨prepared, rfl, whole⟩

end

/-! ## Logs that cannot be made -/

end Wavefront.Exploration
