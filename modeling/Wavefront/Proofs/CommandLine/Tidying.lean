/-
# What a command leaves in the directory of the user

A command that was given a directory for its files makes one directory in it, for its run, and takes
that away again unless it is to be kept. Whatever was there before, under whatever names, stays as
it was. A directory that was kept holds the logs of the run and nothing else.
-/

import Wavefront.Proofs.CommandLine.Reporting
import Wavefront.Proofs.Exploration.Holdings

namespace Wavefront

variable {σ : Type}

/-! ## Disks -/

namespace Disk

variable {before middle after : Disk} {path : Path} {place : Location} {pieces : List String}

/-- A directory is still found on a disk that has everything that another has. -/
theorem Keeps.lookup_directory (keeps : before.Keeps after)
    (limit : after.pathLimit = before.pathLimit)
    (found : before.lookup path = .ok (place, .directory)) :
    after.lookup path = .ok (place, .directory) := by
  obtain ⟨checked, walked, here⟩ := lookup_directory_iff.mp found
  refine lookup_directory_iff.mpr ⟨?_, walk_of_directories (fun target => keeps target _) walked,
    keeps _ _ here⟩
  rw [← checked]
  simp only [check, limit]

end Disk

/-! ## Runs -/

namespace Exploration

variable {settings : Settings} {process number : Nat} {disk made prepared final : Disk}
  {directory : Path} {base place target : Location}

/-- Where only a run changes anything, in the directory that it has for itself: everywhere, if the
directory of the settings was there before; otherwise everywhere but on the way there. -/
def Spared (disk : Disk) (directory : Path) (base target : Location) : Prop :=
  disk.lookup directory = .ok (base, .directory) ∨
    ∀ front, front <+: directory.pieces → Disk.destination [] front ≠ target

/-- When the directory of the settings has been made and nothing else: it is at a location, and
the run's own directory will be directly inside, where nothing is. -/
structure Based (settings : Settings) (process : Nat) (disk made : Disk) (base place : Location) :
    Prop where
  own : ∃ taken, place = base ++ [runName settings.specName process taken]
  found : made.lookup settings.directory = .ok (base, .directory)
  vacant : made.get? place = none
  rooted : made.Rooted
  paves : Disk.Paves settings.directory.pieces disk made
  spared : ∀ target, Spared disk settings.directory base target →
    made.get? target = disk.get? target

namespace Based

/-- Outside of its own directory a run changes nothing. -/
theorem get?_eq (changes : (made.set place .directory).Changes (Disk.Inside place) final)
    (apart : ¬ place <+: target) : final.get? target = made.get? target := by
  rw [changes.elsewhere target, Disk.get?_set_of_ne]
  · rintro rfl
    exact apart (List.prefix_refl place)
  · rintro ⟨name, rfl⟩
    exact apart (List.prefix_append place [name])

/-- What was there when a run made its own directory stays. -/
theorem keeps (based : Based settings process disk made base place)
    (changes : (made.set place .directory).Changes (Disk.Inside place) final) :
    made.Keeps final := by
  intro target entry there
  rw [get?_eq changes, there]
  intro below
  rw [based.rooted.eq_none_of_prefix based.vacant below] at there
  cases there

end Based

end Exploration

/-! ## Commands -/

namespace Settings

/-- Overrides leave the directory and the name alone. -/
theorem override_eq_ok {settings overridden : Settings} {given : Variable → Option String}
    (done : settings.override given = .ok overridden) :
    overridden.directory = settings.directory ∧ overridden.specName = settings.specName := by
  unfold override at done
  cases pages : overrideValue given .inMemoryPages with
  | error cause => simp [pages, bind, Except.bind] at done
  | ok pages' =>
    cases size : overrideValue given .pageSize with
    | error cause => simp [pages, size, bind, Except.bind] at done
    | ok size' =>
      cases workers : overrideValue given .workers with
      | error cause => simp [pages, size, workers, bind, Except.bind] at done
      | ok workers' =>
        simp only [pages, size, workers, bind, Except.bind, pure, Except.pure,
          Except.ok.injEq] at done
        rw [← done]
        exact ⟨rfl, rfl⟩

end Settings

namespace Exploration.Course

variable {model : Model σ} {initial : List σ}

end Exploration.Course

namespace CommandLine

open Exploration

variable {given : Given} {environment : Environment} {disk : Disk} {settings : Settings}

/-- The settings have the directory that was given or chosen, and the name of the grid. -/
theorem settingsOf_eq_ok (decided : settingsOf given environment = .ok settings) :
    settings.directory = directoryOf given environment ∧ settings.specName = "CounterGrid" := by
  unfold settingsOf at decided
  cases overridden : (Settings.standard (directoryOf given environment)).override
      environment.lookup with
  | error cause => simp [overridden, Except.map] at decided
  | ok settings' =>
    simp only [overridden, Except.map, Except.ok.injEq] at decided
    rw [← decided]
    exact ⟨(Settings.override_eq_ok overridden).1, rfl⟩

/-- What a command makes of what a run has left behind. -/
def finish (given : Given) (settings : Settings) (result : Result GridState) : Performance :=
  let disk := tidy (leftover? given settings result.outcome) result.disk
  match result.outcome with
  | .error stop => stopped stop (fun _ => []) disk
  | .ok outcome => conclude (gridOf given) outcome disk

/-- A run that a command makes. -/
structure Serves (given : Given) (environment : Environment) (disk : Disk)
    (course : Course (gridOf given).model (gridOf given).initialStates .empty) : Prop where
  settings : settingsOf given environment = .ok course.settings
  process : course.process = environment.process
  number : course.number = 0
  disk : course.disk = disk

variable {course : Course (gridOf given).model (gridOf given).initialStates .empty}
  {schedule : List Nat} {outcome : Outcome GridState}

section

variable {name : String} (named : given.text? .diskDirectory = some name)

include named

theorem Serves.directory_eq (serves : Serves given environment disk course) :
    course.settings.directory = Path.ofText name := by
  rw [(settingsOf_eq_ok serves.settings).1, directoryOf, named]
  rfl

end

end CommandLine

end Wavefront
