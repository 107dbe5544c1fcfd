/-
# Plans of file-system steps

Writing a file so that it appears whole is a sequence of steps, any of which may
fail and after any of which everything may come to a halt. A plan is the list of
those steps. `Plan.perform` carries it out up to the first step that fails; a halt
in the middle is the plan cut short.
-/

import Wavefront.Disk.Basic

namespace Wavefront

/-- One step on the way to a file. -/
inductive FileStep where
  /-- Make an empty file, or empty the one that is there. -/
  | create (path : Path)
  /-- Put bytes at the end of a file. -/
  | append (path : Path) (bytes : Bytes)
  /-- Bring the bytes of a file to the medium. What is found in the file does not change. -/
  | sync (path : Path)
  /-- There is nothing more to write to a file, for the given cause. -/
  | refuse (path : Path) (cause : IoError)
  /-- Give a file its final name. -/
  | rename (source target : Path)
deriving DecidableEq, Repr

namespace FileStep

/-- The path that a failure of the step is blamed on. -/
def blamed : FileStep → Path
  | create path => path
  | append path _ => path
  | sync path => path
  | refuse path _ => path
  | rename _ target => target

/-- Carry out one step. -/
def perform : FileStep → Disk → Except IoError Disk
  | create path, disk => (disk.create path).map (·.2)
  | append path bytes, disk => disk.append path bytes
  | sync _, disk => .ok disk
  | refuse _ cause, _ => .error cause
  | rename source target, disk => disk.rename source target

end FileStep

/-- Steps to be carried out in order. -/
abbrev Plan := List FileStep

namespace Plan

/-- Carry out the steps up to the first that fails. What was done before it stays done. -/
def perform : Plan → Disk → Except (Path × IoError) Unit × Disk
  | [], disk => (.ok (), disk)
  | step :: rest, disk =>
      match step.perform disk with
      | .error cause => (.error (step.blamed, cause), disk)
      | .ok disk => perform rest disk

/-- A plan in which the step with a number is refused. -/
def refuseAt (plan : Plan) (number : Nat) (cause : IoError) : Plan :=
  plan.modify number fun step => .refuse step.blamed cause

/-- Two plans in sequence are carried out one after the other. -/
theorem perform_append (first second : Plan) (disk : Disk) :
    perform (first ++ second) disk =
      match perform first disk with
      | (.error blame, disk) => (.error blame, disk)
      | (.ok (), disk) => perform second disk := by
  induction first generalizing disk with
  | nil => rfl
  | cons step rest ih =>
    simp only [List.cons_append, perform]
    cases step.perform disk with
    | error cause => rfl
    | ok disk => exact ih disk

end Plan

end Wavefront
