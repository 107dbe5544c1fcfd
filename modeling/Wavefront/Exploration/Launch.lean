/-
# Launching a run

A run makes a directory of its own below the one in the settings, opens a frontier
and the workers' logs there, and lets the frontier hold the distinct initial states,
each on a page of its own. Directories of runs are numbered; a number whose
directory exists already is passed over. If anything fails, what was done so far
stays on the disk.
-/

import Wavefront.Worker.Pool

namespace Wavefront.Exploration

variable {σ : Type}

/-- A run that is ready to go. -/
structure Launch (σ : Type) where
  pool : Pool σ
  /-- The directory that the run has for itself. -/
  runDirectory : Path
  /-- The number of initial states, duplicates included. -/
  initialStates : Nat

/-- The name of the directory of a run. -/
def runName (specName : String) (process run : Nat) : String :=
  specName ++ "-" ++ toString process ++ "-" ++ toString run

/-- Make the directory of the first run number from `run` on that is free, trying at most
`tries` numbers. The number in the answer is the one after the last that was tried. -/
def makeRunDirectory (base : Path) (specName : String) (process : Nat) :
    (tries run : Nat) → Disk → Except Failure Path × Nat × Disk
  | 0, run, disk => (.error (.io .alreadyExists), run, disk)
  | tries + 1, run, disk =>
      let directory := base.join (runName specName process run)
      match disk.mkdir directory with
      | .ok disk => (.ok directory, run + 1, disk)
      | .error .alreadyExists => makeRunDirectory base specName process tries (run + 1) disk
      | .error cause => (.error (.io cause), run + 1, disk)

/-- Make the directory of a run and those above it that are missing. No more numbers can
be taken than there are entries. -/
def prepareDirectory (settings : Settings) (process run : Nat) (disk : Disk) :
    Except Failure Path × Nat × Disk :=
  match Disk.mkdirAll settings.directory disk with
  | (.error cause, disk) => (.error (.io cause), run, disk)
  | (.ok (), disk) =>
      makeRunDirectory settings.directory settings.specName process (disk.entries.size + 1) run disk

/-- Make workers with the given numbers. -/
def hire (directory : Path) (specName : String) (localLimit : Nat) :
    List UInt16 → Disk → Except Failure (List (Worker σ)) × Disk
  | [], disk => (.ok [], disk)
  | id :: rest, disk =>
      match Worker.create id directory specName localLimit disk with
      | .error failure => (.error failure, disk)
      | .ok (worker, disk) =>
          match hire directory specName localLimit rest disk with
          | (.error failure, disk) => (.error failure, disk)
          | (.ok workers, disk) => (.ok (worker :: workers), disk)

/-- Let a worker record the distinct states of a list, and put each on a page of its own. -/
def seed (model : Model σ) :
    List σ → Worker σ → Shared σ → Except Stop Unit × Worker σ × Shared σ
  | [], worker, shared => (.ok (), worker, shared)
  | state :: rest, worker, shared =>
      match worker.seed model state 1 shared with
      | (.error stop, worker, shared) => (.error stop, worker, shared)
      | (.ok _, worker, shared) => seed model rest worker shared

/-- The logs of workers. -/
def logs (workers : List (Worker σ)) : List Log := workers.map (·.log)

/-- Let the first of the workers seed the frontier. -/
def seedFirst (model : Model σ) (initial : List σ) (workers : List (Worker σ)) (shared : Shared σ) :
    Except Stop (Pool σ) × Disk :=
  match workers with
  | [] => (.ok ⟨[], shared⟩, shared.disk)
  | first :: others =>
      match seed model initial first shared with
      | (.error stop, first, shared) =>
          (.error stop, Log.flushAll (logs (first :: others)) shared.disk)
      | (.ok (), first, shared) => (.ok ⟨first :: others, shared⟩, shared.disk)

/-- Open a frontier and logs in the directory of a run, and seed the frontier. -/
def launchIn (directory : Path) (settings : Settings) (model : Model σ) (initial : List σ)
    (seen : Seen) (disk : Disk) : Except Stop (Launch σ) × Disk :=
  match Frontier.establish { settings with directory := directory } disk with
  | (.error failure, disk) => (.error (.failure failure), disk)
  | (.ok frontier, disk) =>
      let ids := (List.range settings.workerCount).map UInt16.ofNat
      match hire directory settings.specName settings.localBacklog ids disk with
      | (.error failure, disk) => (.error (.failure failure), disk)
      | (.ok workers, disk) =>
          match seedFirst model initial workers ⟨frontier, disk, seen, none, []⟩ with
          | (.error stop, disk) => (.error stop, disk)
          | (.ok pool, disk) => (.ok ⟨pool, directory, initial.length⟩, disk)

/-- Make everything ready for a run from the given initial states. The number in the answer is
the one that the next run tries first. -/
def launch (settings : Settings) (model : Model σ) (initial : List σ) (seen : Seen)
    (process run : Nat) (disk : Disk) : Except Stop (Launch σ) × Nat × Disk :=
  match settings.validate with
  | .error cause => (.error (.failure (.settings cause)), run, disk)
  | .ok () =>
      match prepareDirectory settings process run disk with
      | (.error failure, next, disk) => (.error (.failure failure), next, disk)
      | (.ok directory, next, disk) =>
          let (launch, disk) := launchIn directory settings model initial seen disk
          (launch, next, disk)

end Wavefront.Exploration
