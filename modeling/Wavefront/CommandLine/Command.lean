/-
# Commands

What a command line does, apart from talking to the outside: it decides the
settings, explores the counter grid, takes away what should not be kept, and says
what is to be printed and with which exit code. The directory of a run goes when
the user named the directory above it, and the whole directory goes when the
program chose it; a failed run in a directory of the user's takes nothing away.
-/

import Wavefront.CommandLine.Arguments
import Wavefront.CounterGrid
import Wavefront.Exploration.Run
import Wavefront.Trace.Replay

namespace Wavefront.CommandLine

/-- What a command finds around it. -/
structure Environment where
  /-- The directory for temporary files. -/
  temporary : Path
  /-- The number by which the process is known. -/
  process : Nat
  /-- The values of the variables that override settings. -/
  lookup : Variable → Option String

/-- What a command leaves behind. -/
structure Performance where
  exitCode : Nat
  /-- The lines of output, given how long the exploration took. -/
  output : (elapsed : String) → List String
  /-- The lines of the error output. -/
  complaint : List String
  disk : Disk

/-- Exit codes. -/
def success : Nat := 0

/-- The command line made no sense. -/
def misuse : Nat := 2

/-- The model raised an error. -/
def modelError : Nat := 12

/-- The program broke down. -/
def breakdown : Nat := 101

/-- The exploration failed. -/
def engineError : Nat := 255

/-- Which version this is. -/
def versionLine : String := "tla-explore 0.1.0"

/-- The counter grid that the flags describe. -/
def gridOf (given : Given) : CounterGrid where
  maxX := UInt32.ofNat ((given.number? .maxX).getD 200)
  maxY := UInt32.ofNat ((given.number? .maxY).getD 200)
  maxSum := (given.number? .maxSum).map UInt32.ofNat

/-- The directory that the program chooses for its files. -/
def scratchDirectory (environment : Environment) : Path :=
  environment.temporary.join ("tla-explore-" ++ toString environment.process)

/-- The directory for the files of runs. -/
def directoryOf (given : Given) (environment : Environment) : Path :=
  ((given.text? .diskDirectory).map Path.ofText).getD (scratchDirectory environment)

/-- The settings that environment and flags decide; flags come last. -/
def settingsOf (given : Given) (environment : Environment) : Except SettingsError Settings :=
  let standard := Settings.standard (directoryOf given environment)
  (standard.override environment.lookup).map fun settings => { settings with
    specName := "CounterGrid"
    pollMillis := (given.number? .pollMillis).getD 50
    workers := (given.number? .workers).getD settings.workers
    pageSizing := ((given.number? .pageSize).map PageSizing.fixed).getD settings.pageSizing
    inMemoryPages := (given.number? .inMemoryPages).getD settings.inMemoryPages
    localBacklog := (given.number? .localBacklog).getD settings.localBacklog }

/-- The directory to take away after a run, if there is one. -/
def leftover? {σ : Type} (given : Given) (settings : Settings)
    (outcome : Except Stop (Outcome σ)) : Option Path :=
  if given.keepFiles then none
  else
    match given.text? .diskDirectory, outcome with
    | none, _ => some settings.directory
    | some _, .ok outcome => some outcome.runDirectory
    | some _, .error _ => none

/-- Take a directory away, if it is one. -/
def tidy (directory : Option Path) (disk : Disk) : Disk :=
  match directory.map disk.lookup with
  | some (.ok (place, .directory)) => disk.removeTree place
  | _ => disk

/-- Number the states of a behavior. -/
def behaviorLines (states : List GridState) : List String :=
  states.zipIdx.map fun (state, index) =>
    "State " ++ toString (index + 1) ++ ": x = " ++ toString state.x.toNat ++ ", y = " ++
      toString state.y.toNat

/-- What ends a command early. -/
def stopped (stop : Stop) (output : String → List String) (disk : Disk) : Performance :=
  match stop with
  | .failure cause => ⟨engineError, output, ["Error: " ++ cause.message], disk⟩
  | .fault cause => ⟨breakdown, output, [cause.message], disk⟩

/-- The lines that every outcome begins with. -/
def opening (summary : List String) (elapsed : String) : List String :=
  summary ++ ["Finished in " ++ elapsed]

/-- Say what came of an exploration. -/
def conclude (grid : CounterGrid) (outcome : Outcome GridState) (disk : Disk) : Performance :=
  match outcome.summary.lines with
  | .error fault => stopped (.fault fault) (fun _ => []) disk
  | .ok summary =>
      match outcome.verdict with
      | .complete =>
          ⟨success, fun elapsed =>
            opening summary elapsed ++ ["Model checking completed. No error has been found."],
            [], disk⟩
      | .failed _ cause trace =>
          let said (elapsed : String) : List String :=
            opening summary elapsed ++
              ["Error: " ++ cause.message, "The behavior up to this point is:"]
          match Trace.replay grid.model grid.initialStates trace with
          | .error stop => stopped stop said disk
          | .ok states =>
              ⟨modelError, fun elapsed => said elapsed ++ behaviorLines states, [], disk⟩

/-- Explore the counter grid that the flags describe. -/
def exploreGrid (given : Given) (environment : Environment) (disk : Disk) : Performance :=
  match settingsOf given environment with
  | .error cause => stopped (.failure (.settings cause)) (fun _ => []) disk
  | .ok settings =>
      let grid := gridOf given
      let result :=
        Exploration.check settings grid.model grid.initialStates environment.process 0 disk
      let disk := tidy (leftover? given settings result.outcome) result.disk
      match result.outcome with
      | .error stop => stopped stop (fun _ => []) disk
      | .ok outcome => conclude grid outcome disk

/-- Do what a command line asks for. -/
def perform (arguments : List String) (environment : Environment) (disk : Disk) : Performance :=
  match read arguments with
  | .error mistake => ⟨misuse, fun _ => [], [mistake.message], disk⟩
  | .ok (.help topic) => ⟨success, fun _ => topic.lines, [], disk⟩
  | .ok .version => ⟨success, fun _ => [versionLine], [], disk⟩
  | .ok (.grid given) => exploreGrid given environment disk

end Wavefront.CommandLine
