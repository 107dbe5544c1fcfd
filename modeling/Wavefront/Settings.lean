/-
# Settings of a run

Everything that is fixed when a run starts. Three settings can be overridden from
outside: the memory budget, the page size and the number of workers, read in this
order, and the first override that is no number decides. `validate` looks at the
page size first, at the number of workers second and at the name last.
-/

import Wavefront.Failure

namespace Wavefront

/-- How many nodes a page holds. -/
inductive PageSizing where
  /-- Every page holds the same number. -/
  | fixed (capacity : Nat)
  /-- Pages grow with their number. -/
  | stepped
deriving DecidableEq, Repr

namespace PageSizing

/-- Small pages while the frontier is small, large ones once it has grown. -/
def steppedCapacity (id : Nat) : Nat :=
  if id < 10 then 1
  else if id < 100 then 10
  else if id < 1000 then 10000
  else if id < 10000 then 100000
  else 1000000

/-- The capacity of the page with the given number. -/
def capacity (sizing : PageSizing) (id : Nat) : Nat :=
  match sizing with
  | fixed capacity => capacity
  | stepped => steppedCapacity id

/-- The name of the rule, with the capacity if it is fixed. -/
def text : PageSizing → String
  | fixed capacity => "Fixed(" ++ toString capacity ++ ")"
  | stepped => "Stepped"

end PageSizing

/-- The settings of a run. -/
structure Settings where
  /-- The number of workers asked for; zero asks for one on each core. -/
  workers : Nat
  /-- The number of cores. -/
  cores : Nat
  pageSizing : PageSizing
  /-- Pages up to this number wait in memory, later ones in files. -/
  inMemoryPages : Nat
  /-- The directory that runs make their own directories in. -/
  directory : Path
  /-- The stem of the trace logs' names. -/
  specName : String
  /-- The number of nodes a worker keeps to itself before it shares. -/
  localBacklog : Nat
  /-- The number of polls after which a waiting worker gives up the page it holds. -/
  donationRetries : Nat
  /-- Milliseconds between two looks for a page that is not there yet. -/
  pollMillis : Nat
deriving DecidableEq, Repr

namespace Settings

/-- The settings of a run that asks for nothing in particular. -/
def standard (directory : Path) : Settings where
  workers := 0
  cores := 4
  pageSizing := .stepped
  inMemoryPages := 1000
  directory := directory
  specName := "spec"
  localBacklog := 1024
  donationRetries := 10
  pollMillis := 500

/-- The number of workers of a run. -/
def workerCount (settings : Settings) : Nat :=
  if settings.workers = 0 then settings.cores else settings.workers

/-- The largest number of workers that trace records can name. -/
def workerLimit : Nat := 65535

/-- Whether settings make sense, and if not, the first reason why. -/
def validate (settings : Settings) : Except SettingsError Unit :=
  if settings.pageSizing = .fixed 0 then .error .zeroPageSize
  else if workerLimit < settings.workerCount then .error (.tooManyWorkers settings.workerCount)
  else if (Text.trim settings.specName.toList).isEmpty then .error .emptySpecName
  else .ok ()

/-- The number that an override gives, if there is one. White space around it is ignored. -/
def overrideValue (given : Variable → Option String) (setting : Variable) :
    Except SettingsError (Option Nat) :=
  match given setting with
  | none => .ok none
  | some value =>
      match Text.unsigned? Text.wordLimit (Text.trim value.toList) with
      | none => .error (.notANumber setting value)
      | some number => .ok (some number)

/-- Settings with the overrides applied. -/
def override (settings : Settings) (given : Variable → Option String) :
    Except SettingsError Settings := do
  let pages ← overrideValue given .inMemoryPages
  let settings := { settings with inMemoryPages := pages.getD settings.inMemoryPages }
  let size ← overrideValue given .pageSize
  let settings := { settings with
    pageSizing := (size.map PageSizing.fixed).getD settings.pageSizing }
  let workers ← overrideValue given .workers
  return { settings with workers := workers.getD settings.workers }

end Settings

end Wavefront
