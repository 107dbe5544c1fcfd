/-
# What ends an exploration

Two kinds of event stop the engine. A `Failure` is an error that it reports: a
page or a trace log that cannot be used, a model that cannot be evaluated or is
violated, settings that make no sense. A `Fault` is a broken promise inside the
engine or the model, which aborts the worker that notices it. Both are causes;
their texts are made here and nowhere else.
-/

import Wavefront.Identity

namespace Wavefront

/-- A setting that the environment can override. -/
inductive Variable where
  | inMemoryPages
  | pageSize
  | workers
deriving DecidableEq, Repr

namespace Variable

/-- The name of the variable in the environment. -/
def name : Variable → String
  | inMemoryPages => "TLA_EXPLORE_IN_MEMORY_PAGES"
  | pageSize => "TLA_EXPLORE_PAGE_SIZE"
  | workers => "TLA_EXPLORE_WORKERS"

end Variable

/-- Why settings cannot be used. -/
inductive SettingsError where
  | zeroPageSize
  | tooManyWorkers (requested : Nat)
  | emptySpecName
  | notANumber (setting : Variable) (value : String)
deriving DecidableEq, Repr

namespace SettingsError

/-- The text of a settings error. -/
def message : SettingsError → String
  | zeroPageSize => "page size must be at least 1"
  | tooManyWorkers requested => toString requested ++ " workers requested (expected <= 65535)"
  | emptySpecName => "spec name must not be empty"
  | notANumber setting value =>
      setting.name ++ "=" ++ Text.quote value ++ " is not a valid number"

end SettingsError

/-- Why a page file or a trace log cannot be used. -/
inductive Reason where
  /-- Reading or writing failed. -/
  | io (cause : IoError)
  /-- A page file claims no nodes, or more than the page can hold. -/
  | nodeCount (page found capacity : Nat)
  /-- One of the nodes of a page file cannot be decoded. -/
  | node (index count : Nat) (cause : IoError)
  /-- No worker of that number kept a trace log. -/
  | noLog
  /-- More records were visited than there are. -/
  | cycle (target : Uid)
deriving DecidableEq, Repr

namespace Reason

/-- The text of a reason. -/
def message : Reason → String
  | io cause => cause.message
  | nodeCount page found capacity =>
      "page " ++ toString page ++ " holds " ++ toString found ++ " states, capacity is " ++
        toString capacity
  | node index count cause =>
      "state " ++ toString index ++ " of " ++ toString count ++ ": " ++ cause.message
  | noLog => "no trace log for worker"
  | cycle target => "predecessor cycle reached from " ++ target.text

end Reason

/-- Why successors could not be computed or a path could not be followed. -/
inductive ExpansionError where
  /-- The model says why. -/
  | model (text : String)
  /-- A path begins with a fingerprint that no initial state has. -/
  | noInitialState (wanted : Fingerprint)
  /-- A path goes on with a fingerprint that no successor has. -/
  | noSuccessor (step : Nat) (wanted : Fingerprint)
deriving DecidableEq, Repr

namespace ExpansionError

/-- The text of an expansion error. -/
def message : ExpansionError → String
  | model text => text
  | noInitialState wanted => "no initial state has fingerprint " ++ wanted.text
  | noSuccessor step wanted =>
      "step " ++ toString step ++ ": no successor has fingerprint " ++ wanted.text

end ExpansionError

/-- Operations that the frontier names but does not offer. -/
inductive Reserved where
  | suspend
  | resume
deriving DecidableEq, Repr

namespace Reserved

/-- The name of a reserved operation. -/
def name : Reserved → String
  | suspend => "suspend_all"
  | resume => "resume_all"

end Reserved

/-- An error that ends a run. -/
inductive Failure where
  | pageRead (path : Path) (reason : Reason)
  | pageWrite (path : Path) (reason : Reason)
  | trace (worker : UInt16) (reason : Reason)
  | unsupported (operation : Reserved)
  | expansion (cause : ExpansionError)
  | violation (text : String)
  | settings (cause : SettingsError)
  | io (cause : IoError)
deriving DecidableEq, Repr

namespace Failure

/-- The text of a failure. -/
def message : Failure → String
  | pageRead path reason => "error reading states from " ++ path.text ++ ": " ++ reason.message
  | pageWrite path reason => "error writing states to " ++ path.text ++ ": " ++ reason.message
  | trace worker reason =>
      "trace log of worker " ++ toString worker.toNat ++ ": " ++ reason.message
  | unsupported operation => operation.name ++ " is not supported"
  | expansion cause => "error computing successors: " ++ cause.message
  | violation text => "property violated: " ++ text
  | settings cause => "invalid configuration: " ++ cause.message
  | io cause => "I/O error: " ++ cause.message

/-- Whether the model found a property violated, rather than anything having failed. -/
def isViolation : Failure → Bool
  | violation _ => true
  | _ => false

/-- Whether the model raised the failure, be it a violation or not. -/
def isOfModel : Failure → Bool
  | violation _ => true
  | expansion _ => true
  | _ => false

end Failure

/-- A broken promise, which aborts the worker that notices it. -/
inductive Fault where
  | pageOverflow (page capacity : Nat)
  | emptyPage (page : Nat)
  | enqueuedTwice (page : Nat)
  | exhaustedWhileHolding
  | discardedWhileLive
  | additionOverflow
  | multiplicationOverflow
  /-- A worker broke down whose end nobody waited for in particular. -/
  | abandonedWorker
  /-- The model itself broke down. -/
  | model (text : String)
deriving DecidableEq, Repr

namespace Fault

/-- The text of a fault. -/
def message : Fault → String
  | pageOverflow page capacity =>
      "page " ++ toString page ++ " overflow: capacity is " ++ toString capacity
  | emptyPage page => "enqueued empty page " ++ toString page
  | enqueuedTwice page => "page " ++ toString page ++ " enqueued twice"
  | exhaustedWhileHolding => "exhausted while holding a page"
  | discardedWhileLive => "pages discarded while the queue is live"
  | additionOverflow => "attempt to add with overflow"
  | multiplicationOverflow => "attempt to multiply with overflow"
  | abandonedWorker => "a scoped thread panicked"
  | model text => text

end Fault

/-- Whatever ends an operation early. -/
inductive Stop where
  | failure (cause : Failure)
  | fault (cause : Fault)
deriving DecidableEq, Repr

end Wavefront
