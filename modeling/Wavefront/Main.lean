/-
# The program

The outer layer: it copies what a command may meet onto a disk of the library, lets
`CommandLine.perform` do the work there, writes out what that disk has more than before, and
prints. Nothing is decided here.

The only directory that a command works in is the one for the files of its runs. Every run
makes a new directory there, named after a number that no earlier run can have used, so all
that it may meet are the entries on the way to that place. A relative directory lies below
the working directory.
-/

import Wavefront.CommandLine.Command

namespace Wavefront.Program

/-- The real path of a location below a root. -/
def realPath (root : String) (place : Location) : String := root ++ "/".intercalate place

/-- Copy one real entry onto a disk; a file, which opens and can be read, is copied without
its bytes, and a directory opens but cannot be read. -/
def copyEntry (root : String) (disk : Disk) (place : Location) : IO Disk := do
  match ← (IO.FS.Handle.mk (realPath root place) .read).toBaseIO with
  | .error _ => return disk
  | .ok handle =>
      match ← (handle.read 1).toBaseIO with
      | .ok _ => return (disk.provide ⟨place⟩ []).toOption.getD disk
      | .error _ => return disk.set place .directory

/-- Copy the entries on the way to a directory. -/
def survey (root : String) (directory : Path) : IO Disk :=
  let place := directory.pieces.filter fun piece => !Path.isIdle piece
  let stages := (List.range place.length).map fun count => place.take (count + 1)
  stages.foldlM (copyEntry root) Disk.empty

/-- Write out the entries of a disk that another one does not have. -/
def writeOut (root : String) (before after : Disk) : IO Unit :=
  after.entries.toList.forM fun (place, entry) => do
    if (before.get? place).isNone then
      match entry with
      | .directory => IO.FS.createDirAll (realPath root place)
      | .file _ bytes => IO.FS.writeBinFile (realPath root place) ⟨bytes.toArray⟩

/-- The number of seconds with two decimal places. -/
def seconds (nanos : Nat) : String := Text.pointed (Text.roundHalfEven nanos 10000000) ++ "s"

/-- What a command finds around it. -/
def environment : IO CommandLine.Environment := do
  let temporary ← IO.getEnv "TMPDIR"
  let values ← [Variable.inMemoryPages, .pageSize, .workers].mapM fun setting => do
    return (setting, ← IO.getEnv setting.name)
  return ⟨Path.ofText (temporary.getD "/tmp"), ← IO.monoNanosNow,
    fun setting => (values.lookup setting).join⟩

/-- The directory that a command works in. -/
def directory (arguments : List String) (environment : CommandLine.Environment) : Path :=
  match CommandLine.read arguments with
  | .ok (.grid given) => CommandLine.directoryOf given environment
  | _ => CommandLine.scratchDirectory environment

end Wavefront.Program

open Wavefront in
/-- Do what the arguments ask for; the result is the exit code. -/
def main (arguments : List String) : IO UInt32 := do
  let environment ← Program.environment
  let directory := Program.directory arguments environment
  let root := if directory.pieces.head? = some "" then "/" else "./"
  let disk ← Program.survey root directory
  let started ← IO.monoNanosNow
  let done := CommandLine.perform arguments environment disk
  Program.writeOut root disk done.disk
  let elapsed := Program.seconds ((← IO.monoNanosNow) - started)
  (done.output elapsed).forM fun line => IO.println line
  done.complaint.forM fun line => IO.eprintln line
  return UInt32.ofNat done.exitCode
