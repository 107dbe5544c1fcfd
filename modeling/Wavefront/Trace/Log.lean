/-
# Trace logs

Every worker keeps a log of its own, to which it appends one record for each state
that it discovers first. Records are gathered before they are written to the file,
so the file may be behind; it is brought up to date by `flush`, and before
anything is read. A record is read from the file, through the path, so a file that
somebody else has changed shows.
-/

import Wavefront.Disk.Basic
import Wavefront.Failure
import Wavefront.Trace.Record

namespace Wavefront

/-- The trace log of one worker. -/
structure Log where
  worker : UInt16
  path : Path
  handle : Disk.Handle
  /-- The number of records appended so far. -/
  count : Nat
  /-- The records that are not in the file yet, the latest first. -/
  pending : List Record

namespace Log

/-- The name of a worker's log. -/
def fileName (specName : String) (worker : UInt16) : String :=
  specName ++ "-" ++ toString worker.toNat ++ ".trace"

/-- Make an empty log for a worker. -/
def create (directory : Path) (specName : String) (worker : UInt16) (disk : Disk) :
    Except IoError (Log × Disk) :=
  let path := directory.join (fileName specName worker)
  match disk.create path with
  | .error cause => .error cause
  | .ok (handle, disk) => .ok (⟨worker, path, handle, 0, []⟩, disk)

/-- The offset at which the next record goes. -/
def size (log : Log) : Nat := Record.width * log.count

/-- Append a record; the answer is the reference to it. -/
def append (log : Log) (record : Record) : Uid × Log :=
  (⟨log.worker, UInt64.ofNat log.size⟩,
    { log with count := log.count + 1, pending := record :: log.pending })

/-- Append the record of an initial state. -/
def appendInitial (log : Log) (fingerprint : Fingerprint) : Uid × Log :=
  log.append (.initial log.worker fingerprint)

/-- The bytes that are not in the file yet. -/
def pendingBytes (log : Log) : Bytes := log.pending.reverse.flatMap Record.encode

/-- The length of what has been written to the file. -/
def flushedSize (log : Log) : Nat := Record.width * (log.count - log.pending.length)

/-- Bring the file up to date. -/
def flush (log : Log) (disk : Disk) : Log × Disk :=
  match log.pending with
  | [] => (log, disk)
  | _ => ({ log with pending := [] }, disk.writeAt log.handle log.flushedSize log.pendingBytes)

/-- Read the record at an offset. -/
def read (log : Log) (offset : UInt64) (disk : Disk) : Except IoError Record × Log × Disk :=
  if offset.toNat % Record.width ≠ 0 ∨ log.size ≤ offset.toNat then
    (.error (.noRecord offset log.path), log, disk)
  else
    let (log, disk) := log.flush disk
    match disk.read log.path with
    | .error cause => (.error cause, log, disk)
    | .ok bytes => ((Record.decode (bytes.drop offset.toNat)).map (·.1), log, disk)

/-- Bring the files of several logs up to date. -/
def flushAll : List Log → Disk → Disk
  | [], disk => disk
  | log :: rest, disk => flushAll rest (log.flush disk).2

/-- The records in the file at a path; an unreadable file has none. -/
def recordsAt (path : Path) (disk : Disk) : List Record :=
  Record.decodeAll ((disk.read path).toOption.getD [])

/-- The reference to an appended record names the log and the place after all others. -/
theorem append_fst (log : Log) (record : Record) :
    (log.append record).1 = ⟨log.worker, UInt64.ofNat log.size⟩ := rfl

end Log

end Wavefront
