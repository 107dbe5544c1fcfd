/-
# The logs of all workers

Links lead from record to record, within a log and from one log to another, so the
logs of a run form a forest whose roots are the initial states. Its logs are kept in
ascending order of their workers, and that of a worker is found by halving.
`Forest.pathTo` climbs from a record to a root and answers with the fingerprints on
the way down. A climb that has visited as many records as there are and is not at a
root goes round in circles.
-/

import Wavefront.Trace.Log

namespace Wavefront

namespace Log

/-- Put a log before the first one whose worker is not before its own. -/
def insertInto (log : Log) : List Log → List Log
  | [] => [log]
  | other :: rest =>
      if log.worker ≤ other.worker then log :: other :: rest else other :: log.insertInto rest

/-- Logs in ascending order of their workers. Logs of the same worker stay in their order. -/
def sort (logs : List Log) : List Log := logs.foldr insertInto []

theorem mem_insertInto {log other : Log} {logs : List Log} :
    other ∈ log.insertInto logs ↔ other = log ∨ other ∈ logs := by
  induction logs with
  | nil => simp [insertInto]
  | cons first rest ih =>
    rw [insertInto]
    split
    · simp
    · rw [List.mem_cons, ih, List.mem_cons]
      exact or_left_comm

theorem ascending_insertInto (log : Log) {logs : List Log}
    (ascending : logs.Pairwise (·.worker ≤ ·.worker)) :
    (log.insertInto logs).Pairwise (·.worker ≤ ·.worker) := by
  induction ascending with
  | nil => exact List.pairwise_singleton _ _
  | @cons first rest before later ih =>
    rw [insertInto]
    split
    · rename_i least
      refine .cons (fun other member => ?_) (.cons before later)
      rcases List.mem_cons.mp member with rfl | among
      · exact least
      · exact UInt16.le_trans least (before other among)
    · rename_i greater
      refine .cons (fun other member => ?_) ih
      rcases mem_insertInto.mp member with rfl | among
      · exact (UInt16.le_total _ _).resolve_right greater
      · exact before other among

theorem ascending_sort (logs : List Log) : (sort logs).Pairwise (·.worker ≤ ·.worker) := by
  induction logs with
  | nil => exact .nil
  | cons log rest ih => exact log.ascending_insertInto ih

end Log

/-- The trace logs of a finished run, in ascending order of their workers. -/
structure Forest where
  logs : List Log
  ascending : logs.Pairwise (·.worker ≤ ·.worker)

namespace Forest

/-- Collect logs that come in any order. -/
def collect (logs : List Log) : Forest := ⟨Log.sort logs, Log.ascending_sort logs⟩

/-- The number of records in all logs. -/
def recordCount (forest : Forest) : Nat := forest.logs.foldr (·.count + ·) 0

/-- Halve a range of `size` workers from a position on until only one is left. It is the given
one, if that is in the range. -/
def search (workers : List UInt16) (worker : UInt16) (base size : Nat)
    (within : base + size ≤ workers.length) : Nat :=
  if more : 1 < size then
    have inside : base + size / 2 < workers.length := by omega
    if worker < workers[base + size / 2] then
      search workers worker base (size - size / 2) (by omega)
    else search workers worker (base + size / 2) (size - size / 2) (by omega)
  else base
termination_by size

/-- The log of a worker: the one where the search ends, if that is the worker's. -/
def log? (forest : Forest) (worker : UInt16) : Option Log :=
  let workers := forest.logs.map Log.worker
  let position := search workers worker 0 workers.length (Nat.le_of_eq (Nat.zero_add _))
  forest.logs[position]?.filter (·.worker == worker)

/-- Replace the log of a worker. -/
def setLog (forest : Forest) (log : Log) : Forest where
  logs := forest.logs.map fun other => if other.worker == log.worker then log else other
  ascending := by
    refine List.pairwise_map.mpr (forest.ascending.imp fun {first second} before => ?_)
    have same (other : Log) :
        (if other.worker == log.worker then log else other).worker = other.worker := by
      split
      · rename_i own
        exact (beq_iff_eq.mp own).symm
      · rfl
    rwa [same, same]

/-- Read the record that a reference names. -/
def read (forest : Forest) (uid : Uid) (disk : Disk) : Except Failure Record × Forest × Disk :=
  match forest.log? uid.worker with
  | none => (.error (.trace uid.worker .noLog), forest, disk)
  | some log =>
      let (result, log, disk) := log.read uid.offset disk
      (result.mapError fun cause => .trace uid.worker (.io cause), forest.setLog log, disk)

/-- Climb from a record to a root, visiting at most `room` records; `below` holds the
fingerprints of those visited before. -/
def climb (target : Uid) :
    (room : Nat) → (current : Uid) → (below : List Fingerprint) → Forest → Disk →
      Except Failure (List Fingerprint) × Forest × Disk
  | 0, current, _, forest, disk => (.error (.trace current.worker (.cycle target)), forest, disk)
  | room + 1, current, below, forest, disk =>
      match forest.read current disk with
      | (.error failure, forest, disk) => (.error failure, forest, disk)
      | (.ok record, forest, disk) =>
          match record.predecessor? with
          | none => (.ok (record.fingerprint :: below), forest, disk)
          | some previous => climb target room previous (record.fingerprint :: below) forest disk

/-- The fingerprints on the way from an initial state to the state of a record. -/
def pathTo (forest : Forest) (target : Uid) (disk : Disk) :
    Except Failure (List Fingerprint) × Forest × Disk :=
  climb target forest.recordCount target [] forest disk

end Forest

end Wavefront
