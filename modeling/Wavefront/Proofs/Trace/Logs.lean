/-
# What trace logs hold

A log holds the records that were appended to it, in order: those already in the file and
after them those that are pending. Appending adds a record at the end, flushing changes
nothing, and reading at the offset of a record gives that record. The same is then said
for the logs of several workers, which lie in different files.
-/

import Mathlib.Data.List.Basic
import Mathlib.Data.List.Nodup
import Wavefront.Proofs.Disk.Operations
import Wavefront.Proofs.Parties
import Wavefront.Proofs.Trace.Forest

namespace Wavefront

namespace Record

/-- Records are written one after another, each with the same width. -/
theorem length_flatMap_encode (records : List Record) :
    (records.flatMap encode).length = width * records.length := by
  induction records with
  | nil => rfl
  | cons record rest ih =>
    rw [List.flatMap_cons, List.length_append, ih, length_encode, List.length_cons, Nat.mul_succ,
      Nat.add_comm]

/-- Leaving out the bytes of some records leaves the others. -/
theorem drop_flatMap_encode (records : List Record) (count : Nat) :
    (records.flatMap encode).drop (width * count) = (records.drop count).flatMap encode := by
  induction count generalizing records with
  | zero => simp
  | succ count ih =>
    cases records with
    | nil => simp
    | cons record rest =>
      have skip : width * (count + 1) = record.encode.length + width * count := by
        rw [length_encode, Nat.mul_succ, Nat.add_comm]
      rw [List.flatMap_cons, skip, List.drop_length_add_append, ih, List.drop_succ_cons]

/-- A record is found at its offset. -/
theorem decode_drop {records : List Record} {index : Nat} {record : Record}
    (found : records[index]? = some record) :
    ∃ rest, decode ((records.flatMap encode).drop (width * index)) = .ok (record, rest) := by
  obtain ⟨within, rfl⟩ := List.getElem?_eq_some_iff.mp found
  rw [drop_flatMap_encode, List.drop_eq_getElem_cons within, List.flatMap_cons]
  exact ⟨_, decode_encode _ _⟩

/-- All records that were written are read back. -/
theorem decodeAll_flatMap_encode (records : List Record) :
    decodeAll (records.flatMap encode) = records := by
  have counted : (records.flatMap encode).length / width = records.length := by
    rw [length_flatMap_encode]
    exact Nat.mul_div_cancel_left _ (by decide)
  rw [decodeAll, counted]
  clear counted
  induction records with
  | nil => rfl
  | cons record rest ih =>
    simp only [List.length_cons, List.flatMap_cons, decodeAll.go, decode_encode, ih]

theorem toNat_offset {index : Nat} (small : width * index < 2 ^ 64) :
    (UInt64.ofNat (width * index)).toNat = width * index := by
  rw [UInt64.toNat_ofNat']
  exact Nat.mod_eq_of_lt small

end Record

namespace Log

/-- All records of a log: those in its file, as they are read from there, and those pending. -/
def contents (log : Log) (disk : Disk) : List Record :=
  recordsAt log.path disk ++ log.pending.reverse

variable {log : Log} {disk after : Disk} {records : List Record} {record : Record}

/-- A log holds the given records: in its file, which its path leads to, all but the last ones,
and the last ones pending. -/
structure Holds (log : Log) (disk : Disk) (records : List Record) : Prop where
  count : log.count = records.length
  located : disk.locate log.path = .ok log.handle.place
  file : ∃ written, records = written ++ log.pending.reverse ∧
    disk.get? log.handle.place = some (.file log.handle.stamp (written.flatMap Record.encode))

/-- A log backs the given records: its file, which its path leads to, has all but the last ones,
these are pending, and some of their bytes may be in the file already. -/
structure Backs (log : Log) (disk : Disk) (records : List Record) : Prop where
  count : log.count = records.length
  located : disk.locate log.path = .ok log.handle.place
  file : ∃ written early, records = written ++ log.pending.reverse ∧ early <+: log.pendingBytes ∧
    disk.get? log.handle.place =
      some (.file log.handle.stamp (written.flatMap Record.encode ++ early))

theorem changes_flush (log : Log) (disk : Disk) :
    disk.Changes (· = log.handle.place) (log.flush disk).2 := by
  unfold flush
  split
  · exact .refl _ _
  · exact Disk.changes_writeAt _ _ _ _

@[simp]
theorem handle_flush (log : Log) (disk : Disk) : (log.flush disk).1.handle = log.handle := by
  unfold flush
  split <;> rfl

@[simp]
theorem worker_flush (log : Log) (disk : Disk) : (log.flush disk).1.worker = log.worker := by
  unfold flush
  split <;> rfl

@[simp]
theorem path_flush (log : Log) (disk : Disk) : (log.flush disk).1.path = log.path := by
  unfold flush
  split <;> rfl

@[simp]
theorem count_flush (log : Log) (disk : Disk) : (log.flush disk).1.count = log.count := by
  unfold flush
  split <;> rfl

@[simp]
theorem pending_flush (log : Log) (disk : Disk) : (log.flush disk).1.pending = [] := by
  unfold flush
  split
  · assumption
  · rfl

namespace Backs

theorem of_holds (holds : log.Holds disk records) : log.Backs disk records where
  count := holds.count
  located := holds.located
  file := by
    obtain ⟨written, same, stored⟩ := holds.file
    exact ⟨written, [], same, List.nil_prefix, by rw [stored, List.append_nil]⟩

/-- Pending bytes that are written, all of them or only the first, come after those of the
records in the file. -/
theorem get?_writeAt (backs : log.Backs disk records) {new : Bytes}
    (some : new <+: log.pendingBytes) :
    ∃ written longer, records = written ++ log.pending.reverse ∧ longer <+: log.pendingBytes ∧
      new <+: longer ∧ (disk.writeAt log.handle log.flushedSize new).get? log.handle.place =
        .some (.file log.handle.stamp (written.flatMap Record.encode ++ longer)) := by
  obtain ⟨written, early, same, begun, stored⟩ := backs.file
  obtain ⟨longer, within, covers, laid⟩ :=
    Disk.overlay_of_isPrefix (written.flatMap Record.encode) begun some
  refine ⟨written, longer, same, within, covers, ?_⟩
  have position : log.flushedSize = (written.flatMap Record.encode).length := by
    rw [flushedSize, backs.count, same, List.length_append, List.length_reverse,
      Nat.add_sub_cancel, Record.length_flatMap_encode]
  simp only [Disk.writeAt, stored, if_true, position, laid]
  exact Disk.get?_set_self (Disk.ne_nil_of_get?_eq_file stored) disk _

/-- After flushing all records are in the file, and nothing else. -/
theorem flush (backs : log.Backs disk records) :
    (log.flush disk).1.Holds (log.flush disk).2 records := by
  refine ⟨?_, ?_, records, ?_, ?_⟩
  · rw [count_flush, backs.count]
  · rw [path_flush, handle_flush]
    exact (log.changes_flush disk).locate_iff.mpr backs.located
  · rw [pending_flush, List.reverse_nil, List.append_nil]
  · rw [handle_flush, Log.flush]
    split
    · rename_i none
      obtain ⟨written, early, same, begun, stored⟩ := backs.file
      rw [pendingBytes, none] at begun
      rw [none, List.reverse_nil, List.append_nil] at same
      rw [stored, same, List.prefix_nil.mp begun, List.append_nil]
    · obtain ⟨written, longer, same, within, covers, stored⟩ := backs.get?_writeAt List.prefix_rfl
      rw [stored, same, List.flatMap_append, ← pendingBytes,
        within.eq_of_length_le covers.length_le]

end Backs

namespace Holds

theorem of_changes {touched : Location → Prop} (holds : log.Holds disk records)
    (changes : disk.Changes touched after) (apart : ¬ touched log.handle.place) :
    log.Holds after records where
  count := holds.count
  located := changes.locate_iff.mpr holds.located
  file := by
    rw [changes.elsewhere _ apart]
    exact holds.file

theorem append (holds : log.Holds disk records) (record : Record) :
    (log.append record).2.Holds disk (records ++ [record]) := by
  obtain ⟨written, same, stored⟩ := holds.file
  refine ⟨?_, holds.located, written, ?_, stored⟩
  · simp [Log.append, holds.count]
  · simp [Log.append, same]

/-- After flushing all records are in the file. -/
theorem flush (holds : log.Holds disk records) :
    (log.flush disk).1.Holds (log.flush disk).2 records ∧
      (log.flush disk).2.get? log.handle.place =
        some (.file log.handle.stamp (records.flatMap Record.encode)) := by
  have flushed := (Backs.of_holds holds).flush
  refine ⟨flushed, ?_⟩
  obtain ⟨written, same, stored⟩ := flushed.file
  rw [pending_flush, List.reverse_nil, List.append_nil] at same
  rwa [handle_flush, ← same] at stored

theorem contents_eq (holds : log.Holds disk records) : log.contents disk = records := by
  obtain ⟨written, same, stored⟩ := holds.file
  have bytes := Disk.read_eq_ok_iff.mpr ⟨_, _, holds.located, stored⟩
  rw [contents, recordsAt, bytes, same]
  simp [Except.toOption, Record.decodeAll_flatMap_encode]

/-- Reading at the offset of a record gives the record. -/
theorem read (holds : log.Holds disk records) {index : Nat}
    (found : records[index]? = some record) (small : Record.width * index < 2 ^ 64) :
    log.read (UInt64.ofNat (Record.width * index)) disk =
      (.ok record, (log.flush disk).1, (log.flush disk).2) := by
  obtain ⟨flushed, stored⟩ := holds.flush
  have offset := Record.toNat_offset small
  have within : index < records.length := (List.getElem?_eq_some_iff.mp found).1
  have inside : ¬(Record.width * index % Record.width ≠ 0 ∨ log.size ≤ Record.width * index) := by
    rw [size, holds.count, Nat.mul_mod_right]
    have more : Record.width * index < Record.width * records.length :=
      Nat.mul_lt_mul_of_pos_left within (by decide)
    omega
  have bytes : (log.flush disk).2.read (log.flush disk).1.path =
      .ok (records.flatMap Record.encode) := by
    have located := flushed.located
    rw [handle_flush] at located
    exact Disk.read_eq_ok_iff.mpr ⟨_, _, located, stored⟩
  obtain ⟨rest, decoded⟩ := Record.decode_drop found
  simp only [Log.read, offset, if_neg inside, bytes, decoded, Except.map]

end Holds

/-! ## Several logs -/

/-- A location where one of several logs lies. -/
def Lies (logs : List Log) (target : Location) : Prop := ∃ log ∈ logs, target = log.handle.place

/-- Whose log it is and where it lies. -/
def name (log : Log) : UInt16 × Path := (log.worker, log.path)

/-- Several logs hold the records that a table has for their workers, in different files. -/
structure Hold (logs : List Log) (disk : Disk) (table : UInt16 → List Record) : Prop where
  holds : ∀ log ∈ logs, log.Holds disk (table log.worker)
  workers : (logs.map Log.worker).Nodup
  places : (logs.map (·.handle.place)).Nodup

namespace Hold

variable {logs : List Log} {forest : Forest} {table : UInt16 → List Record}

theorem of_changes {touched : Location → Prop} (hold : Hold logs disk table)
    (changes : disk.Changes touched after) (apart : ∀ log ∈ logs, ¬ touched log.handle.place) :
    Hold logs after table where
  holds log member := (hold.holds log member).of_changes changes (apart log member)
  workers := hold.workers
  places := hold.places

theorem perm {others : List Log} (hold : Hold logs disk table) (same : others.Perm logs) :
    Hold others disk table where
  holds log member := hold.holds log (same.mem_iff.mp member)
  workers := (same.map _).nodup_iff.mpr hold.workers
  places := (same.map _).nodup_iff.mpr hold.places

theorem collect (hold : Hold logs disk table) : Hold (Forest.collect logs).logs disk table :=
  hold.perm (Forest.perm_collect logs)

/-- A log that is replaced by one that has the same file leaves the others alone. -/
theorem set {log next : Log} {position : Nat} {table' : UInt16 → List Record}
    (hold : Hold logs disk table) (found : logs[position]? = some log)
    (changes : disk.Changes (· = log.handle.place) after)
    (worker : next.worker = log.worker) (handle : next.handle = log.handle)
    (holds : next.Holds after (table' next.worker))
    (others : ∀ other, other ≠ log.worker → table' other = table other) :
    Hold (logs.set position next) after table' := by
  have before := perm_cons_others found
  have now : (logs.set position next).Perm (next :: logs.eraseIdx position) :=
    set_perm_cons_others found
  have workers := (before.map Log.worker).nodup_iff.mp hold.workers
  have places := (before.map (·.handle.place)).nodup_iff.mp hold.places
  simp only [List.map_cons] at workers places
  refine ⟨fun other member => ?_, (now.map _).nodup_iff.mpr ?_, (now.map _).nodup_iff.mpr ?_⟩
  · rcases List.mem_cons.mp (now.mem_iff.mp member) with rfl | old
    · exact holds
    · have otherWorker : other.worker ≠ log.worker := fun same =>
        (List.nodup_cons.mp workers).1 (List.mem_map.mpr ⟨other, old, same⟩)
      have otherPlace : other.handle.place ≠ log.handle.place := fun same =>
        (List.nodup_cons.mp places).1 (List.mem_map.mpr ⟨other, old, same⟩)
      rw [others _ otherWorker]
      exact (hold.holds other (List.mem_of_mem_eraseIdx old)).of_changes changes otherPlace
  · rw [List.map_cons, worker]
    exact workers
  · rw [List.map_cons, handle]
    exact places

/-- Replacing a log by one like it does not change what is alike about it. -/
theorem map_setLog {α : Type} {next : Log} {feature : Log → α}
    (alike : ∀ log ∈ forest.logs, log.worker = next.worker → feature log = feature next) :
    (forest.setLog next).logs.map feature = forest.logs.map feature := by
  rw [Forest.setLog, List.map_map]
  apply List.map_congr_left
  intro log member
  simp only [Function.comp_apply]
  split
  · rename_i same
    exact (alike log member (beq_iff_eq.mp same)).symm
  · rfl

/-- Replacing a log by itself changes nothing. -/
theorem setLog_eq_self (hold : Hold forest.logs disk table) {log : Log}
    (member : log ∈ forest.logs) : forest.setLog log = forest := by
  have same := @map_setLog forest _ log id fun other among alike =>
    List.inj_on_of_nodup_map hold.workers among member alike
  rw [List.map_id, List.map_id] at same
  exact Forest.eq_of_logs same

/-- Bringing one of several logs up to date leaves them with the same records. -/
theorem setLog_flush (hold : Hold forest.logs disk table) {log : Log}
    (member : log ∈ forest.logs) :
    Hold (forest.setLog (log.flush disk).1).logs (log.flush disk).2 table ∧
      (forest.setLog (log.flush disk).1).logs.map Log.name = forest.logs.map Log.name := by
  have unique : ∀ other ∈ forest.logs, other.worker = log.worker → other = log :=
    fun other among alike => List.inj_on_of_nodup_map hold.workers among member alike
  refine ⟨⟨?_, ?_, ?_⟩, ?_⟩
  · intro other among
    obtain ⟨old, there, rfl⟩ := List.mem_map.mp among
    split
    · rw [worker_flush]
      exact (hold.holds log member).flush.1
    · rename_i apart
      refine (hold.holds old there).of_changes (log.changes_flush _) fun same => apart ?_
      have twice := List.inj_on_of_nodup_map hold.places there member same
      simp [twice]
  · rw [map_setLog]
    · exact hold.workers
    · intro other among alike
      rw [alike, worker_flush]
  · rw [map_setLog]
    · exact hold.places
    · intro other among alike
      rw [unique other among (alike.trans (worker_flush _ _)), handle_flush]
  · apply map_setLog
    intro other among alike
    rw [unique other among (alike.trans (worker_flush _ _)), name, name, worker_flush, path_flush]

/-- Reading leaves logs with the same records, whether it succeeds or not. -/
theorem of_read (hold : Hold forest.logs disk table) {uid : Uid} {result : Except Failure Record}
    {later : Forest} {final : Disk} (read : forest.read uid disk = (result, later, final)) :
    Hold later.logs final table ∧ later.logs.map Log.name = forest.logs.map Log.name := by
  unfold Forest.read at read
  cases found : forest.log? uid.worker with
  | none =>
    simp only [found, Prod.mk.injEq] at read
    obtain ⟨-, rfl, rfl⟩ := read
    exact ⟨hold, rfl⟩
  | some log =>
    obtain ⟨member, -⟩ := Forest.of_log? found
    simp only [found, Log.read] at read
    split at read
    · simp only [Prod.mk.injEq] at read
      obtain ⟨-, rfl, rfl⟩ := read
      rw [hold.setLog_eq_self member]
      exact ⟨hold, rfl⟩
    · split at read <;>
      · simp only [Prod.mk.injEq] at read
        obtain ⟨-, rfl, rfl⟩ := read
        exact hold.setLog_flush member

/-- Climbing leaves logs with the same records. -/
theorem of_climb (hold : Hold forest.logs disk table) {target current : Uid} {room : Nat}
    {below : List Fingerprint} {result : Except Failure (List Fingerprint)} {later : Forest}
    {final : Disk}
    (climbed : Forest.climb target room current below forest disk = (result, later, final)) :
    Hold later.logs final table ∧ later.logs.map Log.name = forest.logs.map Log.name := by
  induction room generalizing current below forest disk with
  | zero =>
    simp only [Forest.climb, Prod.mk.injEq] at climbed
    obtain ⟨-, rfl, rfl⟩ := climbed
    exact ⟨hold, rfl⟩
  | succ room ih =>
    rcases read : forest.read current disk with ⟨failure | record, forest', disk'⟩
    · simp only [Forest.climb, read, Prod.mk.injEq] at climbed
      obtain ⟨-, rfl, rfl⟩ := climbed
      exact hold.of_read read
    · obtain ⟨after, same⟩ := hold.of_read read
      simp only [Forest.climb, read] at climbed
      split at climbed
      · simp only [Prod.mk.injEq] at climbed
        obtain ⟨-, rfl, rfl⟩ := climbed
        exact ⟨after, same⟩
      · obtain ⟨last, alike⟩ := ih after climbed
        exact ⟨last, alike.trans same⟩

/-- Any record can be read by its reference, and reading leaves the logs with the same records. -/
theorem read (hold : Hold forest.logs disk table) {uid : Uid} {index : Nat}
    (known : uid.worker ∈ forest.logs.map Log.worker)
    (found : (table uid.worker)[index]? = some record)
    (offset : uid.offset = UInt64.ofNat (Record.width * index))
    (small : Record.width * index < 2 ^ 64) :
    ∃ later final, forest.read uid disk = (.ok record, later, final) ∧
      Hold later.logs final table ∧
      later.logs.map Log.worker = forest.logs.map Log.worker := by
  obtain ⟨log, member, same⟩ := List.mem_map.mp known
  have gives := (hold.holds log member).read (same ▸ found) small
  have here := Forest.log?_eq_some hold.workers member
  rw [same] at here
  have reading : forest.read uid disk = (.ok record,
      forest.setLog (log.flush disk).1, (log.flush disk).2) := by
    simp only [Forest.read, here, offset, gives, Except.mapError]
  obtain ⟨later, alike⟩ := hold.of_read reading
  refine ⟨_, _, reading, later, ?_⟩
  simpa [name, Function.comp_def] using congrArg (List.map Prod.fst) alike

/-- Bringing all logs up to date touches their files only. -/
theorem changes_flushAll (logs : List Log) (disk : Disk) :
    disk.Changes (Lies logs) (flushAll logs disk) := by
  induction logs generalizing disk with
  | nil => exact .refl _ _
  | cons log rest ih =>
    apply ((log.changes_flush disk).mono ?_).trans ((ih _).mono ?_)
    · rintro _ rfl
      exact ⟨log, List.mem_cons_self, rfl⟩
    · rintro _ ⟨other, member, rfl⟩
      exact ⟨other, List.mem_cons_of_mem _ member, rfl⟩

/-- When all logs have been brought up to date, their files hold their records. -/
theorem read_flushAll (hold : Hold logs disk table) :
    ∀ log ∈ logs, (flushAll logs disk).read log.path =
      .ok ((table log.worker).flatMap Record.encode) := by
  induction logs generalizing disk with
  | nil => simp
  | cons first rest ih =>
    have others := List.nodup_cons.mp hold.places
    have apart : ∀ log ∈ rest, log.handle.place ≠ first.handle.place := by
      intro log member same
      exact others.1 (List.mem_map.mpr ⟨log, member, same⟩)
    obtain ⟨flushed, whole⟩ := (hold.holds first List.mem_cons_self).flush
    have changes := changes_flushAll rest (first.flush disk).2
    intro log member
    rcases List.mem_cons.mp member with rfl | later
    · have located := flushed.located
      rw [path_flush, handle_flush] at located
      have kept := changes.elsewhere log.handle.place fun ⟨other, among, same⟩ =>
        apart other among same.symm
      exact Disk.read_eq_ok_iff.mpr
        ⟨_, _, changes.locate_iff.mpr located, kept.trans whole⟩
    · refine ih ⟨fun other among => ?_, (List.nodup_cons.mp hold.workers).2, others.2⟩ log later
      exact (hold.holds other (List.mem_cons_of_mem _ among)).of_changes (first.changes_flush disk)
        (apart other among)

end Hold

end Log

/-! ## What reading touches -/

namespace Forest

variable {forest later : Forest} {uid target : Uid} {disk final : Disk}

theorem lies_setLog {log next : Log} {place : Location} (member : log ∈ forest.logs)
    (handle : next.handle = log.handle) (lies : Log.Lies (forest.setLog next).logs place) :
    Log.Lies forest.logs place := by
  obtain ⟨other, among, rfl⟩ := lies
  obtain ⟨old, there, rfl⟩ := List.mem_map.mp among
  split
  · exact ⟨log, member, by rw [handle]⟩
  · exact ⟨old, there, rfl⟩

/-- Reading a record may bring a log up to date, and leaves every log where it lies. -/
theorem changes_read {result : Except Failure Record}
    (read : forest.read uid disk = (result, later, final)) :
    disk.Changes (Log.Lies forest.logs) final ∧
      ∀ place, Log.Lies later.logs place → Log.Lies forest.logs place := by
  unfold Forest.read at read
  cases found : forest.log? uid.worker with
  | none =>
    simp only [found, Prod.mk.injEq] at read
    obtain ⟨-, rfl, rfl⟩ := read
    exact ⟨.refl _ _, fun _ => id⟩
  | some log =>
    obtain ⟨member, -⟩ := of_log? found
    have flushed := (log.changes_flush disk).mono fun target here =>
      (⟨log, member, here⟩ : Log.Lies forest.logs target)
    simp only [found, Log.read] at read
    split at read
    · simp only [Prod.mk.injEq] at read
      obtain ⟨-, rfl, rfl⟩ := read
      exact ⟨.refl _ _, fun _ => lies_setLog member rfl⟩
    · split at read <;>
      · simp only [Prod.mk.injEq] at read
        obtain ⟨-, rfl, rfl⟩ := read
        exact ⟨flushed, fun _ => lies_setLog member (log.handle_flush disk)⟩

/-- Climbing brings logs up to date at most. -/
theorem changes_climb {current : Uid} {room : Nat} {below : List Fingerprint}
    {result : Except Failure (List Fingerprint)}
    (climbed : climb target room current below forest disk = (result, later, final)) :
    disk.Changes (Log.Lies forest.logs) final ∧
      ∀ place, Log.Lies later.logs place → Log.Lies forest.logs place := by
  induction room generalizing current below forest disk with
  | zero =>
    simp only [climb, Prod.mk.injEq] at climbed
    obtain ⟨-, rfl, rfl⟩ := climbed
    exact ⟨.refl _ _, fun _ => id⟩
  | succ room ih =>
    rcases read : forest.read current disk with ⟨failure | record, forest', disk'⟩
    · simp only [climb, read, Prod.mk.injEq] at climbed
      obtain ⟨-, rfl, rfl⟩ := climbed
      exact changes_read read
    · obtain ⟨changes, stays⟩ := changes_read read
      simp only [climb, read] at climbed
      split at climbed
      · simp only [Prod.mk.injEq] at climbed
        obtain ⟨-, rfl, rfl⟩ := climbed
        exact ⟨changes, stays⟩
      · obtain ⟨more, still⟩ := ih climbed
        exact ⟨changes.trans (more.mono stays), fun place lies => stays place (still place lies)⟩

end Forest

end Wavefront
