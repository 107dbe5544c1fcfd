/-
# A log is an array that only grows

Whoever uses one log asks it to record states, to bring its file up to date, and for what
is recorded at an offset. Records reach the file late and in pieces, and a reader goes to
the file; still every answer is the one that a list of records would give to which nothing
ever happens but that a record is put at its end. So readers and flushes leave no trace in
later answers, and once the file is up to date it is the records one after another.
-/

import Wavefront.Proofs.Exploration.Launch

namespace Wavefront

/-! ## Requests and answers -/

/-- What a record says: where its state was reached from, if from anywhere, and its
fingerprint. -/
abbrev Note := Option Uid × Fingerprint

/-- What is read back of a record. -/
def Record.note (record : Record) : Note := (record.predecessor?, record.fingerprint)

namespace Log

/-- What a log is asked. -/
inductive Request where
  | recordInitial (fingerprint : Fingerprint)
  | recordState (predecessor : Uid) (fingerprint : Fingerprint)
  | flush
  | read (offset : UInt64)
  | predecessorOf (offset : UInt64)
  | fingerprintOf (offset : UInt64)

/-- What a log answers. -/
inductive Answer where
  | recorded (uid : Uid)
  | flushed
  | read (result : Except IoError Note)
  | predecessor (result : Except IoError (Option Uid))
  | fingerprint (result : Except IoError Fingerprint)

/-- A log answers a request. -/
def answer (log : Log) (disk : Disk) : Request → Answer × Log × Disk
  | .recordInitial fingerprint =>
      (.recorded (log.appendInitial fingerprint).1, (log.appendInitial fingerprint).2, disk)
  | .recordState predecessor fingerprint =>
      (.recorded (log.append ⟨predecessor, fingerprint⟩).1,
        (log.append ⟨predecessor, fingerprint⟩).2, disk)
  | .flush => (.flushed, log.flush disk)
  | .read offset => (.read ((log.read offset disk).1.map Record.note), (log.read offset disk).2)
  | .predecessorOf offset =>
      (.predecessor ((log.read offset disk).1.map Record.predecessor?), (log.read offset disk).2)
  | .fingerprintOf offset =>
      (.fingerprint ((log.read offset disk).1.map Record.fingerprint), (log.read offset disk).2)

/-- What may happen to the disk before the next request: somebody changes it elsewhere, or the
first so many of the pending bytes get into the file on their own. -/
inductive Meanwhile (log : Log) (disk : Disk) : Disk → Prop
  | elsewhere {after : Disk} (located : after.locate log.path = disk.locate log.path)
      (kept : after.get? log.handle.place = disk.get? log.handle.place) :
      Meanwhile log disk after
  | early (count : Nat) :
      Meanwhile log disk (disk.writeAt log.handle log.flushedSize (log.pendingBytes.take count))

/-- A log answers one request after another while time passes, and in the end the log and the
disk are the last two. -/
inductive Course : Log → Disk → List Request → List Answer → Log → Disk → Prop
  | done {log : Log} {disk : Disk} : Course log disk [] [] log disk
  | meanwhile {log last : Log} {disk after final : Disk} {requests : List Request}
      {answers : List Answer} (passed : Meanwhile log disk after)
      (rest : Course log after requests answers last final) :
      Course log disk requests answers last final
  | request {log last : Log} {disk final : Disk} {request : Request} {requests : List Request}
      {answers : List Answer}
      (rest : Course (log.answer disk request).2.1 (log.answer disk request).2.2 requests answers
        last final) :
      Course log disk (request :: requests) ((log.answer disk request).1 :: answers) last final

/-! ## The list that a log stands for -/

/-- The record that a request leaves in the log of a worker. -/
def Request.record? (worker : UInt16) : Request → Option Record
  | .recordInitial fingerprint => some (.initial worker fingerprint)
  | .recordState predecessor fingerprint => some ⟨predecessor, fingerprint⟩
  | _ => none

/-- What a request asks to be recorded. -/
def Request.note? : Request → Option Note
  | .recordInitial fingerprint => some (none, fingerprint)
  | .recordState predecessor fingerprint => some (some predecessor, fingerprint)
  | _ => none

/-- The records that requests leave in the log of a worker. -/
def recorded (worker : UInt16) (requests : List Request) : List Record :=
  requests.filterMap (·.record? worker)

/-- What requests ask to be recorded. -/
def notes (requests : List Request) : List Note := requests.filterMap Request.note?

/-- What is noted at an offset, if notes take as many bytes as records do. -/
def noteAt (path : Path) (notes : List Note) (offset : UInt64) : Except IoError Note :=
  if offset.toNat % Record.width = 0 then
    match notes[offset.toNat / Record.width]? with
    | some note => .ok note
    | none => .error (.noRecord offset path)
  else .error (.noRecord offset path)

/-- What a list of notes has to answer. -/
def expected (worker : UInt16) (path : Path) (notes : List Note) : Request → Answer
  | .recordInitial _ => .recorded ⟨worker, UInt64.ofNat (Record.width * notes.length)⟩
  | .recordState _ _ => .recorded ⟨worker, UInt64.ofNat (Record.width * notes.length)⟩
  | .flush => .flushed
  | .read offset => .read (noteAt path notes offset)
  | .predecessorOf offset => .predecessor ((noteAt path notes offset).map Prod.fst)
  | .fingerprintOf offset => .fingerprint ((noteAt path notes offset).map Prod.snd)

variable {log last : Log} {disk after final : Disk} {records : List Record}
  {requests : List Request} {answers : List Answer} {offset : UInt64}

theorem recorded_append (worker : UInt16) (first second : List Request) :
    recorded worker (first ++ second) = recorded worker first ++ recorded worker second :=
  List.filterMap_append

/-- A record says what was to be recorded, unless a predecessor looks like none. -/
theorem note_record? {worker : UInt16} {request : Request}
    (named : ∀ predecessor fingerprint, request = .recordState predecessor fingerprint →
      predecessor.offset ≠ Record.nowhere) :
    (request.record? worker).map Record.note = request.note? := by
  cases request with
  | recordInitial fingerprint => rfl
  | recordState predecessor fingerprint =>
    have apart := named _ _ rfl
    simp [Request.record?, Request.note?, Record.note, Record.predecessor?, apart]
  | flush => rfl
  | read offset => rfl
  | predecessorOf offset => rfl
  | fingerprintOf offset => rfl

theorem map_note_recorded {worker : UInt16}
    (named : ∀ predecessor fingerprint, .recordState predecessor fingerprint ∈ requests →
      predecessor.offset ≠ Record.nowhere) :
    (recorded worker requests).map Record.note = notes requests := by
  rw [recorded, notes, List.map_filterMap]
  refine List.filterMap_congr fun request member => note_record? ?_
  rintro predecessor fingerprint rfl
  exact named predecessor fingerprint member

/-- An offset is the one of a record, or it lies between two records or after the last. -/
theorem index_or_outside (count : Nat) (offset : UInt64) :
    (∃ index < count, offset = UInt64.ofNat (Record.width * index)) ∨
      (offset.toNat % Record.width ≠ 0 ∨ Record.width * count ≤ offset.toNat) := by
  by_cases aligned : offset.toNat % Record.width = 0
  · obtain ⟨whole, same⟩ := Record.offset_of_aligned aligned
    by_cases within : offset.toNat / Record.width < count
    · exact .inl ⟨_, within, same⟩
    · refine .inr (.inr ?_)
      rw [← whole]
      exact Nat.mul_le_mul_left _ (Nat.not_lt.mp within)
  · exact .inr (.inl aligned)

section Notes

variable {path : Path} {notes : List Note} {index : Nat}

/-- Notes are found at the multiples of the width. -/
theorem noteAt_of_getElem? {note : Note} (found : notes[index]? = some note)
    (small : Record.width * index < 2 ^ 64) :
    noteAt path notes (UInt64.ofNat (Record.width * index)) = .ok note := by
  have offset := Record.toNat_offset small
  have quotient : Record.width * index / Record.width = index :=
    Nat.mul_div_cancel_left _ (by decide)
  simp only [noteAt, offset, Nat.mul_mod_right, quotient, found, if_true]

/-- Nothing is found anywhere else. -/
theorem noteAt_of_outside
    (outside : offset.toNat % Record.width ≠ 0 ∨ Record.width * notes.length ≤ offset.toNat) :
    noteAt path notes offset = .error (.noRecord offset path) := by
  unfold noteAt
  split
  · rename_i aligned
    have beyond : notes.length ≤ offset.toNat / Record.width := by
      rw [Nat.le_div_iff_mul_le (by decide), Nat.mul_comm]
      exact outside.resolve_left (not_not_intro aligned)
    rw [List.getElem?_eq_none beyond]
  · rfl

end Notes

/-! ## Records on their way to the file -/

namespace Backs

theorem append (backs : log.Backs disk records) (record : Record) :
    (log.append record).2.Backs disk (records ++ [record]) := by
  obtain ⟨written, early, same, begun, stored⟩ := backs.file
  refine ⟨?_, backs.located, written, early, ?_, begun.trans ?_, stored⟩
  · simp [Log.append, backs.count]
  · simp [Log.append, same]
  · simp [Log.append, pendingBytes]

theorem meanwhile (backs : log.Backs disk records) (passed : Meanwhile log disk after) :
    log.Backs after records := by
  cases passed with
  | elsewhere located kept =>
    refine ⟨backs.count, located.trans backs.located, ?_⟩
    rw [kept]
    exact backs.file
  | early count =>
    refine ⟨backs.count, ?_, ?_⟩
    · exact (Disk.changes_writeAt _ _ _ _).locate_iff.mpr backs.located
    · obtain ⟨written, longer, same, within, -, stored⟩ :=
        backs.get?_writeAt (List.take_prefix count _)
      exact ⟨written, longer, same, within, stored⟩

end Backs

/-! ## Reading -/

/-- A log that is up to date is as it was after flushing again. -/
theorem flush_flush (log : Log) (disk : Disk) :
    (log.flush disk).1.flush (log.flush disk).2 = log.flush disk := by
  have none := log.pending_flush disk
  rw [flush.eq_def (log.flush disk).1, none]

/-- A record is read from a log that is up to date. -/
theorem read_flush (inside : ¬ (offset.toNat % Record.width ≠ 0 ∨ log.size ≤ offset.toNat)) :
    log.read offset disk = (log.flush disk).1.read offset (log.flush disk).2 := by
  have size : (log.flush disk).1.size = log.size := by rw [size, size, count_flush]
  simp only [read, size, if_neg inside, flush_flush]

/-- Where no record is, the disk is not even looked at. -/
theorem read_of_outside (outside : offset.toNat % Record.width ≠ 0 ∨ log.size ≤ offset.toNat) :
    log.read offset disk = (.error (.noRecord offset log.path), log, disk) :=
  if_pos outside

namespace Backs

/-- Reading finds what is noted at the offset, and afterwards the log has the same records. -/
theorem read (backs : log.Backs disk records) (small : Record.width * records.length < 2 ^ 64)
    (offset : UInt64) :
    (log.read offset disk).1.map Record.note = noteAt log.path (records.map Record.note) offset ∧
      (log.read offset disk).2.1.Backs (log.read offset disk).2.2 records ∧
      (log.read offset disk).2.1.worker = log.worker ∧
      (log.read offset disk).2.1.path = log.path := by
  by_cases outside : offset.toNat % Record.width ≠ 0 ∨ log.size ≤ offset.toNat
  · rw [read_of_outside outside]
    refine ⟨(noteAt_of_outside ?_).symm, backs, rfl, rfl⟩
    rwa [List.length_map, ← backs.count]
  · obtain ⟨index, within, rfl⟩ := (index_or_outside log.count offset).resolve_right outside
    rw [backs.count] at within
    have found := List.getElem?_eq_getElem within
    have below : Record.width * index < 2 ^ 64 :=
      (Nat.mul_le_mul_left _ within.le).trans_lt small
    have noted : (records.map Record.note)[index]? = some records[index].note := by
      rw [List.getElem?_map, found, Option.map_some]
    rw [read_flush outside, backs.flush.read found below, flush_flush,
      noteAt_of_getElem? noted below]
    exact ⟨rfl, of_holds backs.flush, worker_flush _ _, path_flush _ _⟩

/-- One request is answered as the list of records has to answer it, and what it leaves is put
at the end of the list. -/
theorem answer (backs : log.Backs disk records) (small : Record.width * records.length < 2 ^ 64)
    (request : Request) :
    (log.answer disk request).1 =
        expected log.worker log.path (records.map Record.note) request ∧
      (log.answer disk request).2.1.Backs (log.answer disk request).2.2
        (records ++ recorded log.worker [request]) ∧
      (log.answer disk request).2.1.worker = log.worker ∧
      (log.answer disk request).2.1.path = log.path := by
  have size : log.size = Record.width * (records.map Record.note).length := by
    rw [Log.size, backs.count, List.length_map]
  have reads (offset : UInt64) := backs.read small offset
  have fields (offset : UInt64) {α : Type} (field : Note → α) :
      (log.read offset disk).1.map (fun record => field record.note) =
        (noteAt log.path (records.map Record.note) offset).map field := by
    rw [← (reads offset).1]
    cases (log.read offset disk).1 <;> rfl
  cases request with
  | recordInitial fingerprint =>
    refine ⟨?_, backs.append _, rfl, rfl⟩
    rw [expected, ← size]
    rfl
  | recordState predecessor fingerprint =>
    refine ⟨?_, backs.append _, rfl, rfl⟩
    rw [expected, ← size]
    rfl
  | flush =>
    rw [recorded, List.filterMap_cons_none rfl, List.filterMap_nil, List.append_nil]
    exact ⟨rfl, of_holds backs.flush, worker_flush _ _, path_flush _ _⟩
  | read offset =>
    rw [recorded, List.filterMap_cons_none rfl, List.filterMap_nil, List.append_nil]
    exact ⟨congrArg Answer.read (reads offset).1, (reads offset).2⟩
  | predecessorOf offset =>
    rw [recorded, List.filterMap_cons_none rfl, List.filterMap_nil, List.append_nil]
    exact ⟨congrArg Answer.predecessor (fields offset Prod.fst), (reads offset).2⟩
  | fingerprintOf offset =>
    rw [recorded, List.filterMap_cons_none rfl, List.filterMap_nil, List.append_nil]
    exact ⟨congrArg Answer.fingerprint (fields offset Prod.snd), (reads offset).2⟩

/-- Requests are answered as the list of records has to answer them, each with the records that
were there before the first and those that earlier requests left. -/
theorem course (ran : Course log disk requests answers last final) (backs : log.Backs disk records)
    (small : Record.width * (records ++ recorded log.worker requests).length < 2 ^ 64) :
    last.worker = log.worker ∧ last.path = log.path ∧
      last.Backs final (records ++ recorded log.worker requests) ∧
      answers.length = requests.length ∧
      ∀ earlier request later, requests = earlier ++ request :: later →
        answers[earlier.length]? = some (expected log.worker log.path
          ((records ++ recorded log.worker earlier).map Record.note) request) := by
  induction ran generalizing records with
  | done =>
    refine ⟨rfl, rfl, ?_, rfl, fun earlier request later same => ?_⟩
    · simpa [recorded] using backs
    · exact absurd same.symm (by simp)
  | meanwhile passed rest ih => exact ih (backs.meanwhile passed) small
  | @request log last disk final request requests answers rest ih =>
    have before : Record.width * records.length < 2 ^ 64 := by
      refine (Nat.mul_le_mul_left _ ?_).trans_lt small
      exact List.length_append ▸ Nat.le_add_right _ _
    obtain ⟨answered, next, worker, path⟩ := backs.answer before request
    have parts (more : List Request) : records ++ recorded log.worker (request :: more) =
        records ++ recorded log.worker [request] ++ recorded log.worker more := by
      rw [List.append_assoc, ← recorded_append, List.singleton_append]
    rw [parts] at small ⊢
    obtain ⟨sameWorker, samePath, backed, length, later⟩ := ih next (by rwa [worker])
    rw [worker] at sameWorker backed later
    rw [path] at samePath later
    refine ⟨sameWorker, samePath, backed, by rw [List.length_cons, length, List.length_cons], ?_⟩
    intro earlier chosen others same
    cases earlier with
    | nil =>
      obtain ⟨rfl, -⟩ := List.cons.inj same
      rw [recorded, List.filterMap_nil, List.append_nil, ← answered]
      rfl
    | cons first more =>
      obtain ⟨rfl, tail⟩ := List.cons.inj same
      rw [parts, ← later more chosen others tail]
      rfl

end Backs

/-! ## Whole lives of logs -/

/-- A new log answers whatever it is asked as a growing list of notes does. The `index`-th state
to be recorded, counted from 0, gets the `index`-th multiple of the width as its reference, and
from then on its note is read there and nowhere else; neither readers nor flushes nor what
happens in between make a difference to any answer. Since the requests may end anywhere, what
is said of the end holds at every moment: the log has counted its records, and once it is
flushed its file is these records one after another. -/
theorem answers_of_growing_list {directory : Path} {specName : String} {worker : UInt16}
    {opened : Disk} (made : create directory specName worker disk = .ok (log, opened))
    (ran : Course log opened requests answers last final)
    (named : ∀ predecessor fingerprint, .recordState predecessor fingerprint ∈ requests →
      predecessor.offset ≠ Record.nowhere)
    (few : Record.width * (notes requests).length < 2 ^ 64) :
    last.count = (notes requests).length ∧ answers.length = requests.length ∧
      (∀ earlier request later, requests = earlier ++ request :: later →
        answers[earlier.length]? =
          some (expected worker log.path (notes earlier) request)) ∧
      (∀ earlier, earlier <+: requests →
        (∀ index note, (notes earlier)[index]? = some note →
          noteAt log.path (notes earlier) (UInt64.ofNat (Record.width * index)) = .ok note) ∧
        ∀ offset, (∀ index < (notes earlier).length,
            offset ≠ UInt64.ofNat (Record.width * index)) →
          noteAt log.path (notes earlier) offset = .error (.noRecord offset log.path)) ∧
      (last.flush final).2.read log.path =
        .ok ((recorded worker requests).flatMap Record.encode) := by
  obtain ⟨rfl, -, -, holds, -, -⟩ := create_eq_ok made
  have noted {earlier : List Request} (part : earlier <+: requests) :
      (recorded log.worker earlier).map Record.note = notes earlier :=
    map_note_recorded fun predecessor fingerprint member =>
      named predecessor fingerprint (part.subset member)
  have length : (recorded log.worker requests).length = (notes requests).length := by
    rw [← noted List.prefix_rfl, List.length_map]
  have small : Record.width * ([] ++ recorded log.worker requests).length < 2 ^ 64 := by
    rwa [List.nil_append, length]
  obtain ⟨-, path, backs, counted, answered⟩ := Backs.course ran (.of_holds holds) small
  rw [List.nil_append] at backs
  refine ⟨backs.count.trans length, counted, ?_, ?_, ?_⟩
  · intro earlier request later same
    rw [answered earlier request later same, List.nil_append, noted ⟨_, same.symm⟩]
  · intro earlier part
    have shorter : (notes earlier).length ≤ (notes requests).length :=
      (part.filterMap Request.note?).length_le
    refine ⟨fun index note found => ?_, fun offset apart => noteAt_of_outside ?_⟩
    · have within := (List.getElem?_eq_some_iff.mp found).1
      exact noteAt_of_getElem? found
        ((Nat.mul_le_mul_left _ (within.le.trans shorter)).trans_lt few)
    · refine (index_or_outside (notes earlier).length offset).resolve_left ?_
      rintro ⟨index, within, same⟩
      exact apart index within same
  · have located := backs.flush.located
    obtain ⟨written, same, stored⟩ := backs.flush.file
    rw [pending_flush, List.reverse_nil, List.append_nil] at same
    rw [path_flush, path] at located
    exact Disk.read_eq_ok_iff.mpr ⟨_, _, located, same ▸ stored⟩

/-- Two states are recorded; eleven bytes of the first get into the file early, and the second is
read both before and after the file is brought up to date. -/
theorem answers_of_two_records :
    let requests := [.recordInitial 7, .read 0, .recordState ⟨5, 36⟩ 9, .predecessorOf 18, .flush,
      .read 18, .read 7]
    ∃ log opened answers last final,
      create ⟨["runs"]⟩ "Spec" 3 (Disk.empty.set ["runs"] .directory) = .ok (log, opened) ∧
        Course log opened requests answers last final ∧ last.count = 2 ∧
        answers[1]? = some (.read (.ok (none, 7))) ∧ answers[2]? = some (.recorded ⟨3, 18⟩) ∧
        answers[3]? = some (.predecessor (.ok (some ⟨5, 36⟩))) ∧
        answers[5]? = some (.read (.ok (some ⟨5, 36⟩, 9))) ∧
        answers[6]? = some (.read (.error (.noRecord 7 ⟨["runs", "Spec-3.trace"]⟩))) ∧
        (last.flush final).2.read ⟨["runs", "Spec-3.trace"]⟩ =
          .ok [3, 0, 255, 255, 255, 255, 255, 255, 255, 255, 7, 0, 0, 0, 0, 0, 0, 0,
            5, 0, 36, 0, 0, 0, 0, 0, 0, 0, 9, 0, 0, 0, 0, 0, 0, 0] := by
  intro requests
  obtain ⟨log, opened, made⟩ : ∃ log opened,
      create ⟨["runs"]⟩ "Spec" 3 (Disk.empty.set ["runs"] .directory) = .ok (log, opened) :=
    ⟨_, _, rfl⟩
  obtain ⟨answers, last, final, ran⟩ : ∃ answers last final,
      Course log opened requests answers last final :=
    ⟨_, _, _, .request <| .meanwhile (.early 11) <| .request <| .request <| .request <| .request <|
      .request <| .request .done⟩
  have path : log.path = ⟨["runs", "Spec-3.trace"]⟩ := (create_eq_ok made).2.1
  have named : ∀ predecessor fingerprint, .recordState predecessor fingerprint ∈ requests →
      predecessor.offset ≠ Record.nowhere := by
    intro predecessor fingerprint member
    simp only [requests, List.mem_cons, reduceCtorEq, Request.recordState.injEq, false_or,
      List.not_mem_nil, or_false] at member
    obtain ⟨rfl, -⟩ := member
    decide
  obtain ⟨count, -, answered, -, whole⟩ := answers_of_growing_list made ran named (by decide)
  rw [path] at answered whole
  exact ⟨log, opened, answers, last, final, made, ran, count,
    answered [_] (.read 0) [_, _, _, _, _] rfl, answered [_, _] (.recordState _ _) [_, _, _, _] rfl,
    answered [_, _, _] (.predecessorOf 18) [_, _, _] rfl,
    answered [_, _, _, _, _] (.read 18) [_] rfl, answered [_, _, _, _, _, _] (.read 7) [] rfl,
    whole⟩

end Log

end Wavefront
