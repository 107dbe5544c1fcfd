/-
# Where climbing ends

Reading a reference gives the record that the logs hold there, or the diagnosis that there is
no log or no record, and changes nothing that later readings could notice. So a climb follows
the links between the records that the logs hold. It finds every chain that reaches a root,
the longest one included, since no chain has more records than there are. A climb that does not
reach a root fails; what it says is the fault it met, unless it had visited every record before
it got there, and then it says that the links go round.
-/

import Wavefront.Proofs.Trace.Links
import Wavefront.Proofs.Trace.Logs

namespace Wavefront

open Links

/-! ## Reading by reference -/

/-- What is said of a reference that names no record. -/
def Links.missing (names : List (UInt16 × Path)) (uid : Uid) : Failure :=
  .trace uid.worker <|
    match names.lookup uid.worker with
    | none => .noLog
    | some path => .io (.noRecord uid.offset path)

namespace Log.Hold

variable {logs others : List Log} {forest : Forest} {disk : Disk} {table : UInt16 → List Record}
  {uid last : Uid}

theorem lookup_eq_none (absent : uid.worker ∉ logs.map Log.worker) :
    (logs.map Log.name).lookup uid.worker = none := by
  rw [List.lookup_eq_none_iff]
  rintro _ among
  obtain ⟨log, member, rfl⟩ := List.mem_map.mp among
  exact bne_iff_ne.mpr fun same => absent (List.mem_map.mpr ⟨log, member, same.symm⟩)

/-- The path of a worker's log goes by the worker. -/
theorem lookup_eq_some (hold : Hold logs disk table) {log : Log} (member : log ∈ logs) :
    (logs.map Log.name).lookup log.worker = some log.path := by
  have workers := hold.workers
  clear hold
  induction logs with
  | nil => cases member
  | cons first rest ih =>
    rw [List.map_cons, name, List.lookup_cons]
    rcases List.mem_cons.mp member with rfl | later
    · simp
    · have apart : log.worker ≠ first.worker := fun same =>
        (List.nodup_cons.mp workers).1 (List.mem_map.mpr ⟨log, later, same⟩)
      rw [beq_false_of_ne apart]
      exact ih later (List.nodup_cons.mp workers).2

/-- Reading gives the record that a reference names, or says that it names none. -/
theorem read_eq (hold : Hold forest.logs disk table) (uid : Uid) :
    (forest.read uid disk).1 =
      match record? (forest.logs.map Log.worker) table uid with
      | some record => .ok record
      | none => .error (missing (forest.logs.map Log.name) uid) := by
  by_cases known : uid.worker ∈ forest.logs.map Log.worker
  · obtain ⟨log, member, same⟩ := List.mem_map.mp known
    have here := Forest.log?_eq_some hold.workers member
    have path := hold.lookup_eq_some member
    have count := (hold.holds log member).count
    rw [same] at here path count
    cases found : record? (forest.logs.map Log.worker) table uid with
    | some record =>
      rw [record?, Option.ite_none_right_eq_some] at found
      obtain ⟨⟨-, aligned⟩, there⟩ := found
      obtain ⟨whole, offset⟩ := Record.offset_of_aligned aligned
      have small : Record.width * (uid.offset.toNat / Record.width) < 2 ^ 64 := by
        rw [whole]
        exact uid.offset.toNat_lt
      obtain ⟨_, _, read, -, -⟩ := hold.read known there offset small
      rw [read]
    | none =>
      -- The offset lies between two records or after the last.
      have outside : uid.offset.toNat % Record.width ≠ 0 ∨ log.size ≤ uid.offset.toNat := by
        rw [record?, ite_eq_right_iff] at found
        by_cases aligned : uid.offset.toNat % Record.width = 0
        · have beyond := List.getElem?_eq_none_iff.mp (found ⟨known, aligned⟩)
          rw [← count, Nat.le_div_iff_mul_le (by decide), Nat.mul_comm] at beyond
          exact .inr beyond
        · exact .inl aligned
      simp only [Forest.read, here, Log.read, if_pos outside, missing, path, Except.mapError]
  · have none : forest.log? uid.worker = none := by
      refine Option.eq_none_iff_forall_ne_some.mpr fun log found => known ?_
      obtain ⟨member, own⟩ := Forest.of_log? found
      exact List.mem_map.mpr ⟨log, member, own⟩
    have unnamed : record? (forest.logs.map Log.worker) table uid = Option.none :=
      if_neg fun both => known both.1
    simp only [Forest.read, none, unnamed, missing, lookup_eq_none known]

theorem workers_of_names (same : others.map Log.name = logs.map Log.name) :
    others.map Log.worker = logs.map Log.worker := by
  simpa [name, Function.comp_def] using congrArg (List.map Prod.fst) same

/-! ## Climbing along links -/

/-- A climb with enough room goes where links lead, and collects the fingerprints on the way. -/
theorem climb_eq_of_leads (hold : Hold forest.logs disk table) (target : Uid)
    {workers : List UInt16} {visited : List (Uid × Record)}
    (known : forest.logs.map Log.worker = workers)
    (leads : Leads (record? workers table) uid visited last) (room : Nat)
    (below : List Fingerprint) :
    ∃ later final, Hold later.logs final table ∧
      later.logs.map Log.name = forest.logs.map Log.name ∧
      Forest.climb target (visited.length + room) uid below forest disk =
        Forest.climb target room last
          ((visited.map fun item => item.2.fingerprint).reverse ++ below) later final := by
  induction leads generalizing forest disk below with
  | here => exact ⟨forest, disk, hold, rfl, by simp⟩
  | @link uid previous _ record rest found next leads ih =>
    rcases read : forest.read uid disk with ⟨result, between, middle⟩
    have answer := hold.read_eq uid
    obtain ⟨after, same⟩ := hold.of_read read
    rw [known, found, read] at answer
    obtain ⟨later, final, holds, alike, climbed⟩ :=
      ih after ((workers_of_names same).trans known) (record.fingerprint :: below)
    refine ⟨later, final, holds, alike.trans same, ?_⟩
    rw [List.length_cons, Nat.add_right_comm, Forest.climb, read]
    dsimp only at answer
    simp only [answer, next, climbed, List.map_cons, List.reverse_cons, List.append_assoc,
      List.singleton_append]

variable {target : Uid} {visited : List (Uid × Record)}

theorem record?_collect (logs : List Log) (table : UInt16 → List Record) :
    record? ((Forest.collect logs).logs.map Log.worker) table =
      record? (logs.map Log.worker) table :=
  record?_perm ((Forest.perm_collect logs).map _)

theorem missing_perm (hold : Hold logs disk table) (same : others.Perm logs) (uid : Uid) :
    missing (others.map Log.name) uid = missing (logs.map Log.name) uid := by
  unfold missing
  congr 2
  by_cases known : uid.worker ∈ logs.map Log.worker
  · obtain ⟨log, member, own⟩ := List.mem_map.mp known
    rw [← own, hold.lookup_eq_some member,
      (hold.perm same).lookup_eq_some (same.mem_iff.mpr member)]
  · rw [lookup_eq_none known, lookup_eq_none fun there => known ((same.map _).mem_iff.mp there)]

/-- The number of records is that of the references to them. -/
theorem length_references_eq (hold : Hold logs disk table) :
    (references (logs.map Log.worker) table).length = (Forest.collect logs).recordCount := by
  have counts : logs.map (fun log => (table log.worker).length) = logs.map Log.count :=
    List.map_congr_left fun log member => (hold.holds log member).count.symm
  rw [length_references, List.map_map, Function.comp_def, counts, Forest.recordCount_collect]

/-- A climb that finds no root before its room is used up fails as if links went round. -/
theorem pathTo_of_full (hold : Hold logs disk table)
    (leads : Leads (record? (logs.map Log.worker) table) target visited last)
    (full : visited.length = (Forest.collect logs).recordCount) :
    ((Forest.collect logs).pathTo target disk).1 = .error (.trace last.worker (.cycle target)) := by
  rw [← record?_collect] at leads
  obtain ⟨later, final, -, -, climbed⟩ := hold.collect.climb_eq_of_leads target rfl leads 0 []
  rw [Forest.pathTo, ← full, ← Nat.add_zero visited.length, climbed, Forest.climb]

/-- What a climb that has room left ends with is decided by where the links lead. -/
theorem pathTo_of_room (hold : Hold logs disk table)
    (leads : Leads (record? (logs.map Log.worker) table) target visited last)
    (room : visited.length < (Forest.collect logs).recordCount) :
    (∀ record, record? (logs.map Log.worker) table last = some record →
      record.predecessor? = none → ((Forest.collect logs).pathTo target disk).1 =
        .ok ((visited.map Prod.snd ++ [record]).map Record.fingerprint).reverse) ∧
    (record? (logs.map Log.worker) table last = none →
      ((Forest.collect logs).pathTo target disk).1 =
        .error (missing (logs.map Log.name) last)) := by
  obtain ⟨rest, left⟩ : ∃ rest, (Forest.collect logs).recordCount = visited.length + (rest + 1) :=
    ⟨(Forest.collect logs).recordCount - visited.length - 1, by omega⟩
  rw [← record?_collect] at leads
  obtain ⟨later, final, holds, alike, climbed⟩ :=
    hold.collect.climb_eq_of_leads target rfl leads (rest + 1) []
  have answer := holds.read_eq last
  rw [workers_of_names alike, alike, record?_collect,
    hold.missing_perm (Forest.perm_collect logs)] at answer
  rcases read : later.read last final with ⟨result, forest, disk'⟩
  rw [read] at answer
  dsimp only at answer
  constructor
  · intro record found root
    rw [found] at answer
    rw [Forest.pathTo, left, climbed, Forest.climb, read]
    simp [answer, root, Function.comp_def]
  · intro none
    rw [none] at answer
    rw [Forest.pathTo, left, climbed, Forest.climb, read]
    simp only [answer]

/-- A chain to a root is found, however long it is. -/
theorem pathTo_of_rooted (hold : Hold logs disk table) {chain : List Record}
    (rooted : Rooted (record? (logs.map Log.worker) table) target chain) :
    chain.length ≤ (Forest.collect logs).recordCount ∧
      ((Forest.collect logs).pathTo target disk).1 =
        .ok (chain.map Record.fingerprint).reverse := by
  have short := rooted.length_le fun _ _ => mem_references_of_record?
  rw [hold.length_references_eq] at short
  obtain ⟨visited, last, record, leads, found, root, rfl⟩ := rooted
  refine ⟨short, (hold.pathTo_of_room leads ?_).1 record found root⟩
  rw [List.length_append, List.length_map, List.length_singleton] at short
  exact short

/-- A climb along links that lead nowhere says so, unless it has visited every record. -/
theorem pathTo_of_dangling (hold : Hold logs disk table)
    (leads : Leads (record? (logs.map Log.worker) table) target visited last)
    (missed : record? (logs.map Log.worker) table last = none) :
    visited.length ≤ (Forest.collect logs).recordCount ∧
      ((Forest.collect logs).pathTo target disk).1 = .error
        (if visited.length < (Forest.collect logs).recordCount then missing (logs.map Log.name) last
          else .trace last.worker (.cycle target)) := by
  have short := leads.length_le_of_nodup (fun _ _ => mem_references_of_record?)
    (leads.nodup_of_stops (stops_of_none missed))
  rw [hold.length_references_eq] at short
  refine ⟨short, ?_⟩
  split
  · rename_i room
    exact (hold.pathTo_of_room leads room).2 missed
  · rename_i full
    exact hold.pathTo_of_full leads (by omega)

/-- A climb along links that go round says so. -/
theorem pathTo_of_circular (hold : Hold logs disk table)
    (circular : Circular (record? (logs.map Log.worker) table) target) :
    ∃ visited last, Leads (record? (logs.map Log.worker) table) target visited last ∧
      visited.length = (Forest.collect logs).recordCount ∧
      ((Forest.collect logs).pathTo target disk).1 =
        .error (.trace last.worker (.cycle target)) := by
  obtain ⟨visited, last, leads, full⟩ := circular.exists_leads (Forest.collect logs).recordCount
  exact ⟨visited, last, leads, full, hold.pathTo_of_full leads full⟩

/-- Links from a reference reach a root, lead nowhere or go round. -/
theorem rooted_or_dangling_or_circular (workers : List UInt16) (table : UInt16 → List Record)
    (target : Uid) :
    (∃ chain, Rooted (record? workers table) target chain) ∨
      (∃ visited last, Leads (record? workers table) target visited last ∧
        record? workers table last = none) ∨
      Circular (record? workers table) target := by
  rcases exists_stops_or_circular (fun _ _ => mem_references_of_record?) target with
    ⟨visited, last, leads, stops⟩ | circular
  · cases found : record? workers table last with
    | none => exact .inr (.inl ⟨visited, last, leads, found⟩)
    | some record =>
      refine .inl ⟨_, visited, last, record, leads, found, ?_, rfl⟩
      simpa only [Stops, found, Option.bind_some] using stops
  · exact .inr (.inr circular)

/-! ## What climbing answers -/

/-- Climbing answers with the fingerprints of a chain that links form from the target to a root,
from the root on, exactly if there is such a chain, however many of the records are on it;
otherwise it fails with what is wrong with a log. In which order the logs come does not
matter, since the log of a worker is found among those in order exactly if it is one of them. -/
theorem pathTo_exact (hold : Hold logs disk table) (target : Uid) :
    (∀ path, ((Forest.collect logs).pathTo target disk).1 = .ok path ↔
      ∃ chain, Rooted (record? (logs.map Log.worker) table) target chain ∧
        path = (chain.map Record.fingerprint).reverse) ∧
    ((∀ chain, ¬ Rooted (record? (logs.map Log.worker) table) target chain) →
      ∃ worker reason,
        ((Forest.collect logs).pathTo target disk).1 = .error (.trace worker reason)) ∧
    (∀ chain, Rooted (record? (logs.map Log.worker) table) target chain →
      chain.length ≤ (Forest.collect logs).recordCount) ∧
    (∀ worker, (Forest.collect logs).log? worker = logs.find? (·.worker == worker)) ∧
    ∀ others, others.Perm logs →
      (Forest.collect others).pathTo target disk = (Forest.collect logs).pathTo target disk := by
  have failing (unrooted : ∀ chain, ¬ Rooted (record? (logs.map Log.worker) table) target chain) :
      ∃ worker reason,
        ((Forest.collect logs).pathTo target disk).1 = .error (.trace worker reason) := by
    rcases rooted_or_dangling_or_circular (logs.map Log.worker) table target with
      ⟨chain, rooted⟩ | ⟨visited, last, leads, missed⟩ | circular
    · exact absurd rooted (unrooted chain)
    · rw [(hold.pathTo_of_dangling leads missed).2]
      split
      · exact ⟨_, _, rfl⟩
      · exact ⟨_, _, rfl⟩
    · obtain ⟨-, last, -, -, failed⟩ := hold.pathTo_of_circular circular
      exact ⟨_, _, failed⟩
  refine ⟨fun path => ⟨fun climbed => ?_, ?_⟩, failing,
    fun chain rooted => (hold.pathTo_of_rooted rooted).1, Forest.log?_collect hold.workers,
    fun others same => by rw [Forest.collect_eq_of_perm hold.workers same]⟩
  · by_cases rooted : ∃ chain, Rooted (record? (logs.map Log.worker) table) target chain
    · obtain ⟨chain, rooted⟩ := rooted
      rw [(hold.pathTo_of_rooted rooted).2, Except.ok.injEq] at climbed
      exact ⟨chain, rooted, climbed.symm⟩
    · obtain ⟨worker, reason, failed⟩ := failing (not_exists.mp rooted)
      rw [failed] at climbed
      cases climbed
  · rintro ⟨chain, rooted, rfl⟩
    exact (hold.pathTo_of_rooted rooted).2

/-- Two logs that have not been written to their files: three records form a chain that goes
from one log to the other and back, and the fourth is its own predecessor. -/
theorem pathTo_exact_of_crossing :
    let first : Log := ⟨0, ⟨["first"]⟩, ⟨["first"], 0⟩, 2,
      [⟨⟨1, 0⟩, 300⟩, .initial 0 100]⟩
    let second : Log := ⟨1, ⟨["second"]⟩, ⟨["second"], 1⟩, 2,
      [⟨⟨1, 18⟩, 400⟩, ⟨⟨0, 0⟩, 200⟩]⟩
    let table : UInt16 → List Record := fun worker =>
      if worker = 0 then first.pending.reverse else second.pending.reverse
    let disk := (Disk.empty.set ["first"] (.file 0 [])).set ["second"] (.file 1 [])
    Hold [first, second] disk table ∧
      ((Forest.collect [first, second]).pathTo ⟨0, 18⟩ disk).1 = .ok [100, 200, 300] ∧
      ((Forest.collect [second, first]).pathTo ⟨0, 18⟩ disk).1 = .ok [100, 200, 300] ∧
      (∀ path, ((Forest.collect [first, second]).pathTo ⟨1, 18⟩ disk).1 ≠ .ok path) := by
  intro first second table disk
  have hold : Hold [first, second] disk table := by
    refine ⟨fun log member => ?_, by decide, by decide⟩
    rcases List.mem_pair.mp member with rfl | rfl
    · exact ⟨rfl, by decide +kernel, [], rfl, by decide +kernel⟩
    · exact ⟨rfl, by decide +kernel, [], rfl, by decide +kernel⟩
  obtain ⟨found, -, -, -, swapped⟩ := hold.pathTo_exact ⟨0, 18⟩
  have path := (found [100, 200, 300]).mpr ⟨[⟨⟨1, 0⟩, 300⟩, ⟨⟨0, 0⟩, 200⟩, .initial 0 100],
    ⟨_, _, _, .link rfl rfl (.link rfl rfl (.here _)), rfl, rfl, rfl⟩, rfl⟩
  have same := congrArg Prod.fst (swapped _ (.swap _ _ _))
  refine ⟨hold, path, same.trans path, fun path climbed => ?_⟩
  have circular : Circular (record? [0, 1] table) ⟨1, 18⟩ :=
    ⟨_, _, .link rfl rfl (.here _), List.mem_singleton_self _⟩
  obtain ⟨chain, ⟨_, _, _, leads, known, root, -⟩, -⟩ := ((hold.pathTo_exact _).1 path).mp climbed
  exact circular.not_stops leads (stops_of_root known root)

/-- What a climb that does not reach a root says: that the links go round, if they do; otherwise
that the reference they end at has no log or no record, unless they have led over every record
there is before. Then it says that they go round, although they do not. -/
theorem pathTo_eq_error (hold : Hold logs disk table)
    (unrooted : ∀ chain, ¬ Rooted (record? (logs.map Log.worker) table) target chain) :
    (∃ visited last, Circular (record? (logs.map Log.worker) table) target ∧
      Leads (record? (logs.map Log.worker) table) target visited last ∧
      visited.length = (Forest.collect logs).recordCount ∧
      ((Forest.collect logs).pathTo target disk).1 = .error (.trace last.worker (.cycle target))) ∨
    ∃ visited last, ¬ Circular (record? (logs.map Log.worker) table) target ∧
      Leads (record? (logs.map Log.worker) table) target visited last ∧
      record? (logs.map Log.worker) table last = none ∧
      visited.length ≤ (Forest.collect logs).recordCount ∧
      ((Forest.collect logs).pathTo target disk).1 = .error
        (if visited.length < (Forest.collect logs).recordCount then missing (logs.map Log.name) last
          else .trace last.worker (.cycle target)) := by
  rcases rooted_or_dangling_or_circular (logs.map Log.worker) table target with
    ⟨chain, rooted⟩ | ⟨visited, last, leads, missed⟩ | circular
  · exact absurd rooted (unrooted chain)
  · obtain ⟨short, failed⟩ := hold.pathTo_of_dangling leads missed
    exact .inr ⟨visited, last, fun round => round.not_stops leads (stops_of_none missed), leads,
      missed, short, failed⟩
  · obtain ⟨visited, last, leads, full, failed⟩ := hold.pathTo_of_circular circular
    exact .inl ⟨visited, last, circular, leads, full, failed⟩

/-- A log with a root and a record whose predecessor would be in the log of a worker that keeps
none: with a record to spare, that log is what is missed. -/
theorem pathTo_eq_error_of_unknown :
    let log : Log := ⟨0, ⟨["first"]⟩, ⟨["first"], 0⟩, 2, [⟨⟨9, 0⟩, 200⟩, .initial 0 100]⟩
    let table : UInt16 → List Record := fun _ => log.pending.reverse
    let disk := Disk.empty.set ["first"] (.file 0 [])
    Hold [log] disk table ∧ (∀ chain, ¬ Rooted (record? [0] table) ⟨0, 18⟩ chain) ∧
      ((Forest.collect [log]).pathTo ⟨0, 18⟩ disk).1 = .error (.trace 9 .noLog) := by
  intro log table disk
  have hold : Hold [log] disk table := by
    refine ⟨fun _ member => ?_, by decide, by decide⟩
    obtain rfl := List.mem_singleton.mp member
    exact ⟨rfl, by decide +kernel, [], rfl, by decide +kernel⟩
  have leads : Leads (record? [0] table) ⟨0, 18⟩ [(⟨0, 18⟩, ⟨⟨9, 0⟩, 200⟩)] ⟨9, 0⟩ :=
    .link rfl rfl (.here _)
  have stops : Stops (record? [0] table) ⟨9, 0⟩ := stops_of_none rfl
  have unrooted : ∀ chain, ¬ Rooted (record? [0] table) ⟨0, 18⟩ chain := by
    rintro _ ⟨_, last, record, way, known, root, -⟩
    obtain ⟨-, rfl⟩ := leads.unique stops way (stops_of_root known root)
    cases known
  refine ⟨hold, unrooted, ?_⟩
  rcases hold.pathTo_eq_error unrooted with
    ⟨-, -, circular, -⟩ | ⟨visited, last, -, way, missed, -, failed⟩
  · exact absurd stops (circular.not_stops leads)
  · obtain ⟨rfl, rfl⟩ := leads.unique stops way (stops_of_none missed)
    exact failed

/-- A log whose only record has a predecessor in the log of a worker that keeps none. That log is
missed only after every record has been visited, so the links are said to go round, although
they do not. -/
theorem cycle_of_dangling_over_all :
    let log : Log := ⟨0, ⟨["first"]⟩, ⟨["first"], 0⟩, 1, [⟨⟨9, 0⟩, 1⟩]⟩
    let table : UInt16 → List Record := fun _ => log.pending.reverse
    let disk := Disk.empty.set ["first"] (.file 0 [])
    Hold [log] disk table ∧ ¬ Circular (record? [0] table) ⟨0, 0⟩ ∧
      Leads (record? [0] table) ⟨0, 0⟩ [(⟨0, 0⟩, ⟨⟨9, 0⟩, 1⟩)] ⟨9, 0⟩ ∧
      record? [0] table ⟨9, 0⟩ = none ∧ missing [log.name] ⟨9, 0⟩ = .trace 9 .noLog ∧
      ((Forest.collect [log]).pathTo ⟨0, 0⟩ disk).1 = .error (.trace 9 (.cycle ⟨0, 0⟩)) := by
  intro log table disk
  have hold : Hold [log] disk table := by
    refine ⟨fun _ member => ?_, by decide, by decide⟩
    obtain rfl := List.mem_singleton.mp member
    exact ⟨rfl, by decide +kernel, [], rfl, by decide +kernel⟩
  have leads : Leads (record? [0] table) ⟨0, 0⟩ [(⟨0, 0⟩, ⟨⟨9, 0⟩, 1⟩)] ⟨9, 0⟩ :=
    .link rfl rfl (.here _)
  exact ⟨hold, fun circular => circular.not_stops leads (stops_of_none rfl), leads, rfl, rfl,
    hold.pathTo_of_full leads rfl⟩

end Log.Hold

end Wavefront
