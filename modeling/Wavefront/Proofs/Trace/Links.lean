/-
# Where links lead

A reference names a record if its worker keeps a log that has a record at the offset, and a
record may name the one that its state was reached from. So there is at most one way on from
every reference. Following it either stops, at a root or at a reference that names nothing, or
comes back to a record that was visited before; since there are only so many records, one of
the two happens after no more steps than that.
-/

import Mathlib.Algebra.Ring.Nat
import Mathlib.Data.List.Flatten
import Mathlib.Data.List.Perm.Subperm
import Wavefront.Trace.Record

namespace Wavefront.Links

/-! ## Following links -/

/-- From a reference, links lead over the records visited, each with the reference to it, to a
last reference, which need not name a record. -/
inductive Leads (find : Uid → Option Record) : Uid → List (Uid × Record) → Uid → Prop where
  | here (uid : Uid) : Leads find uid [] uid
  | link {uid previous last : Uid} {record : Record} {visited : List (Uid × Record)}
      (found : find uid = some record) (next : record.predecessor? = some previous)
      (rest : Leads find previous visited last) : Leads find uid ((uid, record) :: visited) last

/-- No link leads on from a reference: it names nothing, or a root. -/
def Stops (find : Uid → Option Record) (uid : Uid) : Prop :=
  (find uid).bind Record.predecessor? = none

/-- The records from a reference along the links to a root, which is the last of them. -/
def Rooted (find : Uid → Option Record) (uid : Uid) (chain : List Record) : Prop :=
  ∃ visited last record, Leads find uid visited last ∧ find last = some record ∧
    record.predecessor? = none ∧ chain = visited.map Prod.snd ++ [record]

/-- Links lead from a reference to a record that they have led over before. -/
def Circular (find : Uid → Option Record) (uid : Uid) : Prop :=
  ∃ visited last, Leads find uid visited last ∧ last ∈ visited.map Prod.fst

variable {find : Uid → Option Record} {uid last other : Uid} {record : Record}
  {visited more : List (Uid × Record)}

theorem stops_of_none (missing : find uid = none) : Stops find uid := by
  rw [Stops, missing, Option.bind_none]

theorem stops_of_root (found : find uid = some record) (root : record.predecessor? = none) :
    Stops find uid := by
  rw [Stops, found, Option.bind_some, root]

theorem not_stops_of_link {previous : Uid} (found : find uid = some record)
    (next : record.predecessor? = some previous) : ¬ Stops find uid := by
  rw [Stops, found, Option.bind_some, next]
  exact Option.some_ne_none _

namespace Leads

theorem trans (first : Leads find uid visited last) (second : Leads find last more other) :
    Leads find uid (visited ++ more) other := by
  induction first with
  | here => exact second
  | link found next _ ih => exact .link found next (ih second)

/-- What was visited is a record, and links lead on from it. -/
theorem not_stops_of_mem (leads : Leads find uid visited last) :
    ∀ item ∈ visited, find item.1 = some item.2 ∧ ¬ Stops find item.1 := by
  induction leads with
  | here => simp
  | link found next _ ih =>
    intro item member
    rcases List.mem_cons.mp member with rfl | later
    · exact ⟨found, not_stops_of_link found next⟩
    · exact ih item later

/-- At every record that was visited the way can be parted in two. -/
theorem part {item : Uid × Record} (leads : Leads find uid visited last)
    (member : item ∈ visited) :
    ∃ before after, visited = before ++ item :: after ∧ Leads find uid before item.1 ∧
      Leads find item.1 (item :: after) last := by
  induction leads with
  | here => cases member
  | @link uid _ _ record rest found next leads ih =>
    rcases List.mem_cons.mp member with rfl | later
    · exact ⟨[], rest, rfl, .here _, .link found next leads⟩
    · obtain ⟨before, after, rfl, first, second⟩ := ih later
      exact ⟨(uid, record) :: before, after, rfl, .link found next first, second⟩

/-- There is only one way on, so a way that ends where none leads on goes along every other. -/
theorem exists_rest {final : Uid} (leads : Leads find uid visited last)
    (whole : Leads find uid more final) (stops : Stops find final) :
    ∃ rest, more = visited ++ rest ∧ Leads find last rest final := by
  induction leads generalizing more with
  | here => exact ⟨more, rfl, whole⟩
  | link found next _ ih =>
    cases whole with
    | here => exact absurd stops (not_stops_of_link found next)
    | link found' next' tail =>
      obtain rfl := Option.some.inj (found.symm.trans found')
      obtain rfl := Option.some.inj (next.symm.trans next')
      obtain ⟨rest, rfl, further⟩ := ih tail
      exact ⟨rest, rfl, further⟩

/-- Where no link leads on, one stays. -/
theorem eq_of_stops (leads : Leads find uid visited last) (stops : Stops find uid) :
    visited = [] ∧ last = uid := by
  cases leads with
  | here => exact ⟨rfl, rfl⟩
  | link found next _ => exact absurd stops (not_stops_of_link found next)

/-- From a reference there is one place only where no link leads on, and one way there. -/
theorem unique {final : Uid} (leads : Leads find uid visited last) (stops : Stops find last)
    (whole : Leads find uid more final) (ends : Stops find final) :
    more = visited ∧ final = last := by
  obtain ⟨rest, rfl, further⟩ := leads.exists_rest whole ends
  obtain ⟨rfl, rfl⟩ := further.eq_of_stops stops
  exact ⟨List.append_nil _, rfl⟩

end Leads

/-! ## Ways that stop and ways that do not -/

/-- A way that comes back to a record does not lead to where it would stop. -/
theorem Circular.not_stops (circular : Circular find uid) (leads : Leads find uid visited last) :
    ¬ Stops find last := by
  intro stops
  obtain ⟨round, home, out, again⟩ := circular
  obtain ⟨item, member, rfl⟩ := List.mem_map.mp again
  obtain ⟨before, after, -, -, back⟩ := out.part member
  -- From there the way on is as long as once round and then the way on.
  obtain ⟨rest, -, on⟩ := out.exists_rest leads stops
  have longer := (Leads.unique on stops (back.trans on) stops).1
  have sizes := congrArg List.length longer
  rw [List.length_append, List.length_cons] at sizes
  omega

theorem Circular.of_link {previous : Uid} (found : find uid = some record)
    (next : record.predecessor? = some previous) (circular : Circular find previous) :
    Circular find uid := by
  obtain ⟨visited, last, leads, again⟩ := circular
  exact ⟨(uid, record) :: visited, last, .link found next leads, List.mem_cons_of_mem _ again⟩

/-- Either all records on a way are different or it has come back to one of them. -/
theorem Leads.nodup_or_circular (leads : Leads find uid visited last) :
    (visited.map Prod.fst).Nodup ∨ Circular find uid := by
  induction leads with
  | here => exact .inl List.nodup_nil
  | @link uid previous _ record rest found next leads ih =>
    rcases ih with apart | circular
    · by_cases again : uid ∈ rest.map Prod.fst
      · obtain ⟨item, member, rfl⟩ := List.mem_map.mp again
        obtain ⟨before, -, -, first, -⟩ := leads.part member
        exact .inr ⟨_, _, .link found next first, List.mem_cons_self⟩
      · exact .inl (List.nodup_cons.mpr ⟨again, apart⟩)
    · exact .inr (circular.of_link found next)

theorem Leads.nodup_of_stops (leads : Leads find uid visited last) (stops : Stops find last) :
    (visited.map Prod.fst).Nodup :=
  leads.nodup_or_circular.resolve_right fun circular => circular.not_stops leads stops

/-- Links lead over as many records as asked for, unless they stop before. -/
theorem exists_leads_or_stops (find : Uid → Option Record) (count : Nat) (uid : Uid) :
    (∃ visited last, Leads find uid visited last ∧ visited.length = count) ∨
      ∃ visited last, Leads find uid visited last ∧ visited.length < count ∧ Stops find last := by
  induction count generalizing uid with
  | zero => exact .inl ⟨[], uid, .here uid, rfl⟩
  | succ count ih =>
    cases found : find uid with
    | none => exact .inr ⟨[], uid, .here uid, Nat.succ_pos _, stops_of_none found⟩
    | some record =>
      cases next : record.predecessor? with
      | none => exact .inr ⟨[], uid, .here uid, Nat.succ_pos _, stops_of_root found next⟩
      | some previous =>
        rcases ih previous with ⟨visited, last, leads, size⟩ | ⟨visited, last, leads, less, stops⟩
        · exact .inl ⟨_, last, .link found next leads, by rw [List.length_cons, size]⟩
        · refine .inr ⟨_, last, .link found next leads, ?_, stops⟩
          rw [List.length_cons]
          omega

theorem Circular.exists_leads (circular : Circular find uid) (count : Nat) :
    ∃ visited last, Leads find uid visited last ∧ visited.length = count := by
  refine (exists_leads_or_stops find count uid).resolve_right ?_
  rintro ⟨visited, last, leads, -, stops⟩
  exact circular.not_stops leads stops

/-! ## As many records as there are -/

section Bounded

variable {known : List Uid}

theorem Leads.visited_subset (inside : ∀ uid record, find uid = some record → uid ∈ known)
    (leads : Leads find uid visited last) : visited.map Prod.fst ⊆ known := by
  intro uid member
  obtain ⟨item, there, rfl⟩ := List.mem_map.mp member
  exact inside _ _ (leads.not_stops_of_mem item there).1

/-- A way without repetition is no longer than the number of records. -/
theorem Leads.length_le_of_nodup (inside : ∀ uid record, find uid = some record → uid ∈ known)
    (leads : Leads find uid visited last) (apart : (visited.map Prod.fst).Nodup) :
    visited.length ≤ known.length := by
  simpa using (List.subperm_of_subset apart (leads.visited_subset inside)).length_le

/-- Every way stops or comes back to a record. -/
theorem exists_stops_or_circular (inside : ∀ uid record, find uid = some record → uid ∈ known)
    (uid : Uid) :
    (∃ visited last, Leads find uid visited last ∧ Stops find last) ∨ Circular find uid := by
  rcases exists_leads_or_stops find (known.length + 1) uid with
    ⟨visited, last, leads, size⟩ | ⟨visited, last, leads, -, stops⟩
  · refine .inr (leads.nodup_or_circular.resolve_left fun apart => ?_)
    have short := leads.length_le_of_nodup inside apart
    omega
  · exact .inl ⟨visited, last, leads, stops⟩

/-- A chain to a root has room for all its records, the root included. -/
theorem Rooted.length_le {chain : List Record}
    (inside : ∀ uid record, find uid = some record → uid ∈ known)
    (rooted : Rooted find uid chain) : chain.length ≤ known.length := by
  obtain ⟨visited, last, record, leads, found, root, rfl⟩ := rooted
  have stops := stops_of_root found root
  have apart : (last :: visited.map Prod.fst).Nodup := by
    refine List.nodup_cons.mpr ⟨fun again => ?_, leads.nodup_of_stops stops⟩
    obtain ⟨item, member, same⟩ := List.mem_map.mp again
    exact (leads.not_stops_of_mem item member).2 (same ▸ stops)
  have among : last :: visited.map Prod.fst ⊆ known :=
    List.cons_subset.mpr ⟨inside _ _ found, leads.visited_subset inside⟩
  simpa using (List.subperm_of_subset apart among).length_le

end Bounded

/-! ## The records of logs -/

/-- The record that a reference names: its worker keeps a log, and the log has a record at the
offset. -/
def record? (workers : List UInt16) (table : UInt16 → List Record) (uid : Uid) : Option Record :=
  if uid.worker ∈ workers ∧ uid.offset.toNat % Record.width = 0 then
    (table uid.worker)[uid.offset.toNat / Record.width]?
  else none

/-- The references to all records of the logs of some workers. -/
def references (workers : List UInt16) (table : UInt16 → List Record) : List Uid :=
  workers.flatMap fun worker =>
    (List.range (table worker).length).map fun index =>
      ⟨worker, UInt64.ofNat (Record.width * index)⟩

variable {workers : List UInt16} {table : UInt16 → List Record}

theorem length_references (workers : List UInt16) (table : UInt16 → List Record) :
    (references workers table).length = (workers.map fun worker => (table worker).length).sum := by
  simp [references, List.length_flatMap]

/-- A reference that names a record is one of those to all records. -/
theorem mem_references_of_record? (found : record? workers table uid = some record) :
    uid ∈ references workers table := by
  rw [record?, Option.ite_none_right_eq_some] at found
  obtain ⟨⟨member, aligned⟩, there⟩ := found
  have within := (List.getElem?_eq_some_iff.mp there).1
  refine List.mem_flatMap.mpr ⟨uid.worker, member, List.mem_map.mpr
    ⟨uid.offset.toNat / Record.width, List.mem_range.mpr within, ?_⟩⟩
  rw [← (Record.offset_of_aligned aligned).2]

/-- Whose logs come first does not matter to what references name. -/
theorem record?_perm {others : List UInt16} (same : others.Perm workers) :
    record? others table = record? workers table := by
  funext uid
  simp only [record?, same.mem_iff]

end Wavefront.Links
