/-
# Tracing what was recorded

The logs of a run hold the records of all nodes that were recorded. From any of these nodes
one can therefore climb to an initial one, and the fingerprints met on the way lead back to
the node when they are replayed. `Traced` says what is promised of such a path; nothing
is assumed of fingerprints.
-/

import Wavefront.Proofs.Trace.Discovery

namespace Wavefront.Trace

variable {σ : Type}

variable {model : Model σ} {items : List (Finding σ)} {item : Finding σ} {logs : List Log}
  {disk final : Disk} {position : Nat} {log : Log}

/-- Some logs hold the records of all nodes recorded so far, and no others. -/
structure Logged (model : Model σ) (items : List (Finding σ)) (logs : List Log) (disk : Disk) :
    Prop where
  hold : Log.Hold logs disk (recordsOf model items)
  known : ∀ item ∈ items, item.2.uid.worker ∈ logs.map Log.worker
  count : (logs.map Log.count).sum = items.length

namespace Logged

/-- The next record of a worker goes to the end of its log. -/
theorem size_eq (logged : Logged model items logs disk) (member : log ∈ logs) :
    log.size = Record.width * (findingsOf items log.worker).length := by
  rw [Log.size, (logged.hold.holds log member).count, recordsOf, List.length_map]

/-- Every node recorded has its record in one of the logs, the one that its reference names. -/
theorem perm_findingsOf (logged : Logged model items logs disk) :
    items.Perm (logs.flatMap fun log => findingsOf items log.worker) := by
  rw [← List.flatMap_map Log.worker (findingsOf items)]
  exact perm_flatMap_filter logged.hold.workers logged.known

theorem of_changes {touched : Location → Prop} (logged : Logged model items logs disk)
    (changes : disk.Changes touched final) (apart : ∀ log ∈ logs, ¬ touched log.handle.place) :
    Logged model items logs final :=
  ⟨logged.hold.of_changes changes apart, logged.known, logged.count⟩

/-- Bringing one log up to date changes nothing. -/
theorem flush (logged : Logged model items logs disk) (found : logs[position]? = some log) :
    Logged model items (logs.set position (log.flush disk).1) (log.flush disk).2 := by
  have holds := logged.hold.holds log (List.mem_of_getElem? found)
  have alike {α : Type} (feature : Log → α) (same : feature (log.flush disk).1 = feature log) :
      (logs.set position (log.flush disk).1).map feature = logs.map feature := by
    rw [List.map_set, same]
    apply set_eq_self
    rw [List.getElem?_map, found, Option.map_some]
  refine ⟨?_, ?_, ?_⟩
  · refine logged.hold.set found (log.changes_flush _) (Log.worker_flush _ _)
      (Log.handle_flush _ _) ?_ fun _ _ => rfl
    rw [Log.worker_flush]
    exact holds.flush.1
  · rw [alike Log.worker (Log.worker_flush _ _)]
    exact logged.known
  · rw [alike Log.count (Log.count_flush _ _)]
    exact logged.count

/-- A node that is recorded has its record appended to the log of its worker. -/
theorem append (logged : Logged model items logs disk) (found : logs[position]? = some log)
    (own : item.2.uid.worker = log.worker) :
    Logged model (items ++ [item]) (logs.set position (log.append (recordOf model item)).2)
      disk := by
  have holds := logged.hold.holds log (List.mem_of_getElem? found)
  have workers : (logs.set position (log.append (recordOf model item)).2).map Log.worker =
      logs.map Log.worker := by
    rw [List.map_set]
    apply set_eq_self
    rw [List.getElem?_map, found, Option.map_some]
    rfl
  refine ⟨?_, ?_, ?_⟩
  · refine logged.hold.set found (.refl _ _) rfl rfl ?_ fun other apart => ?_
    · have longer := holds.append (recordOf model item)
      simpa [recordsOf, findingsOf, own, Log.append] using longer
    · have none : findingsOf [item] other = [] := by
        simpa [findingsOf, own] using Ne.symm apart
      rw [recordsOf, recordsOf, findingsOf_append, none, List.append_nil]
  · intro other among
    rw [workers]
    rcases List.mem_append.mp among with old | new
    · exact logged.known other old
    · rw [List.mem_singleton.mp new, own]
      exact List.mem_map_of_mem (List.mem_of_getElem? found)
  · have before := logged.count
    rw [sum_map_others Log.count found] at before
    rw [sum_map_set_others Log.count found, List.length_append, ← before]
    simp only [Log.append, List.length_singleton]
    omega

end Logged

/-! ## Paths -/

/-- A path leads from an initial state to a node, along the route on which it was discovered. -/
structure Traced (model : Model σ) (initial : List σ) (items : List (Finding σ)) (node : Node σ)
    (path : List Fingerprint) : Prop where
  length : path.length = node.level.toNat
  first : ∃ start ∈ initial, path.head? = some (model.fingerprint start)
  last : path.getLast? = some (model.fingerprint node.state)
  replayed : ∃ states, replay model initial path = .ok states ∧
    states.map model.fingerprint = path ∧
    (∃ start ∈ initial, states.head? = some start) ∧
    (states.IsChain fun state next => ∃ among, model.successors state = .ok among ∧ next ∈ among) ∧
    states.getLast? = some node.state ∧
    ∃ route, Route items route node ∧ states = route.map Node.state

variable {initial : List σ} {route : List (Node σ)} {node : Node σ}

/-- The fingerprints along a route lead back along it. -/
theorem Route.traced (recorded : Recorded model initial items) (way : Route items route node) :
    Traced model initial items node (route.map fun node => model.fingerprint node.state) := by
  have founded := recorded.founded
  obtain ⟨⟨start, inside, head⟩, chain⟩ := way.states founded
  have prints : (route.map fun node => model.fingerprint node.state) =
      (route.map Node.state).map model.fingerprint := by simp
  exact {
    length := by rw [List.length_map, way.length_eq founded]
    first := ⟨start, inside, by rw [prints, List.head?_map, head, Option.map_some]⟩
    last := by rw [List.getLast?_map, way.getLast?, Option.map_some]
    replayed := ⟨route.map Node.state, way.replay founded, prints.symm, ⟨start, inside, head⟩,
      chain, by rw [List.getLast?_map, way.getLast?, Option.map_some], route, way, rfl⟩ }

/-- Climbing through the logs collects the fingerprints along a route. -/
theorem Logged.pathTo_eq (logged : Logged model items logs disk)
    (recorded : Recorded model initial items) (small : ∀ log ∈ logs, log.size < 2 ^ 64)
    (way : Route items route node) (short : route.length ≤ items.length) :
    ((Forest.collect logs).pathTo node.uid disk).1 =
      .ok (route.map fun node => model.fingerprint node.state) := by
  have limited : ∀ worker, Record.width * (findingsOf items worker).length < 2 ^ 64 := by
    intro worker
    by_cases known : worker ∈ logs.map Log.worker
    · obtain ⟨log, there, rfl⟩ := List.mem_map.mp known
      rw [← logged.size_eq there]
      exact small log there
    · have none : findingsOf items worker = [] := by
        apply List.filter_eq_nil_iff.mpr
        intro other among own
        exact known (beq_iff_eq.mp own ▸ logged.known other among)
      simp [none]
  have room : route.length ≤ (Forest.collect logs).recordCount :=
    short.trans_eq (logged.count.symm.trans (Forest.recordCount_collect logs).symm)
  have known : ∀ item ∈ items, item.2.uid.worker ∈ (Forest.collect logs).logs.map Log.worker :=
    fun item member =>
      ((Forest.perm_collect logs).map _).mem_iff.mpr (logged.known item member)
  have climbed := @Route.climb _ _ _ _ _ _ node.uid _ [] _ _ way recorded known limited
    logged.hold.collect room
  rwa [List.append_nil] at climbed

/-- Every node recorded can be traced through the logs. -/
theorem Logged.exists_path (logged : Logged model items logs disk)
    (recorded : Recorded model initial items) (small : ∀ log ∈ logs, log.size < 2 ^ 64)
    (member : item ∈ items) :
    ∃ path, ((Forest.collect logs).pathTo item.2.uid disk).1 = .ok path ∧
      Traced model initial items item.2 path := by
  obtain ⟨route, way, short⟩ := recorded.exists_route item member
  exact ⟨_, logged.pathTo_eq recorded small way short, way.traced recorded⟩

end Wavefront.Trace
