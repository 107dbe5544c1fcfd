/-
# Runs in directories that mirror each other

What a run does and ends with does not depend on what else lies on the disk. Two launches in
directories that were just made, and are as easy to reach, turn out in the same way. Along every
schedule their pools are alike, and so are their conclusions: all that differs is the directory in
the outcome and in the paths of failures.
-/

import Wavefront.Proofs.Exploration.Conclusion
import Wavefront.Proofs.Exploration.Enclosure
import Wavefront.Proofs.Worker.Mirrors

namespace Wavefront

open History Trace

variable {σ : Type} {model : Model σ} {left right : Site} {disk mirror : Disk}

/-! ## Pools -/

namespace Pool

variable {pool other : Pool σ}

/-- Pools whose workers and shared states are alike. -/
structure Mirrors (left right : Site) (pool other : Pool σ) : Prop where
  workers : List.Forall₂ (Worker.Mirrors left right) pool.workers other.workers
  shared : pool.shared.Mirrors left right other.shared

namespace Mirrors

theorem stepAt (alike : Mirrors left right pool other) (position : Nat) :
    Mirrors left right (pool.stepAt model position) (other.stepAt model position) := by
  have pair := rel_getElem? alike.workers position
  unfold Pool.stepAt
  generalize pool.workers[position]? = worker at pair ⊢
  generalize other.workers[position]? = worker' at pair ⊢
  cases pair with
  | none => exact alike
  | some workers =>
    obtain ⟨steps, shares⟩ := workers.step alike.shared
    exact ⟨forall₂_set alike.workers steps position, shares⟩

theorem follow (alike : Mirrors left right pool other) (schedule : List Nat) :
    Mirrors left right (pool.follow model schedule) (other.follow model schedule) := by
  induction schedule generalizing pool other with
  | nil => exact alike
  | cons position rest ih => exact ih (alike.stepAt position)

theorem isSettled_eq (alike : Mirrors left right pool other) :
    other.isSettled = pool.isSettled := by
  have same {workers others : List (Worker σ)}
      (pairs : List.Forall₂ (Worker.Mirrors left right) workers others) :
      others.all (·.stage.isFinal) = workers.all (·.stage.isFinal) := by
    induction pairs with
    | nil => rfl
    | @cons worker _ _ _ pair _ ih =>
      obtain ⟨logs, stages⟩ := pair
      simp only [List.all_cons, ih]
      generalize worker.stage = stage at stages ⊢
      cases stages <;> rfl
  exact same alike.workers

end Mirrors

end Pool

/-! ## Logs -/

namespace Log

/-- A log is made in both directories or in none. -/
theorem create_mirrors {specName : String} (free : '/' ∉ specName.toList) (worker : UInt16)
    (mirrors : disk.Mirrors left right mirror) :
    Alike Eq (fun made made' => made.1.Mirrors left right made'.1 ∧
        made.2.Mirrors left right made'.2)
      (create left.path specName worker disk) (create right.path specName worker mirror) := by
  have plain := plain_fileName free worker
  have created := mirrors.create plain
  unfold create
  simp only [Path.join_eq_child (free_fileName free worker)]
  generalize disk.create _ = result at created ⊢
  generalize mirror.create _ = result' at created ⊢
  cases created with
  | error alike => exact .error alike
  | ok alike => exact .ok ⟨⟨rfl, rfl, rfl, _, plain, rfl, rfl, alike.1⟩, alike.2⟩

/-- Bringing all logs up to date leaves the directories alike. -/
theorem flushAll_mirrors {logs twins : List Log}
    (pairs : List.Forall₂ (Mirrors left right) logs twins)
    (mirrors : disk.Mirrors left right mirror) :
    (flushAll logs disk).Mirrors left right (flushAll twins mirror) := by
  induction pairs generalizing disk mirror with
  | nil => exact mirrors
  | cons pair _ ih => exact ih (pair.flush mirrors).2

theorem insertInto_mirrors {log twin : Log} {logs twins : List Log}
    (pair : log.Mirrors left right twin) (pairs : List.Forall₂ (Mirrors left right) logs twins) :
    List.Forall₂ (Mirrors left right) (log.insertInto logs) (twin.insertInto twins) := by
  induction pairs with
  | nil => exact .cons pair .nil
  | cons first rest ih =>
    rw [insertInto, insertInto, pair.worker, first.worker]
    split
    · exact .cons pair (.cons first rest)
    · exact .cons first ih

theorem sort_mirrors {logs twins : List Log}
    (pairs : List.Forall₂ (Mirrors left right) logs twins) :
    List.Forall₂ (Mirrors left right) (sort logs) (sort twins) := by
  induction pairs with
  | nil => exact .nil
  | cons pair _ ih => exact insertInto_mirrors pair ih

theorem map_worker_eq {logs twins : List Log}
    (pairs : List.Forall₂ (Mirrors left right) logs twins) :
    twins.map Log.worker = logs.map Log.worker := by
  induction pairs with
  | nil => rfl
  | cons pair _ ih => rw [List.map_cons, List.map_cons, pair.worker, ih]

end Log

namespace Forest

variable {forest twin : Forest}

/-- The log of a worker is found at the same place in both forests. -/
theorem log?_mirrors (pairs : List.Forall₂ (Log.Mirrors left right) forest.logs twin.logs)
    (worker : UInt16) :
    Option.Rel (Log.Mirrors left right) (forest.log? worker) (twin.log? worker) := by
  have there := rel_getElem? pairs
  simp only [log?, Log.map_worker_eq pairs]
  generalize search (forest.logs.map Log.worker) worker 0 _ _ = position
  have pair := there position
  generalize forest.logs[position]? = log at pair ⊢
  generalize twin.logs[position]? = log' at pair ⊢
  cases pair with
  | none => exact .none
  | @some log log' pair =>
    rw [Option.filter_some, Option.filter_some, pair.worker]
    split
    · exact .some pair
    · exact .none

/-- A record is read from both forests or from none. -/
theorem read_mirrors (pairs : List.Forall₂ (Log.Mirrors left right) forest.logs twin.logs)
    (mirrors : disk.Mirrors left right mirror) (uid : Uid) :
    Alike (Failure.Moved left.path right.path) Eq (forest.read uid disk).1
      (twin.read uid mirror).1 ∧
    List.Forall₂ (Log.Mirrors left right) (forest.read uid disk).2.1.logs
      (twin.read uid mirror).2.1.logs ∧
    (forest.read uid disk).2.2.Mirrors left right (twin.read uid mirror).2.2 := by
  have found := log?_mirrors pairs uid.worker
  unfold Forest.read
  generalize forest.log? uid.worker = log at found ⊢
  generalize twin.log? uid.worker = log' at found ⊢
  cases found with
  | none => exact ⟨.error (.same _), pairs, mirrors⟩
  | some pair =>
    obtain ⟨answers, logs, after⟩ := pair.read mirrors uid.worker uid.offset
    refine ⟨answers, ?_, after⟩
    simp only [setLog, logs.worker]
    rw [List.forall₂_map_left_iff, List.forall₂_map_right_iff]
    refine pairs.imp fun one two both => ?_
    rw [both.worker]
    split
    · exact logs
    · exact both

theorem climb_mirrors {target current : Uid} {room : Nat} {below : List Fingerprint}
    (pairs : List.Forall₂ (Log.Mirrors left right) forest.logs twin.logs)
    (mirrors : disk.Mirrors left right mirror) :
    Alike (Failure.Moved left.path right.path) Eq (climb target room current below forest disk).1
      (climb target room current below twin mirror).1 ∧
    List.Forall₂ (Log.Mirrors left right) (climb target room current below forest disk).2.1.logs
      (climb target room current below twin mirror).2.1.logs ∧
    (climb target room current below forest disk).2.2.Mirrors left right
      (climb target room current below twin mirror).2.2 := by
  induction room generalizing current below forest twin disk mirror with
  | zero => exact ⟨.error (.same _), pairs, mirrors⟩
  | succ room ih =>
    obtain ⟨answers, logs, after⟩ := read_mirrors pairs mirrors current
    simp only [climb]
    generalize forest.read current disk = result at answers logs after ⊢
    generalize twin.read current mirror = result' at answers logs after ⊢
    obtain ⟨answer, forest', disk'⟩ := result
    obtain ⟨answer', twin', mirror'⟩ := result'
    dsimp only at answers logs after
    cases answers with
    | error moved => exact ⟨.error moved, logs, after⟩
    | @ok record _ same =>
      subst same
      dsimp only
      cases record.predecessor? with
      | none => exact ⟨.ok rfl, logs, after⟩
      | some previous => exact ih logs after

theorem recordCount_eq (pairs : List.Forall₂ (Log.Mirrors left right) forest.logs twin.logs) :
    twin.recordCount = forest.recordCount := by
  unfold recordCount
  generalize forest.logs = logs at pairs
  generalize twin.logs = twins at pairs
  induction pairs with
  | nil => rfl
  | cons pair _ ih => rw [List.foldr_cons, List.foldr_cons, ih, pair.count]

end Forest

/-! ## Seeding -/

namespace Worker

variable {worker other : Worker σ} {shared alike : Shared σ} {log : Log} {state : σ}
  {level : UInt32}

/-- A worker with a log elsewhere seeds a state in the same way. -/
theorem Mirrors.seed (logs : worker.log.Mirrors left right log)
    (shares : shared.Mirrors left right alike) :
    Alike (Stop.Moved left.path right.path) Eq (worker.seed model state level shared).1
      ((worker.withLog log).seed model state level alike).1 ∧
    (∃ log', (worker.seed model state level shared).2.1.log.Mirrors left right log' ∧
      ((worker.withLog log).seed model state level alike).2.1 =
        (worker.seed model state level shared).2.1.withLog log') ∧
    (worker.seed model state level shared).2.2.Mirrors left right
      ((worker.withLog log).seed model state level alike).2.2 := by
  obtain ⟨spills, mirrors, reports⟩ := shares
  cases known : shared.seen.contains (model.fingerprint state) with
  | true =>
    simp only [Worker.seed, Seen.meet, known, Bool.not_true, Bool.false_eq_true, if_false]
    exact ⟨.ok rfl, ⟨log, logs, rfl⟩, .intro spills mirrors reports⟩
  | false =>
    obtain ⟨uid, appended⟩ := logs.append (.initial worker.log.worker (model.fingerprint state))
    have recorded : (worker.withLog log).recordInitial (model.fingerprint state) =
        ((worker.recordInitial (model.fingerprint state)).1,
          (worker.recordInitial (model.fingerprint state)).2.withLog
            (log.append (.initial worker.log.worker (model.fingerprint state))).2) := by
      simp only [recordInitial, withLog, Log.appendInitial, logs.worker, uid]
    simp only [Worker.seed, Seen.meet, known, Bool.not_false, if_true, recorded]
    obtain ⟨answers, later, after⟩ := Frontier.enqueueNode_mirrors model
      ⟨state, level, (worker.recordInitial (model.fingerprint state)).1⟩ spills mirrors
    rcases enqueued : shared.frontier.enqueueNode model
        ⟨state, level, (worker.recordInitial (model.fingerprint state)).1⟩ shared.disk with
      ⟨result, frontier, final⟩
    generalize (shared.frontier.moved right.path).enqueueNode model _ _ = moved
      at answers later after ⊢
    obtain ⟨result', frontier', final'⟩ := moved
    simp only [enqueued] at answers later after
    subst later
    obtain ⟨memory, same⟩ := Frontier.eq_of_enqueueNode enqueued
    have spills' : frontier.spill.directory = left.path := by rw [same]; exact spills
    refine ⟨?_, ⟨_, appended, rfl⟩, .intro spills' after reports⟩
    cases answers with
    | error alike => exact .error alike
    | ok => exact .ok rfl

end Worker

namespace Exploration

variable {settings : Settings} {initial : List σ} {seen : Seen}

theorem seed_mirrors {states : List σ} {worker : Worker σ} {shared alike : Shared σ} {log : Log}
    (logs : worker.log.Mirrors left right log) (shares : shared.Mirrors left right alike) :
    Alike (Stop.Moved left.path right.path) Eq (seed model states worker shared).1
      (seed model states (worker.withLog log) alike).1 ∧
    (∃ log', (seed model states worker shared).2.1.log.Mirrors left right log' ∧
      (seed model states (worker.withLog log) alike).2.1 =
        (seed model states worker shared).2.1.withLog log') ∧
    (seed model states worker shared).2.2.Mirrors left right
      (seed model states (worker.withLog log) alike).2.2 := by
  induction states generalizing worker shared alike log with
  | nil => exact ⟨.ok rfl, ⟨log, logs, rfl⟩, shares⟩
  | cons state rest ih =>
    obtain ⟨answers, ⟨log', logs', same⟩, after⟩ :=
      @Worker.Mirrors.seed _ model _ _ _ _ _ _ state 1 logs shares
    simp only [seed]
    generalize worker.seed model state 1 shared = seeded at answers logs' same after ⊢
    generalize (worker.withLog log).seed model state 1 alike = seeded' at answers same after ⊢
    obtain ⟨result, worker', shared'⟩ := seeded
    obtain ⟨result', other', alike'⟩ := seeded'
    dsimp only at answers logs' same after
    subst same
    cases answers with
    | error moved => exact ⟨.error moved, ⟨log', logs', rfl⟩, after⟩
    | ok => exact ih logs' after

/-! ## Launches -/

/-- A worker that is the same but for the place of its log. -/
def Elsewhere (left right : Site) (worker other : Worker σ) : Prop :=
  ∃ log, worker.log.Mirrors left right log ∧ other = worker.withLog log

theorem Elsewhere.mirrors {worker other : Worker σ} (pair : Elsewhere left right worker other) :
    worker.Mirrors left right other := by
  obtain ⟨log, logs, rfl⟩ := pair
  exact .of_log logs

theorem logs_mirrors {workers others : List (Worker σ)}
    (pairs : List.Forall₂ (Worker.Mirrors left right) workers others) :
    List.Forall₂ (Log.Mirrors left right) (logs workers) (logs others) := by
  rw [logs, logs, List.forall₂_map_left_iff, List.forall₂_map_right_iff]
  refine pairs.imp fun one two both => ?_
  cases both with
  | intro logs => exact logs

theorem hire_mirrors {specName : String} {localLimit : Nat} {ids : List UInt16}
    (free : '/' ∉ specName.toList) (mirrors : disk.Mirrors left right mirror) :
    Alike (Failure.Moved left.path right.path) (List.Forall₂ (@Elsewhere σ left right))
      (hire left.path specName localLimit ids disk).1
      (hire right.path specName localLimit ids mirror).1 ∧
    (@hire σ left.path specName localLimit ids disk).2.Mirrors left right
      (@hire σ right.path specName localLimit ids mirror).2 := by
  induction ids generalizing disk mirror with
  | nil => exact ⟨.ok .nil, mirrors⟩
  | cons id rest ih =>
    have created := Log.create_mirrors free id mirrors
    unfold hire Worker.create
    generalize Log.create left.path specName id disk = result at created ⊢
    generalize Log.create right.path specName id mirror = result' at created ⊢
    cases created with
    | error same =>
      subst same
      exact ⟨.error (.same _), mirrors⟩
    | @ok made made' alike =>
      obtain ⟨log, first⟩ := made
      obtain ⟨log', first'⟩ := made'
      obtain ⟨answers, after⟩ := ih alike.2
      dsimp only at answers after ⊢
      generalize @hire σ left.path specName localLimit rest first = hired at answers after ⊢
      generalize @hire σ right.path specName localLimit rest first' = hired' at answers after ⊢
      obtain ⟨team, last⟩ := hired
      obtain ⟨team', last'⟩ := hired'
      dsimp only at answers after
      cases answers with
      | error moved => exact ⟨.error moved, after⟩
      | ok pairs => exact ⟨.ok (.cons ⟨log', alike.1, rfl⟩ pairs), after⟩

theorem seedFirst_mirrors {workers others : List (Worker σ)} {shared alike : Shared σ}
    (pairs : List.Forall₂ (Elsewhere left right) workers others)
    (shares : shared.Mirrors left right alike) :
    Alike (Stop.Moved left.path right.path) (Pool.Mirrors left right)
      (seedFirst model initial workers shared).1 (seedFirst model initial others alike).1 ∧
    (seedFirst model initial workers shared).2.Mirrors left right
      (seedFirst model initial others alike).2 := by
  cases pairs with
  | nil => exact ⟨.ok ⟨.nil, shares⟩, shares.disks⟩
  | cons first rest =>
    obtain ⟨log, logs, rfl⟩ := first
    have rest' := rest.imp fun _ _ => Elsewhere.mirrors
    obtain ⟨answers, ⟨log', logs', same⟩, after⟩ :=
      @seed_mirrors _ model _ _ initial _ _ _ _ logs shares
    simp only [seedFirst]
    generalize seed model initial _ shared = seeded at answers logs' same after ⊢
    generalize seed model initial _ alike = seeded' at answers same after ⊢
    obtain ⟨result, worker', shared'⟩ := seeded
    obtain ⟨result', other', alike'⟩ := seeded'
    dsimp only at answers logs' same after
    subst same
    have team := List.Forall₂.cons (Worker.Mirrors.of_log logs') rest'
    cases answers with
    | error moved => exact ⟨.error moved, Log.flushAll_mirrors (logs_mirrors team) after.disks⟩
    | ok => exact ⟨.ok ⟨team, after⟩, after.disks⟩

/-- Launches in directories that were just made, and are as easy to reach, turn out in the same
way. -/
theorem launchIn_mirrors (valid : settings.validate = .ok ())
    (free : '/' ∉ settings.specName.toList)
    (found : disk.lookup left.path = .ok (left.place, .directory))
    (found' : mirror.lookup right.path = .ok (right.place, .directory))
    (bare : ∀ name, disk.get? (left.place ++ [name]) = none)
    (bare' : ∀ name, mirror.get? (right.place ++ [name]) = none)
    (reach : ∀ name, disk.reach left.path name = mirror.reach right.path name)
    (stamps : left.Level right disk.nextStamp mirror.nextStamp) :
    Alike (Stop.Moved left.path right.path)
      (fun launched launched' => launched.pool.Mirrors left right launched'.pool ∧
        launched'.initialStates = launched.initialStates ∧
        launched.runDirectory = left.path ∧ launched'.runDirectory = right.path)
      (launchIn left.path settings model initial seen disk).1
      (launchIn right.path settings model initial seen mirror).1 ∧
    (launchIn left.path settings model initial seen disk).2.Mirrors left right
      (launchIn right.path settings model initial seen mirror).2 := by
  have mirrors : disk.Mirrors left right mirror := {
    opens := Disk.opens_of_lookup found
    opens' := Disk.opens_of_lookup found'
    reach := reach
    entries := fun name => by
      rw [bare, bare']
      exact .none
    stamps := stamps }
  let frontier : Frontier σ := ⟨settings.workerCount, settings.pageSizing, settings.inMemoryPages,
    settings.donationRetries, 0, .ticket 0, .empty, ⟨left.path⟩⟩
  have established {path : Path} {place : Location} {disk : Disk}
      (found : disk.lookup path = .ok (place, .directory))
      (bare : ∀ name, disk.get? (place ++ [name]) = none) :
      Frontier.establish { settings with directory := path } disk =
        (.ok (frontier.moved path), disk) := by
    have alike : { settings with directory := path }.validate = .ok () := valid
    simp only [Frontier.establish, alike, Spill.establish_of_bare found bare]
    rfl
  simp only [launchIn, established found bare, established found' bare']
  obtain ⟨answers, after⟩ := @hire_mirrors σ _ _ _ _ settings.specName settings.localBacklog
    ((List.range settings.workerCount).map UInt16.ofNat) free mirrors
  generalize @hire σ left.path _ _ _ disk = hired at answers after ⊢
  generalize @hire σ right.path _ _ _ mirror = hired' at answers after ⊢
  obtain ⟨team, opened⟩ := hired
  obtain ⟨team', opened'⟩ := hired'
  dsimp only at answers after
  cases answers with
  | error moved => exact ⟨.error (.failure moved), after⟩
  | @ok team team' pairs =>
    have shares : Shared.Mirrors left right ⟨frontier.moved left.path, opened, seen, none, []⟩
        ⟨frontier.moved right.path, opened', seen, none, []⟩ := .intro rfl after .none
    obtain ⟨seeds, final⟩ := @seedFirst_mirrors _ model _ _ initial _ _ _ _ pairs shares
    dsimp only
    generalize seedFirst model initial team _ = seeded at seeds final ⊢
    generalize seedFirst model initial team' _ = seeded' at seeds final ⊢
    obtain ⟨result, last⟩ := seeded
    obtain ⟨result', last'⟩ := seeded'
    dsimp only at seeds final
    cases seeds with
    | error moved => exact ⟨.error moved, final⟩
    | ok pools => exact ⟨.ok ⟨pools, rfl, rfl, rfl⟩, final⟩

/-! ## Conclusions -/

/-- Dropping the pages that wait leaves the directories alike. -/
theorem discard_mirrors {frontier later later' : Frontier σ} {final final' : Disk}
    {dropped dropped' : Nat} (spills : frontier.spill.directory = left.path)
    (mirrors : disk.Mirrors left right mirror)
    (discarded : frontier.discard disk = (.ok dropped, later, final))
    (discarded' : (frontier.moved right.path).discard mirror = (.ok dropped', later', final')) :
    final.Mirrors left right final' := by
  have opens : disk.Opens frontier.spill.directory left.place := spills ▸ mirrors.opens
  have changes := Frontier.changes_discard opens discarded
  have changes' := @Frontier.changes_discard _ _ _ _ (frontier.moved right.path) _ _ mirrors.opens'
    discarded'
  refine ⟨mirrors.opens.of_changes changes, mirrors.opens'.of_changes changes', fun name => ?_,
    fun name => ?_, ?_⟩
  · rw [Disk.reach_eq changes.pathLimit, Disk.reach_eq changes'.pathLimit]
    exact mirrors.reach name
  · cases named : Spill.isPageFile name with
    | true =>
      rw [Frontier.get?_of_discard opens discarded named,
        @Frontier.get?_of_discard _ _ _ _ (frontier.moved right.path) _ _ _ mirrors.opens'
          discarded' named]
      exact .none
    | false =>
      have apart {place : Location} : ¬ Spill.PageFileIn place (place ++ [name]) := by
        rintro ⟨other, file, same⟩
        obtain rfl : name = other := by simpa using same
        rw [named] at file
        cases file
      rw [changes.elsewhere _ apart, changes'.elsewhere _ apart]
      exact mirrors.entries name
  · rw [Frontier.nextStamp_discard discarded, Frontier.nextStamp_discard discarded']
    exact mirrors.stamps

theorem firstFault?_eq {workers others : List (Worker σ)}
    (pairs : List.Forall₂ (Worker.Mirrors left right) workers others) :
    firstFault? others = firstFault? workers := by
  induction pairs with
  | nil => rfl
  | @cons worker _ _ _ pair _ ih =>
    obtain ⟨logs, stages⟩ := pair
    simp only [firstFault?, ih]
    generalize worker.stage = stage at stages ⊢
    cases stages <;> rfl

theorem summarize_eq {workers others : List (Worker σ)} (summary : Summary)
    (pairs : List.Forall₂ (Worker.Mirrors left right) workers others) :
    summarize others summary = summarize workers summary := by
  induction pairs generalizing summary with
  | nil => rfl
  | cons pair _ ih =>
    obtain ⟨logs, stages⟩ := pair
    simp only [summarize, ih]

theorem judge_mirrors {report report' : Option (Report σ)} {logs twins : List Log}
    (reports : Report.Moved left.path right.path report report')
    (pairs : List.Forall₂ (Log.Mirrors left right) logs twins)
    (mirrors : disk.Mirrors left right mirror) :
    Alike (Failure.Moved left.path right.path) Eq (judge report logs disk).1
      (judge report' twins mirror).1 ∧
    List.Forall₂ (Log.Mirrors left right) (judge report logs disk).2.1
      (judge report' twins mirror).2.1 ∧
    (judge report logs disk).2.2.Mirrors left right (judge report' twins mirror).2.2 := by
  cases reports with
  | none => exact ⟨.ok rfl, pairs, mirrors⟩
  | some node moved =>
    cases node with
    | none => exact ⟨.error moved, pairs, mirrors⟩
    | some node =>
      simp only [judge, moved.isOfModel_eq]
      split
      · rename_i own
        obtain rfl := moved.eq_of_isOfModel own
        have sorted : List.Forall₂ (Log.Mirrors left right) (Forest.collect logs).logs
            (Forest.collect twins).logs := Log.sort_mirrors pairs
        obtain ⟨answers, after, last⟩ := @Forest.climb_mirrors _ _ _ _ _ _ node.uid node.uid
          (Forest.collect logs).recordCount [] sorted mirrors
        simp only [Forest.pathTo, Forest.recordCount_eq sorted]
        generalize Forest.climb node.uid _ node.uid [] (Forest.collect logs) disk = climbed
          at answers after last ⊢
        generalize Forest.climb node.uid _ node.uid [] (Forest.collect twins) mirror = climbed'
          at answers after last ⊢
        obtain ⟨result, forest, disk'⟩ := climbed
        obtain ⟨result', twin, mirror'⟩ := climbed'
        dsimp only at answers after last
        cases answers with
        | error moved => exact ⟨.error moved, after, last⟩
        | ok same =>
          subst same
          exact ⟨.ok rfl, after, last⟩
      · exact ⟨.error moved, pairs, mirrors⟩

theorem summaryOf_eq {launch launch' : Launch σ} {pool other : Pool σ}
    (alike : pool.Mirrors left right other)
    (counts : launch'.initialStates = launch.initialStates) :
    summaryOf launch' other = summaryOf launch pool := by
  simp only [summaryOf, summarize_eq _ alike.workers, alike.workers.length_eq, counts,
    alike.shared.seen_eq]

/-- Pools that are alike come to the same conclusion. -/
theorem conclude_mirrors {launch launch' : Launch σ} {pool other : Pool σ} {place place' : Location}
    {past past' : History σ} (alike : pool.Mirrors left right other)
    (counts : launch'.initialStates = launch.initialStates)
    (sound : Pool.Sound model place past pool) (sound' : Pool.Sound model place' past' other) :
    Alike (Stop.Moved left.path right.path)
      (fun outcome outcome' => outcome' = { outcome with runDirectory := launch'.runDirectory })
      (conclude launch pool).1 (conclude launch' other).1 ∧
    (conclude launch pool).2.Mirrors left right (conclude launch' other).2 := by
  have twins := logs_mirrors alike.workers
  have tails : other.shared.frontier.tail = pool.shared.frontier.tail := by
    rw [alike.shared.frontier_eq]
    rfl
  unfold conclude
  simp only [firstFault?_eq alike.workers]
  cases firstFault? pool.workers with
  | some fault => exact ⟨.error (.fault _), Log.flushAll_mirrors twins alike.shared.disks⟩
  | none =>
    by_cases ended : pool.shared.frontier.tail = .finished
    · obtain ⟨dropped, final, discarded, -⟩ := sound.books.stocks.discard_of_finished ended
      obtain ⟨dropped', final', discarded', -⟩ :=
        sound'.books.stocks.discard_of_finished (tails.trans ended)
      have moved := discarded'
      rw [alike.shared.frontier_eq] at moved
      have after := discard_mirrors alike.shared.spills alike.shared.disks discarded moved
      simp only [discarded, discarded', summaryOf_eq alike counts]
      cases summaryOf launch pool with
      | error fault => exact ⟨.error (.fault _), Log.flushAll_mirrors twins after⟩
      | ok summary =>
        obtain ⟨answers, pairs, last⟩ := judge_mirrors alike.shared.reports twins after
        dsimp only
        generalize judge pool.shared.report (logs pool.workers) final = judged
          at answers pairs last ⊢
        generalize judge other.shared.report (logs other.workers) final' = judged'
          at answers pairs last ⊢
        obtain ⟨verdict, rest, disk⟩ := judged
        obtain ⟨verdict', rest', disk'⟩ := judged'
        dsimp only at answers pairs last
        refine ⟨?_, Log.flushAll_mirrors pairs last⟩
        cases answers with
        | error moved => exact .error (.failure moved)
        | ok same =>
          subst same
          exact .ok rfl
    · rw [Frontier.discard_of_live ended, Frontier.discard_of_live (tails ▸ ended)]
      exact ⟨.error (.fault _), Log.flushAll_mirrors twins alike.shared.disks⟩

end Exploration

end Wavefront
