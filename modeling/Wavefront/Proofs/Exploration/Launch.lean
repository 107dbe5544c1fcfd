/-
# Launched runs

A `Course` is a run that was launched, whatever the disk held; what becomes of it depends on
the order in which its workers make their steps. `Course.pool` and `Course.history` say
where a schedule leads and what happens on the way. That a launched pool is ready is
proved once, here, and everything else about runs begins from it.
-/

import Wavefront.CounterGrid
import Wavefront.Proofs.Disk.Names
import Wavefront.Proofs.Exploration.Seeding

namespace Wavefront

open History Trace

variable {σ : Type}

/-! ## New logs -/

namespace Log

/-- A location that ends with the name of one of some workers' logs. -/
def Named (specName : String) (ids : List UInt16) (target : Location) : Prop :=
  ∃ id ∈ ids, ∃ above, target = above ++ [lastName specName id]

variable {specName : String} {ids : List UInt16} {place target : Location} {directory : Path}
  {id : UInt16} {disk after : Disk} {log : Log}

/-- A log is no page file, wherever it lies. -/
theorem Named.not_pageFileIn (named : Named specName ids target) :
    ¬ Spill.PageFileIn place target := by
  rintro ⟨name, isFile, rfl⟩
  obtain ⟨id, -, above, same⟩ := named
  have alike := (List.append_inj' same rfl).2
  rw [List.singleton_inj.mp alike, isPageFile_lastName] at isFile
  cases isFile

theorem Named.apart {above : Location} (named : Named specName ids target) (other : id ∉ ids) :
    target ≠ above ++ [lastName specName id] := by
  rintro rfl
  obtain ⟨among, member, before, same⟩ := named
  have alike := List.singleton_inj.mp (List.append_inj' same rfl).2
  exact other (lastName_injective specName alike ▸ member)

/-- A log that was just made is empty. -/
theorem create_eq_ok (made : create directory specName id disk = .ok (log, after)) :
    log.worker = id ∧ log.path = directory.join (fileName specName id) ∧ log.count = 0 ∧
      log.Holds after [] ∧ disk.Changes (· = log.handle.place) after ∧
      ∃ above, log.handle.place = above ++ [lastName specName id] := by
  unfold create at made
  cases opened : disk.create (directory.join (fileName specName id)) with
  | error cause => simp [opened] at made
  | ok result =>
    obtain ⟨handle, disk'⟩ := result
    simp only [opened, Except.ok.injEq, Prod.mk.injEq] at made
    obtain ⟨rfl, rfl⟩ := made
    obtain ⟨located, changes, empty⟩ := Disk.create_eq_ok opened
    exact ⟨rfl, rfl, rfl, ⟨rfl, changes.locate_iff.mpr located, [], rfl, empty⟩, changes,
      place_of_locate located⟩

end Log

/-! ## Settings that make sense -/

namespace Settings

variable {settings : Settings}

/-- Every page has room for a node. -/
theorem capacity_pos (valid : settings.validate = .ok ()) (id : Nat) :
    0 < settings.pageSizing.capacity id := by
  unfold validate at valid
  split at valid
  · cases valid
  · rename_i some
    cases sizing : settings.pageSizing with
    | fixed capacity =>
      apply Nat.pos_of_ne_zero
      intro (none : capacity = 0)
      exact some (by rw [sizing, none])
    | stepped =>
      show 0 < PageSizing.steppedCapacity id
      unfold PageSizing.steppedCapacity
      split_ifs <;> decide

/-- Trace records can name all workers. -/
theorem workerCount_le (valid : settings.validate = .ok ()) :
    settings.workerCount ≤ workerLimit := by
  unfold validate at valid
  split_ifs at valid with zero many
  all_goals omega

/-- The workers have different numbers. -/
theorem nodup_ids (valid : settings.validate = .ok ()) :
    ((List.range settings.workerCount).map UInt16.ofNat).Nodup := by
  have few := workerCount_le valid
  have limit : workerLimit = 65535 := rfl
  refine List.Nodup.map_on ?_ List.nodup_range
  intro first one second two same
  have numbers := congrArg UInt16.toNat same
  rw [List.mem_range] at one two
  rwa [UInt16.toNat_ofNat', UInt16.toNat_ofNat', Nat.mod_eq_of_lt (by omega),
    Nat.mod_eq_of_lt (by omega)] at numbers

end Settings

namespace Frontier

/-- What the settings decide about a frontier once and for all. -/
structure Follows (settings : Settings) (frontier : Frontier σ) : Prop where
  workers : frontier.workers = settings.workerCount
  sizing : frontier.sizing = settings.pageSizing
  memoryPages : frontier.memoryPages = settings.inMemoryPages
  donationRetries : frontier.donationRetries = settings.donationRetries

theorem Follows.of_eq {settings : Settings} {frontier later : Frontier σ} {head : Nat} {tail : Tail}
    {memory : Memory σ} (follows : frontier.Follows settings)
    (same : later = { frontier with head := head, tail := tail, memory := memory }) :
    later.Follows settings := by
  subst same
  exact ⟨follows.workers, follows.sizing, follows.memoryPages, follows.donationRetries⟩

theorem follows_of_establish {settings : Settings} {disk final : Disk} {frontier : Frontier σ}
    (established : Frontier.establish settings disk = (.ok frontier, final)) :
    frontier.Follows settings := by
  unfold Frontier.establish at established
  cases valid : settings.validate with
  | error cause => simp [valid] at established
  | ok done =>
    rcases opened : Spill.establish settings.directory disk with ⟨failure | spill, ready⟩
    · simp [valid, opened] at established
    · simp only [valid, opened, Prod.mk.injEq, Except.ok.injEq] at established
      obtain ⟨rfl, -⟩ := established
      exact ⟨rfl, rfl, rfl, rfl⟩

theorem directory_of_establish (model : Model σ) {settings : Settings} {disk final : Disk}
    {frontier : Frontier σ}
    (established : Frontier.establish settings disk = (.ok frontier, final)) :
    frontier.spill.directory = settings.directory := by
  unfold Frontier.establish at established
  cases valid : settings.validate with
  | error cause => simp [valid] at established
  | ok done =>
    rcases opened : Spill.establish settings.directory disk with ⟨failure | spill, ready⟩
    · simp [valid, opened] at established
    · simp only [valid, opened, Prod.mk.injEq, Except.ok.injEq] at established
      obtain ⟨rfl, -⟩ := established
      exact (Spill.establish_eq_ok model opened).1

end Frontier

namespace Exploration

variable {directory : Path} {specName : String} {localLimit : Nat} {ids : List UInt16}
  {disk after : Disk} {workers : List (Worker σ)}

/-- A worker that has nothing but a log. -/
def novice (localLimit : Nat) (log : Log) : Worker σ where
  id := log.worker
  localLimit := localLimit
  backlog := .empty
  held := none
  accepted := 0
  processed := 0
  log := log
  generated := 0
  outDegree := .empty ("worker " ++ toString log.worker.toNat ++ " out-degree") outDegreeBuckets
  maxLevel := 0
  stage := .polling

/-- A worker that was just hired has nothing but a log, and the log is empty. -/
structure Hired (directory : Path) (specName : String) (localLimit : Nat) (worker : Worker σ) :
    Prop where
  blank : worker = novice localLimit worker.log
  path : worker.log.path = directory.join (Log.fileName specName worker.log.worker)
  count : worker.log.count = 0

namespace Hired

variable {worker : Worker σ}

theorem fresh (hired : Hired directory specName localLimit worker) : worker.Fresh := by
  rw [hired.blank]
  exact ⟨rfl, Fifo.toList_empty, rfl, rfl, rfl, rfl, _, rfl⟩

theorem maxLevel_eq (hired : Hired directory specName localLimit worker) : worker.maxLevel = 0 := by
  rw [hired.blank]
  rfl

end Hired

/-- Workers that were just hired have logs in different files. -/
theorem hire_eq_ok (distinct : ids.Nodup)
    (hired : hire directory specName localLimit ids disk = (.ok workers, after)) :
    disk.Changes (Log.Named specName ids) after ∧ workers.map (·.log.worker) = ids ∧
      (∀ worker ∈ workers, Hired directory specName localLimit worker ∧
        Log.Named specName ids worker.log.handle.place) ∧
      Log.Hold (logs workers) after fun _ => [] := by
  induction ids generalizing disk workers with
  | nil =>
    simp only [hire, Prod.mk.injEq, Except.ok.injEq] at hired
    obtain ⟨rfl, rfl⟩ := hired
    exact ⟨.refl _ _, rfl, by simp, ⟨by simp [logs], by simp [logs], by simp [logs]⟩⟩
  | cons id rest ih =>
    obtain ⟨other, distinct⟩ := List.nodup_cons.mp distinct
    unfold hire Worker.create at hired
    cases made : Log.create directory specName id disk with
    | error cause => simp [made] at hired
    | ok result =>
      obtain ⟨log, first⟩ := result
      obtain ⟨own, path, none, holds, changes, above, place⟩ := Log.create_eq_ok made
      simp only [made] at hired
      rcases later : @hire σ directory specName localLimit rest first with ⟨failure | team, last⟩
      · simp [later] at hired
      · simp only [later, Prod.mk.injEq, Except.ok.injEq] at hired
        obtain ⟨rfl, rfl⟩ := hired
        obtain ⟨more, same, each, hold⟩ := ih distinct later
        have wider : ∀ target, Log.Named specName rest target →
            Log.Named specName (id :: rest) target :=
          fun _ ⟨among, member, named⟩ => ⟨among, List.mem_cons_of_mem _ member, named⟩
        have here : Log.Named specName (id :: rest) log.handle.place :=
          ⟨id, List.mem_cons_self, above, place⟩
        refine ⟨(changes.mono ?_).trans (more.mono wider), ?_, ?_, ⟨?_, ?_, ?_⟩⟩
        · rintro _ rfl
          exact here
        · rw [List.map_cons, same, own]
        · intro worker among
          rcases List.mem_cons.mp among with rfl | old
          · exact ⟨⟨by rw [← own]; rfl, own ▸ path, none⟩, here⟩
          · obtain ⟨new, named⟩ := each worker old
            exact ⟨new, wider _ named⟩
        · intro other among
          rcases List.mem_cons.mp among with rfl | old
          · exact holds.of_changes more fun named => named.apart ‹_› place
          · exact hold.holds other old
        · rw [logs, List.map_cons, List.map_cons, List.nodup_cons, own]
          refine ⟨?_, hold.workers⟩
          rwa [List.map_map, Function.comp_def, same]
        · rw [logs, List.map_cons, List.map_cons, List.nodup_cons]
          refine ⟨fun twice => ?_, hold.places⟩
          obtain ⟨log', there, alike⟩ := List.mem_map.mp twice
          obtain ⟨worker, member, rfl⟩ := List.mem_map.mp there
          exact (each worker member).2.apart other (alike.trans place)

/-- A pool whose workers were just hired is ready. -/
theorem ready_of_hire {model : Model σ} {initial : List σ} {seen : Seen} {settings : Settings}
    {prepared opened hired : Disk} {frontier : Frontier σ} (valid : settings.validate = .ok ())
    (established : Frontier.establish { settings with directory := directory } prepared =
      (.ok frontier, opened))
    (hiring : hire directory settings.specName settings.localBacklog
      ((List.range settings.workerCount).map UInt16.ofNat) opened = (.ok workers, hired)) :
    ∃ place, Pool.Ready model initial place [] [] ⟨workers, frontier, hired, seen, none, []⟩ := by
  have follows := Frontier.follows_of_establish established
  obtain ⟨-, -, -, -, tail, place, books⟩ := Frontier.establish_eq_ok model established
  obtain ⟨changes, same, each, hold⟩ := hire_eq_ok (Settings.nodup_ids valid) hiring
  have length : workers.length = settings.workerCount := by
    simpa using congrArg List.length same
  exact ⟨place, {
    books := books.of_changes changes fun target file named => named.not_pageFileIn file
    fresh := fun worker member => (each worker member).1.fresh
    apart := fun worker member => (each worker member).2.not_pageFileIn
    crew := length.trans follows.workers.symm
    positive := by
      rw [follows.sizing]
      exact Settings.capacity_pos valid
    nodes := .refl _
    logged := {
      hold := hold
      known := by simp
      count := by
        apply List.sum_eq_zero
        intro count member
        obtain ⟨log, among, rfl⟩ := List.mem_map.mp member
        obtain ⟨worker, there, rfl⟩ := List.mem_map.mp among
        exact (each worker there).1.count }
    recorded := .none
    met := by simp
    tail := tail
    ordered := rfl
    quiet := ⟨rfl, rfl, rfl⟩
    expanded := rfl
    report := rfl }⟩

/-! ## Courses -/

/-- The events that seeding by the first worker stands for. -/
def seedFirstEvents (model : Model σ) (initial : List σ) (workers : List (Worker σ))
    (shared : Shared σ) : History σ :=
  match workers with
  | [] => []
  | first :: _ => seedEvents model initial first shared

/-- The events that a launch which succeeds stands for. -/
def launchEvents (settings : Settings) (model : Model σ) (initial : List σ) (seen : Seen)
    (process run : Nat) (disk : Disk) : History σ :=
  match prepareDirectory settings process run disk with
  | (.error _, _, _) => []
  | (.ok directory, _, disk) =>
      match Frontier.establish { settings with directory := directory } disk with
      | (.error _, _) => []
      | (.ok frontier, disk) =>
          let ids := (List.range settings.workerCount).map UInt16.ofNat
          match hire directory settings.specName settings.localBacklog ids disk with
          | (.error _, _) => []
          | (.ok workers, disk) =>
              seedFirstEvents model initial workers ⟨frontier, disk, seen, none, []⟩

/-- A run that was launched. -/
structure Course (model : Model σ) (initial : List σ) (seen : Seen) where
  settings : Settings
  process : Nat
  number : Nat
  /-- The disk before the launch. -/
  disk : Disk
  launch : Launch σ
  /-- The number that the next run tries first. -/
  next : Nat
  /-- The disk after the launch. -/
  final : Disk
  launched : Exploration.launch settings model initial seen process number disk =
    (.ok launch, next, final)

namespace Course

variable {model : Model σ} {initial : List σ} {seen : Seen}

/-- Launch a run, if that is possible. -/
def launch? (settings : Settings) (model : Model σ) (initial : List σ) (seen : Seen)
    (process number : Nat) (disk : Disk) : Option (Course model initial seen) :=
  match launched : Exploration.launch settings model initial seen process number disk with
  | (.ok launch, next, final) =>
      some ⟨settings, process, number, disk, launch, next, final, launched⟩
  | (.error _, _, _) => none

/-- Two workers on a grid, with pages of one node of which one fits into memory. -/
def onGrid (grid : CounterGrid) : Option (Course grid.model grid.initialStates .empty) :=
  launch? { Settings.standard ⟨["runs"]⟩ with
    workers := 2, pageSizing := .fixed 1, inMemoryPages := 1, localBacklog := 1 }
    grid.model grid.initialStates .empty 1 0 .empty

/-- What happens during the launch. -/
def opening (course : Course model initial seen) : History σ :=
  launchEvents course.settings model initial seen course.process course.number course.disk

/-- The pool after the steps of a schedule. -/
def pool (course : Course model initial seen) (schedule : List Nat) : Pool σ :=
  course.launch.pool.follow model schedule

/-- What happens during the launch and the steps of a schedule. -/
def history (course : Course model initial seen) (schedule : List Nat) : History σ :=
  course.opening ++ course.launch.pool.events model schedule

theorem pool_append (course : Course model initial seen) (schedule more : List Nat) :
    course.pool (schedule ++ more) = (course.pool schedule).follow model more :=
  Pool.follow_append model _ schedule more

theorem history_append (course : Course model initial seen) (schedule more : List Nat) :
    course.history (schedule ++ more) =
      course.history schedule ++ (course.pool schedule).events model more := by
  rw [history, Pool.events_append, ← List.append_assoc]
  rfl

/-- The parts of a launch: a frontier is opened, workers are hired, and the first of them seeds. -/
theorem exists_hired (course : Course model initial seen) :
    course.settings.validate = .ok () ∧ course.launch.initialStates = initial.length ∧
      ∃ frontier opened workers hired,
        (∃ prepared, Frontier.establish
          { course.settings with directory := course.launch.runDirectory } prepared =
            (.ok frontier, opened)) ∧
        hire course.launch.runDirectory course.settings.specName course.settings.localBacklog
          ((List.range course.settings.workerCount).map UInt16.ofNat) opened =
            (.ok workers, hired) ∧
        seedFirst model initial workers ⟨frontier, hired, seen, none, []⟩ =
          (.ok course.launch.pool, course.final) ∧
        course.opening =
          seedFirstEvents model initial workers ⟨frontier, hired, seen, none, []⟩ := by
  have launched := course.launched
  unfold Exploration.launch at launched
  cases valid : course.settings.validate with
  | error cause => simp [valid] at launched
  | ok done =>
    rcases prepared : prepareDirectory course.settings course.process course.number course.disk with
      ⟨failure | directory, next, ready⟩
    · simp [valid, prepared] at launched
    · simp only [valid, prepared, launchIn] at launched
      rcases opened : @Frontier.establish σ { course.settings with directory := directory }
          ready with ⟨failure | frontier, disk⟩
      · simp [opened] at launched
      · simp only [opened] at launched
        rcases hired : @hire σ directory course.settings.specName course.settings.localBacklog
            ((List.range course.settings.workerCount).map UInt16.ofNat) disk with
          ⟨failure | workers, disk'⟩
        · simp [hired] at launched
        · simp only [hired] at launched
          rcases seeded : seedFirst model initial workers ⟨frontier, disk', seen, none, []⟩ with
            ⟨stop | pool, last⟩
          · simp [seeded] at launched
          · simp only [seeded, Prod.mk.injEq, Except.ok.injEq] at launched
            obtain ⟨launch, -, rfl⟩ := launched
            refine ⟨rfl, by rw [← launch], frontier, disk, workers, disk', ⟨ready, ?_⟩, ?_, ?_, ?_⟩
            · rw [← launch]
              exact opened
            · rw [← launch]
              exact hired
            · rw [seeded, ← launch]
            · simp only [opening, launchEvents, prepared, opened, hired]

/-- The pool of a course whose workers were just hired. -/
structure Hires (course : Course model initial seen) (pool : Pool σ) : Prop where
  follows : pool.shared.frontier.Follows course.settings
  directory : pool.shared.frontier.spill.directory = course.launch.runDirectory
  head : pool.shared.frontier.head = 0
  seen : pool.shared.seen = seen
  ids : pool.workers.map (·.log.worker) =
    (List.range course.settings.workerCount).map UInt16.ofNat
  each : ∀ worker ∈ pool.workers,
    Hired course.launch.runDirectory course.settings.specName course.settings.localBacklog worker

theorem Hires.length_eq {course : Course model initial seen} {pool : Pool σ}
    (hires : course.Hires pool) : pool.workers.length = course.settings.workerCount := by
  have lengths := congrArg List.length hires.ids
  simpa using lengths

/-- A pool whose workers were just hired is ready, and becomes the pool that is launched when the
first of them has seeded it. -/
theorem exists_hires (course : Course model initial seen) :
    ∃ place pool, Pool.Ready model initial place [] [] pool ∧ course.Hires pool ∧
      seedFirst model initial pool.workers pool.shared = (.ok course.launch.pool, course.final) ∧
      course.opening = seedFirstEvents model initial pool.workers pool.shared := by
  obtain ⟨valid, -, frontier, opened, workers, hired, ⟨prepared, established⟩, hiring, seeding,
    opening⟩ := course.exists_hired
  have follows := Frontier.follows_of_establish established
  obtain ⟨-, -, -, head, -⟩ := Frontier.establish_eq_ok model established
  obtain ⟨-, same, each, -⟩ := hire_eq_ok (Settings.nodup_ids valid) hiring
  obtain ⟨place, ready⟩ := @ready_of_hire _ _ _ model initial seen _ _ _ _ _ valid established
    hiring
  exact ⟨place, _, ready, {
    follows := ⟨follows.workers, follows.sizing, follows.memoryPages, follows.donationRetries⟩
    directory := Frontier.directory_of_establish model established
    head := head
    seen := rfl
    ids := same
    each := fun worker member => (each worker member).1 }, seeding, opening⟩

/-- What holds of a pool whose workers were just hired, and is preserved by seeding, holds of the
pool that was launched. Without workers nothing is seeded. -/
theorem launch_induction (course : Course model initial seen)
    {invariant : List σ → History σ → Pool σ → Prop}
    (start : ∀ {place : Location} {pool : Pool σ}, Pool.Ready model initial place [] [] pool →
      course.Hires pool → invariant [] [] pool)
    (preserved : ∀ {done rest : List σ} {past : History σ} {state : σ} {worker next : Worker σ}
      {others : List (Worker σ)} {shared after : Shared σ} {events : History σ},
      initial = done ++ state :: rest → worker.Seeding model state shared next after events →
      invariant done past ⟨worker :: others, shared⟩ →
      invariant (done ++ [state]) (past ++ events) ⟨next :: others, after⟩) :
    ∃ done, (course.launch.pool.workers ≠ [] → done = initial) ∧
      invariant done course.opening course.launch.pool := by
  obtain ⟨place, ⟨workers, shared⟩, ready, hires, seeding, opening⟩ := course.exists_hires
  have begun := start ready hires
  cases workers with
  | nil =>
    simp only [seedFirst, Prod.mk.injEq, Except.ok.injEq] at seeding
    rw [opening, ← seeding.1]
    exact ⟨[], by simp, begun⟩
  | cons first others =>
    rcases seeded : seed model initial first shared with ⟨stop | ⟨⟩, first', shared'⟩
    · simp [seedFirst, seeded] at seeding
    · simp only [seedFirst, seeded, Prod.mk.injEq, Except.ok.injEq] at seeding
      rw [opening, ← seeding.1]
      refine ⟨initial, fun _ => rfl, ?_⟩
      exact @seed_induction _ _ initial [] initial first first' shared shared' []
        (fun done past worker shared => invariant done past ⟨worker :: others, shared⟩)
        preserved rfl begun seeded

/-- There are as many workers as the settings ask for. -/
theorem length_workers (course : Course model initial seen) (schedule : List Nat) :
    (course.pool schedule).workers.length = course.settings.workerCount := by
  obtain ⟨done, -, launched⟩ := @launch_induction _ _ _ _ course
    (fun _ _ pool => pool.workers.length = course.settings.workerCount)
    (fun _ hires => hires.length_eq) (fun _ _ team => team)
  exact (Pool.length_follow model _ schedule).trans launched

/-- Every worker has a log of its own in the directory of the run, all the time. -/
theorem names_logs (course : Course model initial seen) (schedule : List Nat) :
    (course.pool schedule).logs.map Log.name =
      (List.range course.settings.workerCount).map fun number =>
        (UInt16.ofNat number, course.launch.runDirectory.join
          (Log.fileName course.settings.specName (UInt16.ofNat number))) := by
  obtain ⟨done, -, launched⟩ := @launch_induction _ _ _ _ course
    (fun _ _ pool => pool.logs.map Log.name =
      (List.range course.settings.workerCount).map fun number =>
        (UInt16.ofNat number, course.launch.runDirectory.join
          (Log.fileName course.settings.specName (UInt16.ofNat number))))
    (fun {place pool} _ hires => by
      have named : pool.logs.map Log.name = (pool.workers.map (·.log.worker)).map fun id =>
          (id, course.launch.runDirectory.join (Log.fileName course.settings.specName id)) := by
        rw [Pool.logs, List.map_map, List.map_map]
        apply List.map_congr_left
        intro worker member
        rw [Function.comp_apply, Log.name, (hires.each worker member).path]
        rfl
      rw [named, hires.ids, List.map_map]
      rfl)
    (fun _ seeding same => by
      cases seeding with
      | knows => exact same
      | plants => exact same)
  exact @Pool.follow_induction _ model
    (fun _ pool => pool.logs.map Log.name =
      (List.range course.settings.workerCount).map fun number =>
        (UInt16.ofNat number, course.launch.runDirectory.join
          (Log.fileName course.settings.specName (UInt16.ofNat number))))
    (fun {past pool position worker next shared events} found turn same => by
      rw [← same, Pool.logs, Pool.logs, List.map_map, List.map_map, List.map_set]
      apply set_eq_self
      rw [List.getElem?_map, found, Option.map_some, Function.comp_apply, Function.comp_apply,
        turn.name_log])
    course.opening course.launch.pool launched schedule

/-- A frontier stays what the settings made it. -/
theorem follows (course : Course model initial seen) (schedule : List Nat) :
    (course.pool schedule).shared.frontier.Follows course.settings := by
  obtain ⟨done, -, launched⟩ := @launch_induction _ _ _ _ course
    (fun _ _ pool => pool.shared.frontier.Follows course.settings)
    (fun _ hires => hires.follows)
    (fun _ seeding follows => by
      cases seeding with
      | knows => exact follows
      | plants new added enqueued =>
        obtain ⟨memory, rfl⟩ := Frontier.eq_of_enqueue enqueued
        exact follows.of_eq rfl)
  exact @Pool.follow_induction _ model
    (fun _ pool => pool.shared.frontier.Follows course.settings)
    (fun _ turn follows => by
      obtain ⟨head, tail, memory, same, -⟩ := turn.frontier_eq
      exact follows.of_eq same)
    course.opening course.launch.pool launched schedule

/-- Pages are spilled to the directory of the run, all the time. -/
theorem directory_eq (course : Course model initial seen) (schedule : List Nat) :
    (course.pool schedule).shared.frontier.spill.directory = course.launch.runDirectory := by
  obtain ⟨done, -, launched⟩ := @launch_induction _ _ _ _ course
    (fun _ _ pool => pool.shared.frontier.spill.directory = course.launch.runDirectory)
    (fun _ hires => hires.directory)
    (fun _ seeding same => by
      cases seeding with
      | knows => exact same
      | plants new added enqueued =>
        obtain ⟨memory, rfl⟩ := Frontier.eq_of_enqueue enqueued
        exact same)
  exact @Pool.follow_induction _ model
    (fun _ pool => pool.shared.frontier.spill.directory = course.launch.runDirectory)
    (fun _ turn same => by
      obtain ⟨_, _, _, alike, -⟩ := turn.frontier_eq
      rw [alike]
      exact same)
    course.opening course.launch.pool launched schedule

/-- Without workers nothing happens at the frontier. -/
theorem counters_of_unstaffed (course : Course model initial seen) (schedule : List Nat)
    (unstaffed : (course.pool schedule).workers = []) :
    (course.pool schedule).shared.frontier.head = 0 ∧
      (course.pool schedule).shared.frontier.tail = .ticket 0 := by
  obtain ⟨done, -, launched⟩ := @launch_induction _ _ _ _ course
    (fun _ _ pool => pool.workers = [] → pool.shared.frontier.head = 0 ∧
      pool.shared.frontier.tail = .ticket 0)
    (fun ready hires _ => ⟨hires.head, ready.tail⟩) (fun _ _ _ none => by cases none)
  exact @Pool.follow_induction _ model
    (fun _ pool => pool.workers = [] → pool.shared.frontier.head = 0 ∧
      pool.shared.frontier.tail = .ticket 0)
    (fun found _ _ none => by
      rw [List.set_eq_nil_iff] at none
      simp [none] at found)
    course.opening course.launch.pool launched schedule unstaffed

/-- A pool that was launched is ready. -/
theorem exists_ready (course : Course model initial seen) :
    ∃ place done, (course.launch.pool.workers ≠ [] → done = initial) ∧
      Pool.Ready model initial place done course.opening course.launch.pool := by
  obtain ⟨done, all, place, ready⟩ := @launch_induction _ _ _ _ course
    (fun done past pool => ∃ place, Pool.Ready model initial place done past pool)
    (fun ready _ => ⟨_, ready⟩)
    (fun whole seeding ⟨place, ready⟩ => ⟨place, ready.seed whole seeding⟩)
  exact ⟨place, done, all, ready⟩

end Course

end Exploration

end Wavefront
