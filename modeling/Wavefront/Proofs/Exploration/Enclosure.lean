/-
# Runs stay in their directories

A run whose spec name has no slash makes one directory below that of its settings, where there was
nothing, and from then on it changes files directly inside that directory only. This is so at every
step and however the run ends. It stays so while others do with the disk what they like, as long as
they leave directories alone, and they do the same: so runs that share a disk never write the same
file.
-/

import Wavefront.Proofs.Exploration.Conclusion
import Wavefront.Proofs.Exploration.Refusal
import Wavefront.Proofs.Store.Enclosure

namespace Wavefront

open History

variable {σ : Type}

namespace Disk

variable {place other target : Location}

/-- A location directly below another. -/
def Inside (place target : Location) : Prop := ∃ name, target = place ++ [name]

theorem Inside.of_pageFileIn (file : Spill.PageFileIn place target) : Inside place target := by
  obtain ⟨name, -, rfl⟩ := file
  exact ⟨name, rfl⟩

/-- Nothing lies directly below two locations. -/
theorem Inside.eq (one : Inside place target) (two : Inside other target) : place = other := by
  obtain ⟨name, rfl⟩ := one
  obtain ⟨name', same⟩ := two
  exact (List.append_inj' same rfl).1

end Disk

/-! ## Names without slashes -/

/-- A name without slashes is put directly under a path. -/
theorem Path.join_eq_child {path : Path} {tail : String} (free : '/' ∉ tail.toList) :
    path.join tail = path.child tail := by
  have whole : (Path.ofText tail).pieces = [tail] := by
    simp [ofText, splitSlashes_of_no_slash free, String.ofList_toList]
  unfold join
  split
  · rename_i rest starts
    simp [starts] at free
  · rw [whole]
    rfl

theorem notMem_digits (c : Char) (other : c.isDigit = false) (n : Nat) :
    c ∉ (toString n).toList := by
  rw [toList_toString]
  intro digit
  have numeric := Nat.isDigit_of_mem_toDigits (by decide) (by decide) digit
  rw [other] at numeric
  cases numeric

namespace Log

variable {specName : String}

theorem free_fileName (free : '/' ∉ specName.toList) (worker : UInt16) :
    '/' ∉ (fileName specName worker).toList := by
  simp only [fileName, String.toList_append, List.mem_append, not_or]
  exact ⟨⟨⟨free, by decide⟩, notMem_digits _ (by decide) _⟩, by decide⟩

/-- Without slashes, the path of a log ends with the whole name of its file. -/
theorem lastName_eq (free : '/' ∉ specName.toList) (worker : UInt16) :
    lastName specName worker = fileName specName worker := by
  rw [← String.toList_inj, toList_lastName, Path.lastPiece, Path.splitSlashes_of_no_slash free]
  simp [fileName, String.toList_append]

theorem plain_fileName (free : '/' ∉ specName.toList) (worker : UInt16) :
    Disk.Plain (fileName specName worker) :=
  lastName_eq free worker ▸ plain_lastName specName worker

end Log

namespace Exploration

variable {specName : String}

theorem free_runName (free : '/' ∉ specName.toList) (process run : Nat) :
    '/' ∉ (runName specName process run).toList := by
  simp only [runName, String.toList_append, List.mem_append, not_or]
  exact ⟨⟨⟨⟨free, by decide⟩, notMem_digits _ (by decide) _⟩, by decide⟩,
    notMem_digits _ (by decide) _⟩

theorem plain_runName (specName : String) (process run : Nat) :
    Disk.Plain (runName specName process run) := by
  have long : '-' ∈ (runName specName process run).toList := by simp [runName]
  have apart (other : String) (absent : '-' ∉ other.toList) :
      runName specName process run ≠ other := by
    rintro same
    exact absent (same ▸ long)
  refine ⟨?_, apart ".." (by decide)⟩
  simp only [Path.isIdle, Bool.or_eq_false_iff, beq_eq_false_iff_ne]
  exact ⟨apart "" (by decide), apart "." (by decide)⟩

end Exploration

/-! ## Steps -/

namespace Worker

variable {model : Model σ} {place : Location} {worker next : Worker σ} {shared after : Shared σ}
  {events : History σ} {state : σ} {level : UInt32}

/-- A step of a worker changes page files or its own log at most. -/
theorem Turn.changes {touched : Location → Prop} (turn : Turn model worker shared next after events)
    (opens : shared.disk.Opens shared.frontier.spill.directory place)
    (pages : ∀ target, Spill.PageFileIn place target → touched target)
    (log : touched worker.log.handle.place) : shared.disk.Changes touched after.disk := by
  cases turn with
  | accesses stage turn => exact (turn.changes opens).mono pages
  | publishes stage enqueued | strands stage enqueued =>
    exact (Frontier.changes_enqueue opens enqueued).mono pages
  | flushes =>
    refine (worker.log.changes_flush shared.disk).mono ?_
    rintro _ rfl
    exact log
  | rests | heeds | idles | picks | fails | overflows | expands | concludes | meets | skips | sinks
    | records | claims | reports | latches | unwinds => exact .refl _ _

/-- Seeding a state changes page files at most. -/
theorem changes_seed {result : Except Stop (Option Uid)}
    (opens : shared.disk.Opens shared.frontier.spill.directory place)
    (seeded : worker.seed model state level shared = (result, next, after)) :
    shared.disk.Changes (Spill.PageFileIn place) after.disk ∧
      next.log.handle = worker.log.handle ∧ after.frontier.spill = shared.frontier.spill := by
  unfold seed at seeded
  cases known : shared.seen.contains (model.fingerprint state) with
  | true =>
    simp only [Seen.meet, known, Bool.not_true, Bool.false_eq_true, if_false,
      Prod.mk.injEq] at seeded
    obtain ⟨-, rfl, rfl⟩ := seeded
    exact ⟨.refl _ _, rfl, rfl⟩
  | false =>
    rcases enqueued : shared.frontier.enqueueNode model
        ⟨state, level, (worker.recordInitial (model.fingerprint state)).1⟩ shared.disk with
      ⟨answer, frontier, disk⟩
    simp only [Seen.meet, known, Bool.not_false, if_true, enqueued, Prod.mk.injEq] at seeded
    obtain ⟨-, rfl, rfl⟩ := seeded
    obtain ⟨memory, same⟩ := Frontier.eq_of_enqueueNode enqueued
    exact ⟨Frontier.changes_enqueueNode opens enqueued, rfl, by rw [same]⟩

end Worker

namespace Pool

variable {model : Model σ} {place : Location} {pool : Pool σ} {position : Nat}
  {launch : Exploration.Launch σ}

/-- The frontier of a pool spills to the directory at a location. The page files there and the logs
are among the files that are touched. -/
structure Fenced (place : Location) (touched : Location → Prop) (pool : Pool σ) : Prop where
  opens : pool.shared.disk.Opens pool.shared.frontier.spill.directory place
  pages : ∀ target, Spill.PageFileIn place target → touched target
  logs : ∀ worker ∈ pool.workers, touched worker.log.handle.place

namespace Fenced

variable {touched : Location → Prop}

/-- A step of any worker changes no other files. -/
theorem stepAt (fenced : Fenced place touched pool) (position : Nat) :
    pool.shared.disk.Changes touched (pool.stepAt model position).shared.disk ∧
      Fenced place touched (pool.stepAt model position) := by
  unfold Pool.stepAt
  cases found : pool.workers[position]? with
  | none => exact ⟨.refl _ _, fenced⟩
  | some worker =>
    have turn := worker.turn_step model pool.shared
    have lies := fenced.logs worker (List.mem_of_getElem? found)
    have changes := turn.changes fenced.opens fenced.pages lies
    obtain ⟨_, _, _, same, -⟩ := turn.frontier_eq
    refine ⟨changes, ⟨?_, fenced.pages, forall_mem_set fenced.logs ?_⟩⟩
    · dsimp only
      rw [same]
      exact fenced.opens.of_changes changes
    · rw [turn.handle_eq]
      exact lies

/-- Steps of workers change no other files. -/
theorem follow (fenced : Fenced place touched pool) (schedule : List Nat) :
    pool.shared.disk.Changes touched (pool.follow model schedule).shared.disk ∧
      Fenced place touched (pool.follow model schedule) := by
  induction schedule generalizing pool with
  | nil => exact ⟨.refl _ _, fenced⟩
  | cons position rest ih =>
    obtain ⟨first, still⟩ := @stepAt _ model _ _ _ fenced position
    obtain ⟨more, last⟩ := ih still
    exact ⟨first.trans more, last⟩

theorem touched_of_lies {target : Location} (fenced : Fenced place touched pool)
    (lies : Log.Lies (Exploration.logs pool.workers) target) : touched target := by
  obtain ⟨log, among, rfl⟩ := lies
  obtain ⟨worker, member, rfl⟩ := List.mem_map.mp among
  exact fenced.logs worker member

/-- Drawing the conclusion changes no other files. -/
theorem changes_conclude {outcome : Except Stop (Outcome σ)} {final : Disk}
    (fenced : Fenced place touched pool)
    (concluded : Exploration.conclude launch pool = (outcome, final)) :
    pool.shared.disk.Changes touched final := by
  have flushing (disk : Disk) : disk.Changes touched
      (Log.flushAll (Exploration.logs pool.workers) disk) :=
    (Log.Hold.changes_flushAll _ disk).mono fun _ => fenced.touched_of_lies
  unfold Exploration.conclude at concluded
  cases first : Exploration.firstFault? pool.workers with
  | some fault =>
    simp only [first, Prod.mk.injEq] at concluded
    exact concluded.2 ▸ flushing _
  | none =>
    rcases discarded : pool.shared.frontier.discard pool.shared.disk with
      ⟨stop | dropped, frontier, emptied⟩
    all_goals
      have cleared := (Frontier.changes_discard fenced.opens discarded).mono fenced.pages
      simp only [first, discarded] at concluded
    · simp only [Prod.mk.injEq] at concluded
      exact concluded.2 ▸ cleared.trans (flushing _)
    · cases counted : Exploration.summaryOf launch pool with
      | error fault =>
        simp only [counted, Prod.mk.injEq] at concluded
        exact concluded.2 ▸ cleared.trans (flushing _)
      | ok summary =>
        rcases judged : Exploration.judge pool.shared.report (Exploration.logs pool.workers) emptied
          with ⟨verdict, rest, disk⟩
        simp only [counted, judged, Prod.mk.injEq] at concluded
        obtain ⟨read, stays⟩ := Exploration.changes_judge judged
        have inside : ∀ target, Log.Lies (Exploration.logs pool.workers) target →
            touched target := fun _ => fenced.touched_of_lies
        exact concluded.2 ▸ (cleared.trans (read.mono inside)).trans
          ((Log.Hold.changes_flushAll rest disk).mono fun target lies =>
            inside target (stays target lies))

end Fenced

/-- The frontier of a pool spills to the directory at a location, and all logs lie there. -/
structure Housed (place : Location) (pool : Pool σ) : Prop where
  opens : pool.shared.disk.Opens pool.shared.frontier.spill.directory place
  logs : ∀ worker ∈ pool.workers, Disk.Inside place worker.log.handle.place

theorem Fenced.housed (fenced : Fenced place (Disk.Inside place) pool) : Housed place pool :=
  ⟨fenced.opens, fenced.logs⟩

namespace Housed

theorem fenced (housed : Housed place pool) : Fenced place (Disk.Inside place) pool :=
  ⟨housed.opens, fun _ => Disk.Inside.of_pageFileIn, housed.logs⟩

/-- A step of any worker changes files inside the directory only. -/
theorem stepAt (housed : Housed place pool) (position : Nat) :
    pool.shared.disk.Changes (Disk.Inside place) (pool.stepAt model position).shared.disk ∧
      Housed place (pool.stepAt model position) :=
  (housed.fenced.stepAt position).imp_right Fenced.housed

/-- What others do with the disk does not matter as long as they leave directories alone. -/
theorem of_directories {disk : Disk} (housed : Housed place pool)
    (kept : ∀ target, pool.shared.disk.get? target = some .directory →
      disk.get? target = some .directory) :
    Housed place ⟨pool.workers, { pool.shared with disk := disk }⟩ :=
  ⟨⟨Disk.walk_of_directories kept housed.opens.walk, kept _ housed.opens.directory⟩, housed.logs⟩

/-- Drawing the conclusion changes files inside the directory only. -/
theorem changes_conclude {outcome : Except Stop (Outcome σ)} {final : Disk}
    (housed : Housed place pool)
    (concluded : Exploration.conclude launch pool = (outcome, final)) :
    pool.shared.disk.Changes (Disk.Inside place) final :=
  housed.fenced.changes_conclude concluded

end Housed

/-- A pool that comes about when workers make steps, and others do with the disk in between what
they like as long as they leave directories alone. -/
inductive Amid (model : Model σ) (start : Pool σ) : Pool σ → Prop where
  | start : Amid model start start
  | step {pool : Pool σ} (amid : Amid model start pool) (position : Nat) :
      Amid model start (pool.stepAt model position)
  | others {pool : Pool σ} {disk : Disk} (amid : Amid model start pool)
      (kept : ∀ target, pool.shared.disk.get? target = some .directory →
        disk.get? target = some .directory) :
      Amid model start ⟨pool.workers, { pool.shared with disk := disk }⟩

theorem Housed.of_amid {start : Pool σ} (housed : Housed place start)
    (amid : Amid model start pool) : Housed place pool := by
  induction amid with
  | start => exact housed
  | step _ position ih => exact (ih.stepAt position).2
  | others _ kept ih => exact ih.of_directories kept

end Pool

/-! ## Launches -/

namespace Exploration

variable {model : Model σ} {settings : Settings} {directory : Path} {specName : String}
  {localLimit process number next : Nat} {disk prepared after final : Disk} {place : Location}
  {initial : List σ} {seen : Seen}

/-- Making logs changes their files only, which lie in the directory. -/
theorem changes_hire {ids : List UInt16} {touched : Location → Prop}
    {result : Except Failure (List (Worker σ))} (free : '/' ∉ specName.toList)
    (opens : disk.Opens directory place)
    (named : ∀ id ∈ ids, touched (place ++ [Log.fileName specName id]))
    (hired : hire directory specName localLimit ids disk = (result, after)) :
    disk.Changes touched after ∧ ∀ workers, result = .ok workers →
      ∀ worker ∈ workers, touched worker.log.handle.place := by
  induction ids generalizing disk after result with
  | nil =>
    obtain ⟨rfl, rfl⟩ := Prod.mk.inj hired
    refine ⟨.refl _ _, ?_⟩
    rintro _ ⟨rfl⟩
    simp
  | cons id rest ih =>
    unfold hire Worker.create at hired
    cases made : Log.create directory specName id disk with
    | error cause =>
      simp only [made, Prod.mk.injEq] at hired
      obtain ⟨rfl, rfl⟩ := hired
      exact ⟨.refl _ _, by simp⟩
    | ok created =>
      obtain ⟨log, first⟩ := created
      obtain ⟨-, path, -, holds, changes, -⟩ := Log.create_eq_ok made
      have located := changes.locate_iff.mp holds.located
      rw [path, Path.join_eq_child (Log.free_fileName free id)] at located
      have lies : touched log.handle.place :=
        opens.eq_of_locate (Log.plain_fileName free id) located ▸ named id List.mem_cons_self
      have begun : disk.Changes touched first := by
        refine changes.mono ?_
        rintro _ rfl
        exact lies
      simp only [made] at hired
      rcases later : @hire σ directory specName localLimit rest first with ⟨failure | team, last⟩
      all_goals
        obtain ⟨more, each⟩ := ih (opens.of_changes begun)
          (fun other member => named other (List.mem_cons_of_mem _ member)) later
        simp only [later, Prod.mk.injEq] at hired
        obtain ⟨rfl, rfl⟩ := hired
        refine ⟨begun.trans more, ?_⟩
      · simp
      · rintro _ ⟨rfl⟩ worker member
        rcases List.mem_cons.mp member with rfl | old
        · exact lies
        · exact each team rfl worker old

/-- Seeding changes page files at most. -/
theorem changes_seed {states : List σ} {worker last : Worker σ} {shared later : Shared σ}
    {result : Except Stop Unit} (opens : shared.disk.Opens shared.frontier.spill.directory place)
    (seeded : seed model states worker shared = (result, last, later)) :
    shared.disk.Changes (Spill.PageFileIn place) later.disk ∧
      last.log.handle = worker.log.handle ∧ later.frontier.spill = shared.frontier.spill := by
  induction states generalizing worker shared with
  | nil =>
    simp only [seed, Prod.mk.injEq] at seeded
    obtain ⟨-, rfl, rfl⟩ := seeded
    exact ⟨.refl _ _, rfl, rfl⟩
  | cons state rest ih =>
    rcases first : worker.seed model state 1 shared with ⟨stop | answer, worker', shared'⟩
    all_goals
      obtain ⟨changes, handle, spill⟩ := Worker.changes_seed opens first
      simp only [seed, first] at seeded
    · simp only [Prod.mk.injEq] at seeded
      obtain ⟨-, rfl, rfl⟩ := seeded
      exact ⟨changes, handle, spill⟩
    · obtain ⟨more, handle', spill'⟩ := ih (spill ▸ opens.of_changes changes) seeded
      exact ⟨changes.trans more, handle'.trans handle, spill'.trans spill⟩

/-- Seeding changes page files and logs only, even if it is refused and the logs are brought up to
date. -/
theorem changes_seedFirst {workers : List (Worker σ)} {shared : Shared σ}
    {touched : Location → Prop} {result : Except Stop (Pool σ)}
    (fenced : Pool.Fenced place touched ⟨workers, shared⟩)
    (seeded : seedFirst model initial workers shared = (result, final)) :
    shared.disk.Changes touched final ∧ ∀ pool, result = .ok pool →
      Pool.Fenced place touched pool ∧ pool.shared.disk = final := by
  cases workers with
  | nil =>
    simp only [seedFirst, Prod.mk.injEq] at seeded
    obtain ⟨rfl, rfl⟩ := seeded
    refine ⟨.refl _ _, ?_⟩
    rintro _ ⟨rfl⟩
    exact ⟨fenced, rfl⟩
  | cons first others =>
    rcases filled : seed model initial first shared with ⟨stop | ⟨⟩, worker, later⟩
    all_goals
      obtain ⟨changes, handle, spill⟩ := changes_seed fenced.opens filled
      have begun := changes.mono fenced.pages
      have still : Pool.Fenced place touched ⟨worker :: others, later⟩ :=
        ⟨spill ▸ fenced.opens.of_changes changes, fenced.pages, fun other member => by
          rcases List.mem_cons.mp member with rfl | old
          · rw [handle]
            exact fenced.logs first List.mem_cons_self
          · exact fenced.logs other (List.mem_cons_of_mem _ old)⟩
      simp only [seedFirst, filled, Prod.mk.injEq] at seeded
      obtain ⟨rfl, rfl⟩ := seeded
    · refine ⟨begun.trans ((Log.Hold.changes_flushAll _ _).mono fun _ => still.touched_of_lies), ?_⟩
      simp
    · refine ⟨begun, ?_⟩
      rintro _ ⟨rfl⟩
      exact ⟨still, rfl⟩

/-- A launch in a directory in which nothing lies changes page files and logs there only. -/
theorem changes_launchIn {touched : Location → Prop} {result : Except Stop (Launch σ)}
    (valid : settings.validate = .ok ()) (free : '/' ∉ settings.specName.toList)
    (found : prepared.lookup directory = .ok (place, .directory))
    (bare : ∀ name, prepared.get? (place ++ [name]) = none)
    (pages : ∀ target, Spill.PageFileIn place target → touched target)
    (logs : ∀ id ∈ (List.range settings.workerCount).map UInt16.ofNat,
      touched (place ++ [Log.fileName settings.specName id]))
    (launching : launchIn directory settings model initial seen prepared = (result, final)) :
    prepared.Changes touched final ∧ ∀ launched, result = .ok launched →
      Pool.Fenced place touched launched.pool ∧ launched.pool.shared.disk = final := by
  have opens := Disk.opens_of_lookup found
  obtain ⟨frontier, established, same⟩ := @Frontier.exists_establish_of_bare σ prepared
    { settings with directory := directory } place valid found bare
  unfold launchIn at launching
  simp only [established] at launching
  rcases hiring : @hire σ directory settings.specName settings.localBacklog
      ((List.range settings.workerCount).map UInt16.ofNat) prepared with ⟨failure | workers, hired⟩
  all_goals
    obtain ⟨changes, handles⟩ := changes_hire free opens logs hiring
    simp only [hiring] at launching
  · obtain ⟨rfl, rfl⟩ := Prod.mk.inj launching
    exact ⟨changes, by simp⟩
  · have fenced : Pool.Fenced place touched ⟨workers, frontier, hired, seen, none, []⟩ :=
      ⟨same ▸ opens.of_changes changes, pages, handles workers rfl⟩
    rcases seeded : seedFirst model initial workers ⟨frontier, hired, seen, none, []⟩ with
      ⟨stop | pool, last⟩
    all_goals
      obtain ⟨more, seeds⟩ := changes_seedFirst fenced seeded
      simp only [seeded] at launching
      obtain ⟨rfl, rfl⟩ := Prod.mk.inj launching
      refine ⟨changes.trans more, ?_⟩
    · simp
    · rintro _ ⟨rfl⟩
      exact seeds pool rfl

end Exploration

end Wavefront
