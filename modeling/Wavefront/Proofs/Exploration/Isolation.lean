/-
# Runs share a disk and nothing else

A run whose spec name has no slash finds a directory of its own whatever lies on the disk, and
stays in it: what was there before is there afterwards, and no two runs ever write the same file.
What it does and ends with depends on the disk only by the name of its directory.

A slash in the spec name leads out of the directory. Then the logs of a run may replace files of
somebody else, those of another run among them.
-/

import Wavefront.Proofs.Exploration.Mirrors
import Wavefront.Proofs.Exploration.Remains

namespace Wavefront

variable {σ : Type}

/-! ## Finding a directory -/

theorem Path.trimmed_child {path : Path} {name : String} (named : name ≠ "") :
    (path.child name).trimmed = (path.child name).pieces := by
  simp [trimmed, child, named]

namespace Disk

variable {disk before after : Disk} {path : Path} {place : Location} {name : String}

/-- Among sufficiently many locations there is one that holds nothing. -/
theorem exists_vacant (disk : Disk) {locations : Nat → Location}
    (injective : Function.Injective locations) (below : ∀ number, locations number ≠ [])
    (start : Nat) :
    ∃ number, start ≤ number ∧ number < start + (disk.entries.size + 1) ∧
      disk.get? (locations number) = none := by
  by_contra full
  have held : (List.range' start (disk.entries.size + 1)).map locations ⊆ disk.entries.keys := by
    intro location member
    obtain ⟨number, within, rfl⟩ := List.mem_map.mp member
    obtain ⟨lower, upper⟩ := List.mem_range'_1.mp within
    cases entry : disk.get? (locations number) with
    | none => exact absurd ⟨number, lower, upper, entry⟩ full
    | some entry' =>
      cases location : locations number with
      | nil => exact absurd location (below number)
      | cons first rest =>
        rw [location] at entry
        have there : disk.entries[first :: rest]? = some entry' := entry
        rw [Std.ExtTreeMap.mem_keys, Std.ExtTreeMap.mem_iff_isSome_getElem?, there]
        rfl
  have distinct : ((List.range' start (disk.entries.size + 1)).map locations).Nodup :=
    List.Nodup.map injective List.nodup_range'
  have counted := (distinct.subperm held).length_le
  rw [List.length_map, List.length_range', Std.ExtTreeMap.length_keys] at counted
  omega

/-- A directory is made under a name that can be reached, if nothing is there. -/
theorem Opens.mkdir_eq (plain : Plain name) (opens : disk.Opens path place)
    (reached : disk.reach path name = .ok ()) :
    disk.mkdir (path.child name) =
      match disk.get? (place ++ [name]) with
      | some _ => .error .alreadyExists
      | none => .ok (disk.set (place ++ [name]) .directory) := by
  have named : name ≠ "" := by
    rintro rfl
    exact absurd plain.1 (by decide)
  have located := opens.locate_eq plain
  rw [reached] at located
  obtain ⟨checked, walked⟩ := locate_eq_ok_iff.mp located
  cases held : disk.get? (place ++ [name]) <;>
    simp only [mkdir, Path.trimmed_child named, checked, walked, bind, Except.bind, held]

/-- Everything that is on one disk is on another. -/
def Keeps (before after : Disk) : Prop :=
  ∀ place entry, before.get? place = some entry → after.get? place = some entry

/-- What is changed inside a location that held nothing was not there before. -/
theorem Keeps.of_changes {made : Disk} (kept : before.Keeps made) (vacant : made.get? place = none)
    (rooted : made.Rooted)
    (changes : (made.set place .directory).Changes (Inside place) after) : before.Keeps after := by
  intro target entry found
  have old := kept target entry found
  rw [changes.elsewhere]
  · rwa [get?_set_of_ne fun same => by simp [← same, vacant] at old]
  · rintro ⟨name, rfl⟩
    have outer := rooted place name entry old
    simp [vacant] at outer

/-- A file lies at a location, with the given bytes. -/
def HasFile (disk : Disk) (place : Location) (bytes : Bytes) : Prop :=
  ∃ stamp, disk.get? place = some (.file stamp bytes)

/-- The same files lie in two directories. -/
def SameFiles (place place' : Location) (disk disk' : Disk) : Prop :=
  ∀ name bytes, disk.HasFile (place ++ [name]) bytes ↔ disk'.HasFile (place' ++ [name]) bytes

theorem Mirrors.sameFiles {left right : Site} {mirror : Disk}
    (mirrors : disk.Mirrors left right mirror) :
    SameFiles left.place right.place disk mirror := by
  intro name bytes
  have pair := mirrors.entries name
  unfold HasFile
  generalize disk.get? (left.place ++ [name]) = entry at pair ⊢
  generalize mirror.get? (right.place ++ [name]) = entry' at pair ⊢
  cases pair <;> simp

end Disk

namespace Exploration

variable {model : Model σ} {settings : Settings} {base : Path} {directory : Path}
  {specName : String} {process number tries next : Nat} {disk made prepared : Disk}
  {place : Location} {initial : List σ} {seen : Seen}

theorem runName_injective (specName : String) (process : Nat) :
    Function.Injective (runName specName process) := by
  intro one two same
  have tails : (toString one).toList = (toString two).toList := by
    have lists := congrArg String.toList same
    simpa [runName, String.toList_append] using lists
  rw [toList_toString, toList_toString] at tails
  exact toDigits_injective tails

/-- A directory is made for a run if one of the numbers that are tried is free. -/
theorem exists_makeRunDirectory (free : '/' ∉ specName.toList) (opens : disk.Opens base place)
    (reached : ∀ taken, disk.reach base (runName specName process taken) = .ok ())
    (vacant : ∃ taken, number ≤ taken ∧ taken < number + tries ∧
      disk.get? (place ++ [runName specName process taken]) = none) :
    ∃ directory, (makeRunDirectory base specName process tries number disk).1 = .ok directory := by
  induction tries generalizing number with
  | zero =>
    obtain ⟨taken, lower, upper, -⟩ := vacant
    omega
  | succ tries ih =>
    have making := opens.mkdir_eq (plain_runName specName process number) (reached number)
    rw [← Path.join_eq_child (free_runName free process number)] at making
    rw [makeRunDirectory]
    cases there : disk.get? (place ++ [runName specName process number]) with
    | none =>
      simp only [there] at making
      simp only [making]
      exact ⟨_, rfl⟩
    | some entry =>
      simp only [there] at making
      simp only [making]
      obtain ⟨taken, lower, upper, none⟩ := vacant
      refine ih ⟨taken, ?_, by omega, none⟩
      by_contra first
      obtain rfl : taken = number := by omega
      simp [there] at none

/-- A directory is made for a run, whatever lies on the disk, if the one of the settings can be
made and no name in it is too long. -/
theorem exists_prepareDirectory (free : '/' ∉ settings.specName.toList) (rooted : disk.Rooted)
    (way : Disk.mkdirAll settings.directory disk = (.ok (), made))
    (reached : ∀ taken,
      made.reach settings.directory (runName settings.specName process taken) = .ok ()) :
    ∃ directory, (prepareDirectory settings process number disk).1 = .ok directory := by
  obtain ⟨base, found⟩ := Disk.exists_lookup_of_mkdirAll rooted way
  simp only [prepareDirectory, way]
  refine exists_makeRunDirectory free (Disk.opens_of_lookup found) reached ?_
  refine made.exists_vacant (fun one two same => ?_) (by simp) number
  exact runName_injective _ _ (by simpa using same)

/-- Where a launch makes a directory for the run: directly below that of the settings, which is
made first, and where nothing was. -/
structure Sited (settings : Settings) (process number : Nat) (disk : Disk) (directory : Path)
    (prepared : Disk) (place : Location) : Prop where
  below : ∃ made base taken, Disk.mkdirAll settings.directory disk = (.ok (), made) ∧
    Disk.Paves settings.directory.pieces disk made ∧ made.Rooted ∧
    made.Opens settings.directory base ∧ number ≤ taken ∧
    directory = settings.directory.child (runName settings.specName process taken) ∧
    place = base ++ [runName settings.specName process taken] ∧ made.get? place = none ∧
    prepared = made.set place .directory
  found : prepared.lookup directory = .ok (place, .directory)
  bare : ∀ name, prepared.get? (place ++ [name]) = none

theorem exists_sited (free : '/' ∉ settings.specName.toList) (rooted : disk.Rooted)
    (making : prepareDirectory settings process number disk = (.ok directory, next, prepared)) :
    ∃ place, Sited settings process number disk directory prepared place := by
  obtain ⟨place, found, bare⟩ := bare_of_prepareDirectory rooted making
  obtain ⟨made, taken, way, lower, -, rfl, fresh⟩ := prepareDirectory_eq_ok making
  rw [Path.join_eq_child (free_runName free process taken)] at found fresh ⊢
  obtain ⟨paves, still⟩ := Disk.paves_mkdirAll rooted way
  obtain ⟨base, there⟩ := Disk.exists_lookup_of_mkdirAll rooted way
  have opens := Disk.opens_of_lookup there
  obtain ⟨parent, name, checked, walked, -, vacant, made'⟩ := Disk.mkdir_eq_ok still fresh
  have again : prepared.walk [] (settings.directory.child (runName settings.specName
      process taken)).trimmed = .ok (parent ++ [name]) := by
    refine Disk.walk_of_directories (fun other directory => ?_) walked
    rwa [made', Disk.get?_set_of_ne fun same => by simp [← same, vacant] at directory]
  obtain rfl : place = parent ++ [name] :=
    Except.ok.inj ((Disk.lookup_directory_iff.mp found).2.1.symm.trans again)
  have named : runName settings.specName process taken ≠ "" := by
    intro idle
    exact absurd (idle ▸ (plain_runName settings.specName process taken).1) (by decide)
  rw [Path.trimmed_child named] at walked
  have same := opens.eq_of_locate (plain_runName _ _ _)
    (Disk.locate_eq_ok_iff.mpr ⟨checked, walked⟩)
  exact ⟨_, ⟨made, base, taken, way, paves, still, opens, lower, rfl, same, vacant, made'⟩, found,
    bare⟩

/-- Nothing but directories on the way to that of the settings is made if no directory can be made
for the run. -/
theorem paves_of_prepareDirectory {failure : Failure} (rooted : disk.Rooted)
    (refused : prepareDirectory settings process number disk = (.error failure, next, prepared)) :
    Disk.Paves settings.directory.pieces disk prepared := by
  unfold prepareDirectory at refused
  rcases way : Disk.mkdirAll settings.directory disk with ⟨cause | ⟨⟩, made⟩
  all_goals
    have paves := (Disk.paves_mkdirAll rooted way).1
    simp only [way] at refused
  · obtain ⟨-, -, rfl⟩ := by simpa only [Prod.mk.injEq] using refused
    exact paves
  · exact makeRunDirectory_eq_error refused ▸ paves

/-! ## Staying there -/

variable {directory' : Path} {prepared' : Disk} {place' : Location} {launched launched' : Launch σ}
  {process' number' next' : Nat} {disk' : Disk}

theorem Sited.pathLimit (sited : Sited settings process number disk directory prepared place) :
    prepared.pathLimit = disk.pathLimit := by
  obtain ⟨made, base, taken, -, paves, -, -, -, -, -, -, rfl⟩ := sited.below
  exact paves.pathLimit

/-- What was there before stays when files inside the directory are changed. -/
theorem Sited.keeps {after : Disk}
    (sited : Sited settings process number disk directory prepared place)
    (changes : prepared.Changes (Disk.Inside place) after) : disk.Keeps after := by
  obtain ⟨made, base, taken, -, paves, rooted, -, -, -, -, vacant, rfl⟩ := sited.below
  exact Disk.Keeps.of_changes paves.kept vacant rooted changes

/-- A launch that comes across the directory of another makes its own elsewhere. -/
theorem Sited.ne {entry : Entry}
    (sited : Sited settings process number disk directory prepared place)
    (there : disk.get? place' = some entry) : place ≠ place' := by
  rintro rfl
  obtain ⟨made, base, taken, -, paves, -, -, -, -, -, vacant, -⟩ := sited.below
  simp [paves.kept place entry there] at vacant

/-- Whatever a run does changes files directly inside a location only, also if others use the disk
in between. -/
structure Confined (model : Model σ) (place : Location) (launched : Launch σ) : Prop where
  steps : ∀ pool, Pool.Amid model launched.pool pool → ∀ position,
    pool.shared.disk.Changes (Disk.Inside place) (pool.stepAt model position).shared.disk
  conclusion : ∀ pool, Pool.Amid model launched.pool pool →
    pool.shared.disk.Changes (Disk.Inside place) (conclude launched pool).2

theorem confined_of_housed (housed : launched.pool.Housed place) :
    Confined model place launched where
  steps _ amid position := ((housed.of_amid amid).stepAt position).1
  conclusion _ amid := (housed.of_amid amid).changes_conclude rfl

/-- Runs that do the same, each in its own directory. -/
structure Twins (model : Model σ) (place place' : Location) (launched launched' : Launch σ) :
    Prop where
  settled : ∀ schedule, (launched'.pool.follow model schedule).isSettled =
    (launched.pool.follow model schedule).isSettled
  expanded : ∀ schedule, (launched'.pool.follow model schedule).shared.expanded =
    (launched.pool.follow model schedule).shared.expanded
  files : ∀ schedule, Disk.SameFiles place place' (launched.pool.follow model schedule).shared.disk
    (launched'.pool.follow model schedule).shared.disk
  outcomes : ∀ schedule, Alike (Stop.Moved launched.runDirectory launched'.runDirectory)
    (fun outcome outcome' => outcome' = { outcome with runDirectory := launched'.runDirectory })
    (conclude launched (launched.pool.follow model schedule)).1
    (conclude launched' (launched'.pool.follow model schedule)).1
  remains : ∀ schedule, Disk.SameFiles place place'
    (conclude launched (launched.pool.follow model schedule)).2
    (conclude launched' (launched'.pool.follow model schedule)).2

/-- Launches in directories that were just made, and in which the same names can be reached, turn
out in the same way, and so does what comes of them. -/
theorem twins_of_sited (valid : settings.validate = .ok ()) (free : '/' ∉ settings.specName.toList)
    (sited : Sited settings process number disk directory prepared place)
    (sited' : Sited settings process' number' disk' directory' prepared' place')
    (making : prepareDirectory settings process number disk = (.ok directory, next, prepared))
    (making' : prepareDirectory settings process' number' disk' =
      (.ok directory', next', prepared'))
    (reach : ∀ name, prepared.reach directory name = prepared'.reach directory' name) :
    Alike (Stop.Moved directory directory') (Twins model place place')
      (launchIn directory settings model initial seen prepared).1
      (launchIn directory' settings model initial seen prepared').1 ∧
    Disk.SameFiles place place' (launchIn directory settings model initial seen prepared).2
      (launchIn directory' settings model initial seen prepared').2 := by
  obtain ⟨answers, files⟩ := @launchIn_mirrors _ model ⟨directory, place, prepared.nextStamp⟩
    ⟨directory', place', prepared'.nextStamp⟩ _ _ settings initial seen valid free sited.found
    sited'.found sited.bare sited'.bare reach (Nat.add_comm _ _)
  refine ⟨?_, files.sameFiles⟩
  rcases launching : launchIn directory settings model initial seen prepared with ⟨result, final⟩
  rcases launching' : launchIn directory' settings model initial seen prepared' with
    ⟨result', final'⟩
  rw [launching, launching'] at answers
  dsimp only at answers ⊢
  cases answers with
  | error moved => exact .error moved
  | @ok launched launched' alike =>
    obtain ⟨pools, counts, run, run'⟩ := alike
    let course : Course model initial seen :=
      ⟨settings, process, number, disk, launched, next, final,
        launch_of_launchIn valid making launching⟩
    let course' : Course model initial seen :=
      ⟨settings, process', number', disk', launched', next', final',
        launch_of_launchIn valid making' launching'⟩
    have concluded (schedule : List Nat) :=
      have ⟨_, sound, _⟩ := (course.reaches_pool schedule).exists_logged
      have ⟨_, sound', _⟩ := (course'.reaches_pool schedule).exists_logged
      @conclude_mirrors _ model _ _ _ _ _ _ _ _ _ _ (pools.follow schedule) counts sound sound'
    exact .ok {
      settled := fun schedule => (pools.follow schedule).isSettled_eq
      expanded := fun schedule => (pools.follow schedule).shared.expanded_eq
      files := fun schedule => (pools.follow schedule).shared.disks.sameFiles
      outcomes := fun schedule => by
        rw [run, run']
        exact run' ▸ (concluded schedule).1
      remains := fun schedule => (concluded schedule).2.sameFiles }

/-- What a run leaves alone that has a directory for itself: it changes files inside the directory
only, and everything that was on the disk before is still there however far it came. -/
structure Isolated (settings : Settings) (model : Model σ) (initial : List σ) (seen : Seen)
    (disk : Disk) (directory : Path) (prepared : Disk) (place : Location) : Prop where
  changes : prepared.Changes (Disk.Inside place)
    (launchIn directory settings model initial seen prepared).2
  keeps : disk.Keeps (launchIn directory settings model initial seen prepared).2
  confined : ∀ launched,
    (launchIn directory settings model initial seen prepared).1 = .ok launched →
    Confined model place launched
  keepsOn : ∀ launched,
    (launchIn directory settings model initial seen prepared).1 = .ok launched →
    ∀ schedule, disk.Keeps (launched.pool.follow model schedule).shared.disk ∧
      disk.Keeps (conclude launched (launched.pool.follow model schedule)).2

theorem isolated_of_sited (valid : settings.validate = .ok ())
    (free : '/' ∉ settings.specName.toList)
    (sited : Sited settings process number disk directory prepared place) :
    Isolated settings model initial seen disk directory prepared place := by
  obtain ⟨changes, fenced⟩ := @changes_launchIn _ model settings directory _ _ _ initial seen _ _
    valid free sited.found sited.bare (fun _ => Disk.Inside.of_pageFileIn) (fun _ _ => ⟨_, rfl⟩) rfl
  refine ⟨changes, sited.keeps changes, fun launched run => ?_, fun launched run schedule => ?_⟩
  · exact confined_of_housed (fenced launched run).1.housed
  · obtain ⟨here, same⟩ := fenced launched run
    obtain ⟨more, still⟩ := @Pool.Fenced.follow _ model _ _ _ here schedule
    rw [same] at more
    exact ⟨sited.keeps (changes.trans more),
      sited.keeps ((changes.trans more).trans (still.changes_conclude rfl))⟩

/-- A run whose spec name has no slash has nothing to do with what else lies on the disk. If no
directory can be made for it, then at most that of the settings is made, with those above it. But
one can be made whatever the disk holds, if the one of the settings can be and no name in it is too
long. It lies directly below that of the settings, nothing was there, and the run changes files
inside it only, also while others use the disk.

No launch that comes across the directory ever writes to a file in it. And a run with the same
settings on any other disk does the same, up to the name of its directory, if the same names can be
reached in that. -/
theorem isolated (valid : settings.validate = .ok ()) (free : '/' ∉ settings.specName.toList)
    (rooted : disk.Rooted) :
    (∀ failure next final,
      prepareDirectory settings process number disk = (.error failure, next, final) →
      Disk.Paves settings.directory.pieces disk final) ∧
    (∀ made, Disk.mkdirAll settings.directory disk = (.ok (), made) →
      (∀ taken, made.reach settings.directory (runName settings.specName process taken) = .ok ()) →
      ∃ directory, (prepareDirectory settings process number disk).1 = .ok directory) ∧
    ∀ directory next prepared,
      prepareDirectory settings process number disk = (.ok directory, next, prepared) →
      ∃ place, Sited settings process number disk directory prepared place ∧
        Isolated settings model initial seen disk directory prepared place ∧
        (∀ settings' process' number' disk' directory' prepared' place' entry,
          disk'.get? place = some entry →
          Sited settings' process' number' disk' directory' prepared' place' →
          ∀ target, Disk.Inside place target → ¬ Disk.Inside place' target) ∧
        ∀ process' number' disk' directory' next' prepared', disk'.Rooted →
          prepareDirectory settings process' number' disk' = (.ok directory', next', prepared') →
          (∀ name, prepared.reach directory name = prepared'.reach directory' name) →
          ∃ place', Sited settings process' number' disk' directory' prepared' place' ∧
            Alike (Stop.Moved directory directory') (Twins model place place')
              (launchIn directory settings model initial seen prepared).1
              (launchIn directory' settings model initial seen prepared').1 ∧
            Disk.SameFiles place place'
              (launchIn directory settings model initial seen prepared).2
              (launchIn directory' settings model initial seen prepared').2 := by
  refine ⟨fun failure next final refused => paves_of_prepareDirectory rooted refused,
    fun made way reached => exists_prepareDirectory free rooted way reached,
    fun directory next prepared making => ?_⟩
  obtain ⟨place, sited⟩ := exists_sited free rooted making
  refine ⟨place, sited, isolated_of_sited valid free sited, ?_, ?_⟩
  · intro settings' process' number' disk' directory' prepared' place' entry there sited' target
      one two
    exact sited'.ne there (one.eq two).symm
  · intro process' number' disk' directory' next' prepared' rooted' making' reach
    obtain ⟨place', sited'⟩ := exists_sited free rooted' making'
    exact ⟨place', sited', twins_of_sited valid free sited sited' making making' reach⟩

/-- A page file of an earlier run changes nothing but the number of the directory. -/
theorem isolated_beside_page :
    let grid : CounterGrid := ⟨2, 2, some 2⟩
    let settings := Settings.standard ⟨["runs"]⟩
    let old : Disk := (((⟨∅, 1, 4095⟩ : Disk).set ["runs"] .directory).set ["runs", "spec-1-0"]
      .directory).set ["runs", "spec-1-0", "1.pq"] (.file 0 [7])
    ∃ (course course' : Course grid.model grid.initialStates .empty) (place place' : Location),
      course.settings = settings ∧ course.disk = .empty ∧
      course.launch.runDirectory = ⟨["runs", "spec-1-0"]⟩ ∧
      course'.settings = settings ∧ course'.disk = old ∧
      course'.launch.runDirectory = ⟨["runs", "spec-1-1"]⟩ ∧
      Twins grid.model place place' course.launch course'.launch ∧
      ∀ schedule, (conclude course'.launch (course'.pool schedule)).2.get?
        ["runs", "spec-1-0", "1.pq"] = some (.file 0 [7]) := by
  intro grid settings old
  have valid : settings.validate = .ok () := by decide +kernel
  have rooted : old.Rooted := by
    have top : (⟨∅, 1, 4095⟩ : Disk).Rooted := Disk.rooted_empty 1 4095
    have runs := @Disk.Rooted.set _ [] "runs" top rfl (by decide +kernel) .directory
    have earlier := @Disk.Rooted.set _ ["runs"] "spec-1-0" runs (by decide +kernel)
      (by decide +kernel) .directory
    exact @Disk.Rooted.set _ ["runs", "spec-1-0"] "1.pq" earlier (by decide +kernel)
      (by decide +kernel) (.file 0 [7])
  have first : (launch settings grid.model grid.initialStates .empty 1 0 .empty).1.toOption.map
      (·.runDirectory) = some ⟨["runs", "spec-1-0"]⟩ := by decide +kernel
  have second : (launch settings grid.model grid.initialStates .empty 1 0 old).1.toOption.map
      (·.runDirectory) = some ⟨["runs", "spec-1-1"]⟩ := by decide +kernel
  rcases run : launch settings grid.model grid.initialStates .empty 1 0 .empty with
    ⟨stop | launched, next, final⟩
  · rw [run] at first
    cases first
  rcases run' : launch settings grid.model grid.initialStates .empty 1 0 old with
    ⟨stop | launched', next', final'⟩
  · rw [run'] at second
    cases second
  rw [run] at first
  rw [run'] at second
  obtain ⟨prepared, making, launching⟩ := exists_launchIn_of_launch run
  obtain ⟨prepared', making', launching'⟩ := exists_launchIn_of_launch run'
  have directory : launched.runDirectory = ⟨["runs", "spec-1-0"]⟩ := Option.some.inj first
  have directory' : launched'.runDirectory = ⟨["runs", "spec-1-1"]⟩ := Option.some.inj second
  have top : (Disk.empty).Rooted := Disk.rooted_empty 0 4095
  obtain ⟨place, sited, -, -, twins⟩ :=
    (@isolated _ grid.model settings 1 0 .empty grid.initialStates .empty valid (by decide) top).2.2
      _ _ _ making
  obtain ⟨there, sited', own, -, -⟩ :=
    (@isolated _ grid.model settings 1 0 old grid.initialStates .empty valid (by decide) rooted).2.2
      _ _ _ making'
  have reach : ∀ name, prepared.reach launched.runDirectory name =
      prepared'.reach launched'.runDirectory name := by
    intro name
    have limit : prepared.pathLimit = 4095 := sited.pathLimit
    have limit' : prepared'.pathLimit = 4095 := sited'.pathLimit
    have sizes : "spec-1-0".utf8ByteSize = "spec-1-1".utf8ByteSize := by decide
    simp [Disk.reach, Disk.check, limit, limit', directory, directory', Path.child,
      Path.directoryPieces, Path.hasNul, Path.byteSize, sizes]
  obtain ⟨place', -, alike, -⟩ := twins 1 0 old _ _ _ rooted making' reach
  rw [launching, launching'] at alike
  cases alike with
  | ok twins =>
    exact ⟨⟨settings, 1, 0, .empty, launched, next, final, run⟩,
      ⟨settings, 1, 0, old, launched', next', final', run'⟩, place, place', rfl, rfl,
      directory, rfl, rfl, directory', twins, fun schedule =>
        (own.keepsOn launched' (by rw [launching']) schedule).2 _ _ (by decide +kernel)⟩

/-- The logs of a run with a slash in its spec name lie outside of its directory. A file that lies
there is emptied, and so are the logs of the run before. -/
theorem not_isolated_of_slash :
    let grid : CounterGrid := ⟨1, 1, none⟩
    let settings : Settings := { Settings.standard ⟨["sub"]⟩ with workers := 1, specName := "../x" }
    let disk : Disk := ((⟨∅, 1, 4095⟩ : Disk).set ["sub"] .directory).set ["x-0.trace"]
      (.file 0 [1, 2, 3])
    let log : Path := ⟨["x-0.trace"]⟩
    settings.validate = .ok () ∧ disk.Rooted ∧ disk.read log = .ok [1, 2, 3] ∧
    ∃ (course later : Course grid.model grid.initialStates .empty) (schedule : List Nat),
      course.settings = settings ∧ course.disk = disk ∧
      course.final.lookup course.launch.runDirectory = .ok (["x-1-0"], .directory) ∧
      course.final.read log = .ok [] ∧
      later.settings = settings ∧
      later.disk = (conclude course.launch (course.pool schedule)).2 ∧
      (later.disk.read log).map List.length = .ok 72 ∧ later.final.read log = .ok [] := by
  intro grid settings disk log
  have rooted : disk.Rooted := by
    have top : (⟨∅, 1, 4095⟩ : Disk).Rooted := Disk.rooted_empty 1 4095
    have sub := @Disk.Rooted.set _ [] "sub" top rfl (by decide +kernel) .directory
    exact @Disk.Rooted.set _ [] "x-0.trace" sub rfl (by decide +kernel) (.file 0 [1, 2, 3])
  let schedule := List.replicate 80 0
  let launching := fun number disk =>
    launch settings grid.model grid.initialStates .empty 1 number disk
  let rest (launched : Launch GridState) :=
    (conclude launched (launched.pool.follow grid.model schedule)).2
  have escapes : (launching 0 disk).1.toOption.map (fun launched =>
      ((launching 0 disk).2.2.lookup launched.runDirectory, (launching 0 disk).2.2.read log)) =
      some (.ok (["x-1-0"], .directory), .ok []) := by
    decide +kernel
  have follows : (launching 0 disk).1.toOption.map (fun launched =>
      (((rest launched).read log).map List.length,
        (launching 1 (rest launched)).1.toOption.isSome,
        (launching 1 (rest launched)).2.2.read log)) = some (.ok 72, true, .ok []) := by
    decide +kernel
  rcases run : launching 0 disk with ⟨stop | launched, next, final⟩
  · rw [run] at escapes
    cases escapes
  let course : Course grid.model grid.initialStates .empty :=
    ⟨settings, 1, 0, disk, launched, next, final, run⟩
  rw [run] at escapes follows
  obtain ⟨found, emptied⟩ := Prod.mk.inj (Option.some.inj escapes)
  obtain ⟨filled, again⟩ := Prod.mk.inj (Option.some.inj follows)
  obtain ⟨remains, same⟩ : ∃ remains, remains = rest launched := ⟨_, rfl⟩
  have left : rest launched = (conclude course.launch (course.pool schedule)).2 := rfl
  rw [← same] at filled again left
  rcases run' : launching 1 remains with ⟨stop | launched', next', final'⟩
  all_goals rw [run'] at again
  · cases again
  · exact ⟨by decide +kernel, rooted, by decide +kernel, course,
      ⟨settings, 1, 1, remains, launched', next', final', run'⟩, schedule, rfl, rfl, found, emptied,
      rfl, left, filled, (Prod.mk.inj again).2⟩

end Exploration

end Wavefront
