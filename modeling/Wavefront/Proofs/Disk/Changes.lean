/-
# Changes to files

An operation on files changes what a few locations hold. It makes no directory and
takes none away, so a path leads to the same location before and after it.
`Disk.Changes` says this for a set of locations, and every file operation is
described by the location that it changes and by what that location then holds.
-/

import Mathlib.Data.List.Basic
import Wavefront.Disk.Plan

namespace Wavefront.Disk

variable {disk before middle after : Disk} {path : Path} {place : Location}

/-- A path leads to a location if its text will do and following it ends there. -/
theorem locate_eq_ok_iff :
    disk.locate path = .ok place ↔
      disk.check path = .ok () ∧ disk.walk [] path.pieces = .ok place := by
  unfold locate
  cases disk.check path with
  | error cause => simp [bind, Except.bind]
  | ok done => simp [bind, Except.bind]

/-- A path leads to an entry if it leads to a location that holds the entry. -/
theorem lookup_eq_ok_iff {entry : Entry} :
    disk.lookup path = .ok (place, entry) ↔
      disk.locate path = .ok place ∧ disk.get? place = some entry := by
  unfold lookup
  cases disk.locate path with
  | error cause => simp [bind, Except.bind]
  | ok target =>
    simp only [bind, Except.bind, Except.ok.injEq]
    cases held : disk.get? target with
    | none =>
      simp only [reduceCtorEq, false_iff, not_and]
      rintro rfl
      simp [held]
    | some found =>
      simp only [Except.ok.injEq, Prod.mk.injEq]
      constructor
      · rintro ⟨rfl, rfl⟩
        exact ⟨rfl, held⟩
      · rintro ⟨rfl, same⟩
        exact ⟨rfl, Option.some.inj (held.symm.trans same)⟩

/-- A walk that succeeds meets directories only, so it succeeds on any disk that has these. -/
theorem walk_of_directories
    (kept : ∀ place, before.get? place = some .directory → after.get? place = some .directory)
    {pieces : List String} {start place : Location}
    (found : before.walk start pieces = .ok place) : after.walk start pieces = .ok place := by
  induction pieces generalizing start with
  | nil => exact found
  | cons piece rest ih =>
    rw [Disk.walk] at found
    rw [Disk.walk]
    cases entry : before.get? start with
    | none => simp [entry] at found
    | some entry' =>
      cases entry' with
      | file stamp bytes => simp [entry] at found
      | directory =>
        rw [kept start entry]
        simp only [entry] at found
        simp only
        split at found
        · rename_i idle
          rw [if_pos idle]
          exact ih found
        · rename_i busy
          rw [if_neg busy]
          split at found
          · rename_i up
            rw [if_pos up]
            exact ih found
          · rename_i down
            rw [if_neg down]
            split at found
            · cases found
            · rename_i short
              rw [if_neg short]
              exact ih found

/-- Nothing but files at the touched locations differs between two disks. -/
structure Changes (touched : Location → Prop) (before after : Disk) : Prop where
  pathLimit : after.pathLimit = before.pathLimit
  directories : ∀ place, after.get? place = some .directory ↔ before.get? place = some .directory
  elsewhere : ∀ place, ¬ touched place → after.get? place = before.get? place

namespace Changes

variable {touched wider : Location → Prop}

theorem refl (touched : Location → Prop) (disk : Disk) : Changes touched disk disk :=
  ⟨rfl, fun _ => Iff.rfl, fun _ _ => rfl⟩

theorem symm (changes : Changes touched before after) : Changes touched after before :=
  ⟨changes.pathLimit.symm, fun place => (changes.directories place).symm,
    fun place apart => (changes.elsewhere place apart).symm⟩

theorem trans (first : Changes touched before middle) (second : Changes touched middle after) :
    Changes touched before after :=
  ⟨second.pathLimit.trans first.pathLimit,
    fun place => (second.directories place).trans (first.directories place),
    fun place apart => (second.elsewhere place apart).trans (first.elsewhere place apart)⟩

theorem mono (within : ∀ place, touched place → wider place)
    (changes : Changes touched before after) :
    Changes wider before after :=
  ⟨changes.pathLimit, changes.directories,
    fun place apart => changes.elsewhere place fun inside => apart (within place inside)⟩

/-- A walk that succeeds meets directories only, and these are the same after the change. -/
theorem walk (changes : Changes touched before after) {pieces : List String}
    {start place : Location}
    (found : before.walk start pieces = .ok place) : after.walk start pieces = .ok place :=
  walk_of_directories (fun place => (changes.directories place).mpr) found

/-- A path leads to the same location before and after a change to files. -/
theorem locate_iff (changes : Changes touched before after) :
    after.locate path = .ok place ↔ before.locate path = .ok place := by
  have same : after.check path = before.check path := by
    simp only [check, changes.pathLimit]
  rw [locate_eq_ok_iff, locate_eq_ok_iff, same]
  exact and_congr_right fun _ => ⟨changes.symm.walk, changes.walk⟩

/-- A path that leads to a directory still does after a change to files. -/
theorem lookup_directory (changes : Changes touched before after)
    (found : before.lookup path = .ok (place, .directory)) :
    after.lookup path = .ok (place, .directory) := by
  obtain ⟨located, directory⟩ := lookup_eq_ok_iff.mp found
  exact lookup_eq_ok_iff.mpr
    ⟨changes.locate_iff.mpr located, (changes.directories place).mpr directory⟩

end Changes

/-! ## Paths below a directory -/

/-- Following two paths one after the other is following the one path they make up. -/
theorem walk_append (disk : Disk) (start : Location) (first second : List String) :
    disk.walk start (first ++ second) =
      match disk.walk start first with
      | .error cause => .error cause
      | .ok place => disk.walk place second := by
  induction first generalizing start with
  | nil => rfl
  | cons piece rest ih =>
    rw [List.cons_append, Disk.walk, Disk.walk]
    cases disk.get? start with
    | none => rfl
    | some entry =>
      cases entry with
      | file stamp bytes => rfl
      | directory =>
        simp only
        split
        · exact ih start
        · split
          · exact ih start.dropLast
          · split
            · rfl
            · exact ih (start ++ [piece])

/-- A name that stands for itself when a path is followed. -/
def Plain (name : String) : Prop := Path.isIdle name = false ∧ name ≠ ".."

/-- A plain name is looked up in the directory that has been reached. -/
theorem walk_plain {name : String} (plain : Plain name) (start : Location) :
    disk.walk start [name] =
      match disk.get? start with
      | none => .error .notFound
      | some (.file ..) => .error .notADirectory
      | some .directory =>
          if nameLimit < name.utf8ByteSize then .error .nameTooLong else .ok (start ++ [name]) := by
  rw [walk]
  cases disk.get? start with
  | none => rfl
  | some entry =>
    cases entry with
    | file stamp bytes => rfl
    | directory => simp [plain.1, plain.2, walk]

/-- A step to a plain name leads from a directory to the location of that name in it. -/
theorem eq_of_walk_plain {name : String} (plain : Plain name) {start : Location}
    (found : disk.walk start [name] = .ok place) :
    disk.get? start = some .directory ∧ place = start ++ [name] := by
  rw [walk_plain plain] at found
  split at found
  · cases found
  · cases found
  · rename_i directory
    split at found
    · cases found
    · exact ⟨directory, (Except.ok.inj found).symm⟩

/-- A directory that a path leads to, and that names can be looked up in. -/
structure Opens (disk : Disk) (path : Path) (place : Location) : Prop where
  walk : disk.walk [] path.directoryPieces = .ok place
  directory : disk.get? place = some .directory

theorem Opens.of_changes {touched : Location → Prop} (opens : disk.Opens path place)
    (changes : Changes touched disk after) : after.Opens path place :=
  ⟨changes.walk opens.walk, (changes.directories place).mpr opens.directory⟩

/-- The location of a plain name in an open directory, if its path can be followed at all. -/
theorem Opens.eq_of_locate {name : String} (plain : Plain name) (opens : disk.Opens path place)
    {target : Location} (found : disk.locate (path.child name) = .ok target) :
    target = place ++ [name] := by
  have walked : disk.walk [] (path.directoryPieces ++ [name]) = .ok target :=
    (locate_eq_ok_iff.mp found).2
  rw [walk_append, opens.walk] at walked
  exact (eq_of_walk_plain plain walked).2

/-- The way to a plain name in an open directory is not missing. -/
theorem Opens.locate_ne_notFound {name : String} (plain : Plain name)
    (opens : disk.Opens path place) : disk.locate (path.child name) ≠ .error .notFound := by
  intro located
  unfold locate at located
  cases checked : disk.check (path.child name) with
  | error cause =>
    obtain rfl : cause = .notFound := by simpa [checked, bind, Except.bind] using located
    unfold check at checked
    split at checked
    · cases checked
    · split at checked <;> cases checked
  | ok done =>
    have walked : disk.walk [] (path.child name).pieces = .error .notFound := by
      simpa only [checked, bind, Except.bind] using located
    rw [Path.child, walk_append, opens.walk] at walked
    simp only [walk_plain plain, opens.directory] at walked
    split at walked <;> cases walked

/-- The directory that a path leads to is open for names below the path. -/
theorem opens_of_lookup (found : disk.lookup path = .ok (place, .directory)) :
    disk.Opens path place := by
  obtain ⟨located, directory⟩ := lookup_eq_ok_iff.mp found
  have walked := (locate_eq_ok_iff.mp located).2
  refine ⟨?_, directory⟩
  unfold Path.directoryPieces
  split
  · rename_i last
    obtain ⟨initial, same⟩ := List.getLast?_eq_some_iff.mp last
    rw [same, walk_append] at walked
    rw [same, List.dropLast_concat]
    cases above : disk.walk [] initial with
    | error cause => simp [above] at walked
    | ok stop =>
      -- The empty piece names the directory that it is looked up in.
      simp only [above, Disk.walk] at walked
      split at walked
      · cases walked
      · cases walked
      · simpa [Path.isIdle] using walked
  · exact walked

end Wavefront.Disk
