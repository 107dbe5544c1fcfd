/-
# What operations on files do

Every operation that succeeds changes one location, or two when a file gets another
name, and the statements here say which and what it holds afterwards. An operation
that fails changes nothing, which is part of its type, so only successes appear. The
last section carries out plans that write a file under one name and rename it to
another.
-/

import Wavefront.Proofs.Disk.Changes

namespace Wavefront.Disk

variable {disk after : Disk} {path : Path} {place : Location}

/-- Putting a file where no directory is changes that location only. -/
theorem changes_set {stamp : Nat} {bytes : Bytes} (clear : disk.get? place ≠ some .directory) :
    Changes (· = place) disk (disk.set place (.file stamp bytes)) := by
  have below : place ≠ [] := fun root => clear (root ▸ rfl)
  refine ⟨rfl, fun other => ?_, fun other apart => get?_set_of_ne (Ne.symm apart) _ _⟩
  by_cases same : place = other
  · subst same
    simp [get?_set_self below, clear]
  · rw [get?_set_of_ne same]

/-- Taking a file away changes its location only. -/
theorem changes_unset (clear : disk.get? place ≠ some .directory) :
    Changes (· = place) disk (disk.unset place) := by
  have below : place ≠ [] := fun root => clear (root ▸ rfl)
  refine ⟨rfl, fun other => ?_, fun other apart => get?_unset_of_ne (Ne.symm apart) _⟩
  by_cases same : place = other
  · subst same
    simp [get?_unset_self below, clear]
  · rw [get?_unset_of_ne same]

theorem ne_nil_of_get?_eq_file {stamp : Nat} {bytes : Bytes}
    (file : disk.get? place = some (.file stamp bytes)) : place ≠ [] := by
  rintro rfl
  cases file

/-- Opening a file for writing leaves it empty. -/
theorem create_eq_ok {handle : Handle} (made : disk.create path = .ok (handle, after)) :
    disk.locate path = .ok handle.place ∧ Changes (· = handle.place) disk after ∧
      after.get? handle.place = some (.file handle.stamp []) := by
  unfold create at made
  cases located : disk.locate path with
  | error cause => simp [located, bind, Except.bind] at made
  | ok place =>
    simp only [located, bind, Except.bind] at made
    cases held : disk.get? place with
    | none =>
      simp only [held, Except.ok.injEq, Prod.mk.injEq] at made
      obtain ⟨rfl, rfl⟩ := made
      have clear : disk.get? place ≠ some .directory := by simp [held]
      have below : place ≠ [] := fun root => clear (root ▸ rfl)
      have changes : Changes (· = place) disk (disk.set place (.file disk.nextStamp [])) :=
        changes_set clear
      exact ⟨rfl, ⟨changes.pathLimit, changes.directories, changes.elsewhere⟩,
        get?_set_self below disk _⟩
    | some entry =>
      cases entry with
      | directory => simp [held] at made
      | file stamp bytes =>
        simp only [held, Except.ok.injEq, Prod.mk.injEq] at made
        obtain ⟨rfl, rfl⟩ := made
        have clear : disk.get? place ≠ some .directory := by simp [held]
        exact ⟨rfl, changes_set clear, get?_set_self (ne_nil_of_get?_eq_file held) disk _⟩

/-- Appending puts the bytes after those that the file holds. -/
theorem append_eq_ok {bytes : Bytes} (written : disk.append path bytes = .ok after) :
    ∃ place stamp old, disk.locate path = .ok place ∧
      disk.get? place = some (.file stamp old) ∧ Changes (· = place) disk after ∧
      after.get? place = some (.file stamp (old ++ bytes)) := by
  unfold append at written
  cases found : disk.lookup path with
  | error cause => simp [found, bind, Except.bind] at written
  | ok target =>
    obtain ⟨place, entry⟩ := target
    obtain ⟨located, held⟩ := lookup_eq_ok_iff.mp found
    cases entry with
    | directory => simp [found, bind, Except.bind] at written
    | file stamp old =>
      have same : disk.set place (.file stamp (old ++ bytes)) = after := by
        simpa [found, bind, Except.bind] using written
      subst same
      exact ⟨place, stamp, old, located, held, changes_set (by simp [held]),
        get?_set_self (ne_nil_of_get?_eq_file held) disk _⟩

/-- Renaming moves what the old name leads to, onto anything but a directory. -/
theorem rename_eq_ok {source target : Path} (renamed : disk.rename source target = .ok after) :
    ∃ origin entry place, disk.locate source = .ok origin ∧ disk.get? origin = some entry ∧
      disk.locate target = .ok place ∧ disk.get? place ≠ some .directory ∧
      after = (disk.unset origin).set place entry := by
  unfold rename at renamed
  cases found : disk.lookup source with
  | error cause => simp [found, bind, Except.bind] at renamed
  | ok pair =>
    obtain ⟨origin, entry⟩ := pair
    obtain ⟨located, held⟩ := lookup_eq_ok_iff.mp found
    cases aimed : disk.locate target with
    | error cause => simp [found, aimed, bind, Except.bind] at renamed
    | ok place =>
      simp only [found, aimed, bind, Except.bind] at renamed
      cases there : disk.get? place with
      | none =>
        simp only [there, Except.ok.injEq] at renamed
        exact ⟨origin, entry, place, located, held, rfl, by simp [there], renamed.symm⟩
      | some occupant =>
        cases occupant with
        | directory => simp [there] at renamed
        | file stamp bytes =>
          simp only [there, Except.ok.injEq] at renamed
          exact ⟨origin, entry, place, located, held, rfl, by simp [there], renamed.symm⟩

/-- A path can be removed if it leads to a file. -/
theorem remove_eq_ok_iff :
    disk.remove path = .ok after ↔
      ∃ place stamp bytes, disk.locate path = .ok place ∧
        disk.get? place = some (.file stamp bytes) ∧ after = disk.unset place := by
  unfold remove
  cases found : disk.lookup path with
  | error cause =>
    simp only [bind, Except.bind, reduceCtorEq, false_iff]
    rintro ⟨place, stamp, bytes, located, held, rfl⟩
    simp [lookup_eq_ok_iff.mpr ⟨located, held⟩] at found
  | ok target =>
    obtain ⟨place, entry⟩ := target
    obtain ⟨located, held⟩ := lookup_eq_ok_iff.mp found
    cases entry with
    | directory =>
      simp only [bind, Except.bind, reduceCtorEq, false_iff]
      rintro ⟨other, stamp, bytes, there, file, rfl⟩
      obtain rfl : place = other := Except.ok.inj (located.symm.trans there)
      simp [held] at file
    | file stamp bytes =>
      simp only [bind, Except.bind, Except.ok.injEq]
      constructor
      · rintro rfl
        exact ⟨place, stamp, bytes, located, held, rfl⟩
      · rintro ⟨other, _, _, there, _, rfl⟩
        obtain rfl : place = other := Except.ok.inj (located.symm.trans there)
        rfl

/-- A plain name in an open directory that cannot be found for removal is not there: the way to
it is known, so nothing else can be missing. -/
theorem Opens.get?_of_remove_notFound {name : String} (plain : Plain name)
    (opens : disk.Opens path place) (missing : disk.remove (path.child name) = .error .notFound) :
    disk.get? (place ++ [name]) = none := by
  unfold remove at missing
  cases found : disk.lookup (path.child name) with
  | ok target =>
    obtain ⟨target, entry⟩ := target
    cases entry <;> simp [found, bind, Except.bind] at missing
  | error cause =>
    obtain rfl : cause = .notFound := by simpa [found, bind, Except.bind] using missing
    unfold lookup at found
    cases located : disk.locate (path.child name) with
    | ok target =>
      obtain rfl := opens.eq_of_locate plain located
      cases held : disk.get? (place ++ [name]) with
      | none => rfl
      | some entry => simp [located, held, bind, Except.bind] at found
    | error cause =>
      obtain rfl : cause = .notFound := by simpa [located, bind, Except.bind] using found
      exact absurd located (opens.locate_ne_notFound plain)

/-- Reading a path gives the bytes of the file that it leads to. -/
theorem read_eq_ok_iff {bytes : Bytes} :
    disk.read path = .ok bytes ↔
      ∃ place stamp, disk.locate path = .ok place ∧
        disk.get? place = some (.file stamp bytes) := by
  unfold read
  cases found : disk.lookup path with
  | error cause =>
    simp only [bind, Except.bind, reduceCtorEq, false_iff]
    rintro ⟨place, stamp, located, held⟩
    simp [lookup_eq_ok_iff.mpr ⟨located, held⟩] at found
  | ok target =>
    obtain ⟨place, entry⟩ := target
    obtain ⟨located, held⟩ := lookup_eq_ok_iff.mp found
    cases entry with
    | directory =>
      simp only [bind, Except.bind, reduceCtorEq, false_iff]
      rintro ⟨other, stamp, there, file⟩
      obtain rfl : place = other := Except.ok.inj (located.symm.trans there)
      simp [held] at file
    | file stamp held' =>
      simp only [bind, Except.bind, Except.ok.injEq]
      constructor
      · rintro rfl
        exact ⟨place, stamp, located, held⟩
      · rintro ⟨other, stamp', there, file⟩
        obtain rfl : place = other := Except.ok.inj (located.symm.trans there)
        simp_all

/-- A path leads to something if it leads to a location that is not vacant. -/
theorem exists?_eq_true_iff :
    disk.exists? path = true ↔
      ∃ place entry, disk.locate path = .ok place ∧ disk.get? place = some entry := by
  unfold exists?
  cases found : disk.lookup path with
  | error cause =>
    simp only [Except.toBool, Bool.false_eq_true, false_iff]
    rintro ⟨place, entry, located, held⟩
    simp [lookup_eq_ok_iff.mpr ⟨located, held⟩] at found
  | ok target =>
    obtain ⟨located, held⟩ := lookup_eq_ok_iff.mp found
    simp only [Except.toBool, true_iff]
    exact ⟨target.1, target.2, located, held⟩

/-- Writing through a handle changes the location of its file only. -/
theorem changes_writeAt (disk : Disk) (handle : Handle) (position : Nat) (bytes : Bytes) :
    Changes (· = handle.place) disk (disk.writeAt handle position bytes) := by
  unfold writeAt
  split
  · rename_i stamp old held
    split
    · exact changes_set (by simp [held])
    · exact Changes.refl _ _
  · exact Changes.refl _ _

/-- Laying a beginning of some bytes over another one leaves the longer of the two. -/
theorem overlay_of_isPrefix {early new all : Bytes} (front : Bytes) (first : early <+: all)
    (second : new <+: all) :
    ∃ longer, longer <+: all ∧ new <+: longer ∧
      overlay (front ++ early) front.length new = front ++ longer := by
  have laid : overlay (front ++ early) front.length new =
      front ++ (new ++ early.drop new.length) := by
    simp [overlay]
  rw [laid]
  rcases List.prefix_or_prefix_of_prefix first second with shorter | longer
  · rw [List.drop_eq_nil_of_le shorter.length_le, List.append_nil]
    exact ⟨new, second, List.prefix_rfl, rfl⟩
  · rw [List.prefix_iff_eq_append.mp longer]
    exact ⟨early, first, longer, rfl⟩

/-- A directory can be listed. -/
theorem exists_children (found : disk.lookup path = .ok (place, .directory)) :
    ∃ names, disk.children path = .ok names := by
  simp [children, found, bind, Except.bind]

/-- What can be listed is a directory. -/
theorem exists_lookup_of_children {names : List String} (listed : disk.children path = .ok names) :
    ∃ place, disk.lookup path = .ok (place, .directory) := by
  unfold children at listed
  cases found : disk.lookup path with
  | error cause => simp [found, bind, Except.bind] at listed
  | ok target =>
    obtain ⟨place, entry⟩ := target
    cases entry with
    | directory => exact ⟨place, rfl⟩
    | file stamp bytes => simp [found, bind, Except.bind] at listed

/-- The names listed for a directory are those of the locations directly below it. -/
theorem mem_children_iff {names : List String} {name : String}
    (found : disk.lookup path = .ok (place, .directory)) (listed : disk.children path = .ok names) :
    name ∈ names ↔ ∃ entry, disk.get? (place ++ [name]) = some entry := by
  have same : names = disk.entries.toList.filterMap fun pair =>
      if pair.1.dropLast = place then pair.1.getLast? else none := by
    simpa [children, found, bind, Except.bind, eq_comm] using listed
  rw [same, List.mem_filterMap]
  constructor
  · rintro ⟨⟨other, entry⟩, member, chosen⟩
    have kept := Std.ExtTreeMap.mem_toList_iff_getElem?_eq_some.mp member
    simp only [Option.ite_none_right_eq_some] at chosen
    obtain ⟨above, last⟩ := chosen
    obtain ⟨initial, rfl⟩ := List.getLast?_eq_some_iff.mp last
    rw [List.dropLast_concat] at above
    subst above
    refine ⟨entry, ?_⟩
    cases initial <;> exact kept
  · rintro ⟨entry, held⟩
    refine ⟨(place ++ [name], entry), ?_, by simp⟩
    rw [Std.ExtTreeMap.mem_toList_iff_getElem?_eq_some]
    cases place <;> exact held

end Wavefront.Disk
