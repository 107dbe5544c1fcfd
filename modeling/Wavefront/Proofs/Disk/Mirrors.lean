/-
# Directories that mirror each other

Two directories, each on a disk of its own, mirror each other if they hold the same files under the
same names. Operations on a name turn out in the same way in both, and leave them mirroring each
other, whatever else there is on the two disks. The stamps of the files may differ, but those on the
one disk run ahead of those on the other by the same number everywhere, so handles are as good in
the one directory as in the other.
-/

import Wavefront.Proofs.Disk.Names
import Wavefront.Proofs.Disk.Operations

namespace Wavefront

/-- Two results that are both failures or both answers, and are related as such. -/
inductive Alike {ε ε' α β : Type} (fails : ε → ε' → Prop) (answers : α → β → Prop) :
    Except ε α → Except ε' β → Prop where
  | error {cause : ε} {cause' : ε'} (alike : fails cause cause') :
      Alike fails answers (.error cause) (.error cause')
  | ok {answer : α} {answer' : β} (alike : answers answer answer') :
      Alike fails answers (.ok answer) (.ok answer')

/-- A directory that was made for files of its own: the path and the location of it, and the stamp
that the first file will have there. -/
structure Site where
  path : Path
  place : Location
  stamp : Nat

namespace Site

variable (left right : Site)

/-- Stamps that are as far from the first ones. -/
def Level (stamp stamp' : Nat) : Prop := stamp' + left.stamp = stamp + right.stamp

/-- Locations that hold nothing, or files with the same bytes and with level stamps. -/
inductive Matches : Option Entry → Option Entry → Prop where
  | none : Matches none none
  | file {stamp stamp' : Nat} {bytes : Bytes} (level : left.Level right stamp stamp') :
      Matches (some (.file stamp bytes)) (some (.file stamp' bytes))

/-- Handles of files of the same name, with level stamps. -/
structure Handles (name : String) (handle handle' : Disk.Handle) : Prop where
  place : handle.place = left.place ++ [name]
  place' : handle'.place = right.place ++ [name]
  level : left.Level right handle.stamp handle'.stamp

variable {left right} {stamp stamp' first first' : Nat}

theorem Level.eq_iff (one : left.Level right stamp stamp') (two : left.Level right first first') :
    stamp' = first' ↔ stamp = first := by
  unfold Level at one two
  omega

theorem Level.succ (level : left.Level right stamp stamp') :
    left.Level right (stamp + 1) (stamp' + 1) := by
  unfold Level at level ⊢
  omega

end Site

namespace Disk

/-- Using up a stamp changes no file. -/
theorem changes_advance (disk : Disk) :
    disk.Changes (fun _ => False) { disk with nextStamp := disk.nextStamp + 1 } :=
  ⟨rfl, fun _ => Iff.rfl, fun _ _ => rfl⟩

/-- Whether a path to a name in an open directory can be followed, and if not, why. -/
def reach (disk : Disk) (path : Path) (name : String) : Except IoError Unit :=
  match disk.check (path.child name) with
  | .error cause => .error cause
  | .ok () => if nameLimit < name.utf8ByteSize then .error .nameTooLong else .ok ()

variable {disk mirror : Disk} {path : Path} {place : Location} {name : String}

theorem reach_eq {after : Disk} (same : after.pathLimit = disk.pathLimit) :
    after.reach path name = disk.reach path name := by
  simp only [reach, check, same]

theorem Opens.locate_eq (plain : Plain name) (opens : disk.Opens path place) :
    disk.locate (path.child name) = (disk.reach path name).map fun _ => place ++ [name] := by
  have walked : disk.walk [] (path.child name).pieces =
      if nameLimit < name.utf8ByteSize then .error .nameTooLong else .ok (place ++ [name]) := by
    rw [Path.child, walk_append, opens.walk]
    simp only [walk_plain plain, opens.directory]
  unfold locate reach
  cases disk.check (path.child name) with
  | error cause => rfl
  | ok done =>
    simp only [bind, Except.bind, walked]
    split <;> rfl

/-- Two directories that hold the same files under the same names. -/
structure Mirrors (left right : Site) (disk mirror : Disk) : Prop where
  opens : disk.Opens left.path left.place
  opens' : mirror.Opens right.path right.place
  reach : ∀ name, disk.reach left.path name = mirror.reach right.path name
  entries : ∀ name, left.Matches right (disk.get? (left.place ++ [name]))
    (mirror.get? (right.place ++ [name]))
  stamps : left.Level right disk.nextStamp mirror.nextStamp

namespace Mirrors

variable {left right : Site} {bytes : Bytes} {stamp stamp' : Nat}

theorem located (mirrors : Mirrors left right disk mirror) (plain : Plain name) :
    (∃ cause, disk.locate (left.path.child name) = .error cause ∧
      mirror.locate (right.path.child name) = .error cause) ∨
    (disk.locate (left.path.child name) = .ok (left.place ++ [name]) ∧
      mirror.locate (right.path.child name) = .ok (right.place ++ [name])) := by
  rw [mirrors.opens.locate_eq plain, mirrors.opens'.locate_eq plain, ← mirrors.reach name]
  cases disk.reach left.path name with
  | error cause => exact .inl ⟨cause, rfl, rfl⟩
  | ok done => exact .inr ⟨rfl, rfl⟩

/-! ## Single changes -/

theorem entry (mirrors : Mirrors left right disk mirror) (name : String) :
    (disk.get? (left.place ++ [name]) = none ∧ mirror.get? (right.place ++ [name]) = none) ∨
    ∃ stamp stamp' bytes, left.Level right stamp stamp' ∧
      disk.get? (left.place ++ [name]) = some (.file stamp bytes) ∧
      mirror.get? (right.place ++ [name]) = some (.file stamp' bytes) := by
  have matched := mirrors.entries name
  generalize disk.get? (left.place ++ [name]) = entry at matched ⊢
  generalize mirror.get? (right.place ++ [name]) = entry' at matched ⊢
  cases matched with
  | none => exact .inl ⟨rfl, rfl⟩
  | file level => exact .inr ⟨_, _, _, level, rfl, rfl⟩

theorem not_directory (mirrors : Mirrors left right disk mirror) (name : String) :
    disk.get? (left.place ++ [name]) ≠ some .directory ∧
      mirror.get? (right.place ++ [name]) ≠ some .directory := by
  rcases mirrors.entry name with ⟨one, two⟩ | ⟨_, _, _, -, one, two⟩
  all_goals simp [one, two]

/-! ## Single changes -/

theorem set (mirrors : Mirrors left right disk mirror) (name : String) (bytes : Bytes)
    (level : left.Level right stamp stamp') :
    Mirrors left right (disk.set (left.place ++ [name]) (.file stamp bytes))
      (mirror.set (right.place ++ [name]) (.file stamp' bytes)) where
  opens := mirrors.opens.of_changes (changes_set (mirrors.not_directory name).1)
  opens' := mirrors.opens'.of_changes (changes_set (mirrors.not_directory name).2)
  reach := mirrors.reach
  entries other := by
    by_cases same : name = other
    · subst same
      rw [get?_set_self (by simp), get?_set_self (by simp)]
      exact .file level
    · rw [get?_set_of_ne (by simpa using same), get?_set_of_ne (by simpa using same)]
      exact mirrors.entries other
  stamps := mirrors.stamps

theorem unset (mirrors : Mirrors left right disk mirror) (name : String) :
    Mirrors left right (disk.unset (left.place ++ [name]))
      (mirror.unset (right.place ++ [name])) where
  opens := mirrors.opens.of_changes (changes_unset (mirrors.not_directory name).1)
  opens' := mirrors.opens'.of_changes (changes_unset (mirrors.not_directory name).2)
  reach := mirrors.reach
  entries other := by
    by_cases same : name = other
    · subst same
      rw [get?_unset_self (by simp), get?_unset_self (by simp)]
      exact .none
    · rw [get?_unset_of_ne (by simpa using same), get?_unset_of_ne (by simpa using same)]
      exact mirrors.entries other
  stamps := mirrors.stamps

/-- A stamp is used up on both disks. -/
theorem advance (mirrors : Mirrors left right disk mirror) :
    Mirrors left right { disk with nextStamp := disk.nextStamp + 1 }
      { mirror with nextStamp := mirror.nextStamp + 1 } where
  opens := mirrors.opens.of_changes (changes_advance disk)
  opens' := mirrors.opens'.of_changes (changes_advance mirror)
  reach := mirrors.reach
  entries := mirrors.entries
  stamps := mirrors.stamps.succ

/-! ## Operations -/

/-- Looking up a name fails for the same cause, or finds files that match. -/
theorem lookup (mirrors : Mirrors left right disk mirror) (plain : Plain name) :
    (∃ cause, disk.lookup (left.path.child name) = .error cause ∧
      mirror.lookup (right.path.child name) = .error cause) ∨
    ∃ stamp stamp' bytes, left.Level right stamp stamp' ∧
      disk.lookup (left.path.child name) = .ok (left.place ++ [name], .file stamp bytes) ∧
      mirror.lookup (right.path.child name) = .ok (right.place ++ [name], .file stamp' bytes) := by
  unfold Disk.lookup
  rcases mirrors.located plain with ⟨cause, one, two⟩ | ⟨one, two⟩
  · exact .inl ⟨cause, by simp [one, bind, Except.bind], by simp [two, bind, Except.bind]⟩
  · rcases mirrors.entry name with ⟨held, held'⟩ | ⟨stamp, stamp', bytes, level, held, held'⟩
    · exact .inl ⟨.notFound, by simp [one, held, bind, Except.bind],
        by simp [two, held', bind, Except.bind]⟩
    · exact .inr ⟨stamp, stamp', bytes, level, by simp [one, held, bind, Except.bind],
        by simp [two, held', bind, Except.bind]⟩

theorem exists?_eq (mirrors : Mirrors left right disk mirror) (plain : Plain name) :
    mirror.exists? (right.path.child name) = disk.exists? (left.path.child name) := by
  unfold Disk.exists?
  rcases mirrors.lookup plain with ⟨cause, one, two⟩ | ⟨_, _, _, -, one, two⟩
  · rw [one, two]
  · rw [one, two]
    rfl

theorem read_eq (mirrors : Mirrors left right disk mirror) (plain : Plain name) :
    mirror.read (right.path.child name) = disk.read (left.path.child name) := by
  unfold Disk.read
  rcases mirrors.lookup plain with ⟨cause, one, two⟩ | ⟨_, _, _, -, one, two⟩
  · rw [one, two]
  · rw [one, two]
    rfl

theorem create (mirrors : Mirrors left right disk mirror) (plain : Plain name) :
    Alike Eq (fun made made' => left.Handles right name made.1 made'.1 ∧
        Mirrors left right made.2 made'.2)
      (disk.create (left.path.child name)) (mirror.create (right.path.child name)) := by
  unfold Disk.create
  rcases mirrors.located plain with ⟨cause, one, two⟩ | ⟨one, two⟩
  · simp only [one, two, bind, Except.bind]
    exact .error rfl
  · simp only [one, two, bind, Except.bind]
    rcases mirrors.entry name with ⟨held, held'⟩ | ⟨stamp, stamp', bytes, level, held, held'⟩
    · simp only [held, held']
      exact .ok ⟨⟨rfl, rfl, mirrors.stamps⟩, (mirrors.set name [] mirrors.stamps).advance⟩
    · simp only [held, held']
      exact .ok ⟨⟨rfl, rfl, level⟩, mirrors.set name [] level⟩

theorem append (mirrors : Mirrors left right disk mirror) (plain : Plain name) (bytes : Bytes) :
    Alike Eq (Mirrors left right) (disk.append (left.path.child name) bytes)
      (mirror.append (right.path.child name) bytes) := by
  unfold Disk.append
  rcases mirrors.lookup plain with ⟨cause, one, two⟩ | ⟨_, _, _, level, one, two⟩
  all_goals simp only [one, two, bind, Except.bind]
  · exact .error rfl
  · exact .ok (mirrors.set name _ level)

theorem remove (mirrors : Mirrors left right disk mirror) (plain : Plain name) :
    Alike Eq (Mirrors left right) (disk.remove (left.path.child name))
      (mirror.remove (right.path.child name)) := by
  unfold Disk.remove
  rcases mirrors.lookup plain with ⟨cause, one, two⟩ | ⟨_, _, _, level, one, two⟩
  all_goals simp only [one, two, bind, Except.bind]
  · exact .error rfl
  · exact .ok (mirrors.unset name)

theorem rename {source target : String} (mirrors : Mirrors left right disk mirror)
    (plain : Plain source) (plain' : Plain target) :
    Alike Eq (Mirrors left right)
      (disk.rename (left.path.child source) (left.path.child target))
      (mirror.rename (right.path.child source) (right.path.child target)) := by
  unfold Disk.rename
  rcases mirrors.lookup plain with ⟨cause, one, two⟩ | ⟨_, _, bytes, level, one, two⟩
  all_goals simp only [one, two, bind, Except.bind]
  · exact .error rfl
  · have moved := (mirrors.unset source).set target bytes level
    rcases mirrors.located plain' with ⟨cause, aimed, aimed'⟩ | ⟨aimed, aimed'⟩
    all_goals simp only [aimed, aimed']
    · exact .error rfl
    · rcases mirrors.entry target with ⟨held, held'⟩ | ⟨_, _, _, -, held, held'⟩
      all_goals
        simp only [held, held']
        exact .ok moved

/-- Writing through handles of the same file changes both files or none. -/
theorem writeAt {handle handle' : Handle} (mirrors : Mirrors left right disk mirror)
    (handles : left.Handles right name handle handle') (position : Nat) (bytes : Bytes) :
    Mirrors left right (disk.writeAt handle position bytes)
      (mirror.writeAt handle' position bytes) := by
  unfold Disk.writeAt
  rw [handles.place, handles.place']
  rcases mirrors.entry name with ⟨held, held'⟩ | ⟨stamp, stamp', old, level, held, held'⟩
  all_goals simp only [held, held']
  · exact mirrors
  · by_cases own : stamp = handle.stamp
    · rw [if_pos own, if_pos ((level.eq_iff handles.level).mpr own)]
      exact mirrors.set name _ level
    · rw [if_neg own, if_neg (mt (level.eq_iff handles.level).mp own)]
      exact mirrors

end Mirrors

end Disk

/-! ## Plans -/

namespace FileStep

/-- The same step with the same names, in two directories. -/
inductive Mirrors (left right : Path) : FileStep → FileStep → Prop where
  | create {name : String} (plain : Disk.Plain name) :
      Mirrors left right (.create (left.child name)) (.create (right.child name))
  | append {name : String} {bytes : Bytes} (plain : Disk.Plain name) :
      Mirrors left right (.append (left.child name) bytes) (.append (right.child name) bytes)
  | sync {name : String} :
      Mirrors left right (.sync (left.child name)) (.sync (right.child name))
  | refuse {name : String} {cause : IoError} :
      Mirrors left right (.refuse (left.child name) cause) (.refuse (right.child name) cause)
  | rename {source target : String} (plain : Disk.Plain source) (plain' : Disk.Plain target) :
      Mirrors left right (.rename (left.child source) (left.child target))
        (.rename (right.child source) (right.child target))

variable {left right : Site} {step step' : FileStep} {disk mirror : Disk}

theorem Mirrors.perform (steps : Mirrors left.path right.path step step')
    (mirrors : disk.Mirrors left right mirror) :
    Alike Eq (Disk.Mirrors left right) (step.perform disk) (step'.perform mirror) := by
  cases steps with
  | create plain =>
    have made := mirrors.create plain
    simp only [FileStep.perform]
    generalize disk.create _ = result at made ⊢
    generalize mirror.create _ = result' at made ⊢
    cases made with
    | error alike => exact .error alike
    | ok alike => exact .ok alike.2
  | append plain => exact mirrors.append plain _
  | sync => exact .ok mirrors
  | refuse => exact .error rfl
  | rename plain plain' => exact mirrors.rename plain plain'

/-- The failure of a step is blamed on the same name. -/
theorem Mirrors.blamed {left right : Path} (steps : Mirrors left right step step') :
    ∃ name, step.blamed = left.child name ∧ step'.blamed = right.child name := by
  cases steps <;> exact ⟨_, rfl, rfl⟩

end FileStep

/-- The same plan with the same names fails at the same step, if it fails, in directories that
mirror each other. -/
theorem Plan.perform_mirrors {left right : Site} {plan plan' : Plan} {disk mirror : Disk}
    (plans : List.Forall₂ (FileStep.Mirrors left.path right.path) plan plan')
    (mirrors : disk.Mirrors left right mirror) :
    Alike (fun blame blame' => blame'.2 = blame.2 ∧ ∃ name,
        blame.1 = left.path.child name ∧ blame'.1 = right.path.child name) Eq
      (plan.perform disk).1 (Plan.perform plan' mirror).1 ∧
    (plan.perform disk).2.Mirrors left right (Plan.perform plan' mirror).2 := by
  induction plans generalizing disk mirror with
  | nil => exact ⟨.ok rfl, mirrors⟩
  | cons steps _ ih =>
    have performed := steps.perform mirrors
    simp only [Plan.perform]
    generalize FileStep.perform _ disk = result at performed ⊢
    generalize FileStep.perform _ mirror = result' at performed ⊢
    cases performed with
    | error alike =>
      exact ⟨.error ⟨alike.symm, steps.blamed⟩, mirrors⟩
    | ok alike => exact ih alike

end Wavefront
