/-
# Trees of directories

Whatever lies on a disk lies in a directory. Making the directories on the way to a path keeps it
so. It takes nothing away and changes no file, and every directory that it makes is one that a
front part of the path leads to; `Disk.Paves` says so. A directory that was just made is empty.
-/

import Mathlib.Data.List.DropRight
import Mathlib.Data.List.TakeWhile
import Wavefront.Proofs.Disk.Operations

namespace Wavefront.Disk

variable {disk before middle after : Disk} {path : Path} {place start parent : Location}
  {name : String} {pieces front : List String} {entry : Entry}

/-- Whatever lies on a disk lies in a directory. -/
def Rooted (disk : Disk) : Prop :=
  ∀ place name entry, disk.get? (place ++ [name]) = some entry → disk.get? place = some .directory

theorem rooted_empty (nextStamp pathLimit : Nat) : Rooted ⟨∅, nextStamp, pathLimit⟩ := by
  intro place name entry found
  cases place <;> simp [get?] at found

/-! ## Following paths -/

namespace Rooted

/-- What something lies in is a directory. -/
theorem dropLast (rooted : disk.Rooted) (found : disk.get? place = some entry) :
    disk.get? place.dropLast = some .directory := by
  rcases List.eq_nil_or_concat place with rfl | ⟨above, name, rfl⟩
  · exact get?_root disk
  · rw [List.concat_eq_append] at found ⊢
    rw [List.dropLast_concat]
    exact rooted above name entry found

/-- Where nothing is, nothing is below. -/
theorem eq_none_of_prefix (rooted : disk.Rooted) (vacant : disk.get? place = none)
    (below : place <+: start) : disk.get? start = none := by
  obtain ⟨rest, rfl⟩ := below
  induction rest using List.reverseRecOn with
  | nil => rwa [List.append_nil]
  | append_singleton rest name ih =>
    rw [← List.append_assoc]
    refine Option.eq_none_iff_forall_ne_some.mpr fun entry found => ?_
    rw [rooted _ _ _ found] at ih
    cases ih

/-- What is put into a directory where nothing was keeps a disk a tree. -/
theorem set (rooted : disk.Rooted) (parent : disk.get? place = some .directory)
    (vacant : disk.get? (place ++ [name]) = none) (new : Entry) :
    (disk.set (place ++ [name]) new).Rooted := by
  intro above inner entry found
  have outer : above ≠ place ++ [name] → disk.get? above = some .directory →
      (disk.set (place ++ [name]) new).get? above = some .directory := fun apart old => by
    rwa [get?_set_of_ne (Ne.symm apart)]
  by_cases same : place ++ [name] = above ++ [inner]
  · obtain ⟨rfl, -⟩ := List.append_inj' same rfl
    exact outer (by simp) parent
  · rw [get?_set_of_ne same] at found
    have old := rooted above inner entry found
    exact outer (fun made => by simp [made, vacant] at old) old

/-- Following a path from a directory ends at a directory or directly below one. -/
theorem of_walk (rooted : disk.Rooted) (here : disk.get? start = some .directory)
    (found : disk.walk start pieces = .ok place) :
    disk.get? place = some .directory ∨
      ∃ parent name, place = parent ++ [name] ∧ disk.get? parent = some .directory := by
  suffices general : ∀ start, (disk.get? start = some .directory ∨
      ∃ parent name, start = parent ++ [name] ∧ disk.get? parent = some .directory) →
      disk.walk start pieces = .ok place → (disk.get? place = some .directory ∨
      ∃ parent name, place = parent ++ [name] ∧ disk.get? parent = some .directory) from
    general start (.inl here) found
  clear here found
  induction pieces with
  | nil =>
    rintro start near ⟨rfl⟩
    exact near
  | cons piece rest ih =>
    intro start near found
    rw [walk] at found
    split at found
    · cases found
    · cases found
    · rename_i here
      split at found
      · exact ih start (.inl here) found
      · split at found
        · exact ih start.dropLast (.inl (rooted.dropLast here)) found
        · split at found
          · cases found
          · exact ih (start ++ [piece]) (.inr ⟨start, piece, rfl, here⟩) found

end Rooted

/-- Pieces that name nothing lead nowhere else. -/
theorem walk_idle (here : disk.get? place = some .directory)
    (idle : ∀ piece ∈ pieces, Path.isIdle piece = true) : disk.walk place pieces = .ok place := by
  induction pieces with
  | nil => rfl
  | cons piece rest ih =>
    rw [walk, here]
    simp only [idle piece List.mem_cons_self, if_true]
    exact ih fun other member => idle other (List.mem_cons_of_mem _ member)

/-- Pieces that name nothing lead nowhere else, if they can be followed at all. -/
theorem eq_of_walk_idle (idle : ∀ piece ∈ pieces, Path.isIdle piece = true)
    (found : disk.walk start pieces = .ok place) : place = start := by
  induction pieces with
  | nil => exact (Except.ok.inj found).symm
  | cons piece rest ih =>
    rw [walk] at found
    split at found
    · cases found
    · cases found
    · rw [if_pos (idle piece List.mem_cons_self)] at found
      exact ih (fun other member => idle other (List.mem_cons_of_mem _ member)) found

/-- Where pieces of a path lead from a location if all that is on the way is there. -/
def destination : Location → List String → Location
  | place, [] => place
  | place, piece :: rest =>
      if Path.isIdle piece then destination place rest
      else if piece = ".." then destination place.dropLast rest
      else destination (place ++ [piece]) rest

theorem eq_destination_of_walk (found : disk.walk start pieces = .ok place) :
    place = destination start pieces := by
  induction pieces generalizing start with
  | nil => exact (Except.ok.inj found).symm
  | cons piece rest ih =>
    rw [walk] at found
    rw [destination]
    split at found
    · cases found
    · cases found
    · split_ifs at found ⊢ with idle up long
      · exact ih found
      · exact ih found
      · exact ih found

end Wavefront.Disk

namespace Wavefront.Path

variable (path : Path)

/-- What is cut off the end of a path names nothing. -/
theorem exists_trimmed : ∃ rest, path.pieces = path.trimmed ++ rest ∧
    ∀ piece ∈ rest, isIdle piece = true := by
  refine ⟨(path.pieces.reverse.takeWhile (· == "")).reverse, ?_, fun piece member => ?_⟩
  · rw [trimmed, ← List.reverse_append, List.takeWhile_append_dropWhile, List.reverse_reverse]
  · have slash := List.mem_takeWhile_imp (List.mem_reverse.mp member)
    simp only [isIdle, slash, Bool.true_or]

theorem trimmed_prefix : path.trimmed <+: path.pieces :=
  List.rdropWhile_prefix _ path.pieces

theorem above_prefix : path.above <+: path.pieces := by
  have suffix : (path.pieces.reverse.dropWhile isIdle).drop 1 <:+ path.pieces.reverse :=
    (List.drop_suffix _ _).trans (List.dropWhile_suffix _)
  simpa [above] using List.reverse_prefix.mpr suffix

end Wavefront.Path

namespace Wavefront.Disk

variable {disk before middle after : Disk} {path : Path} {place start parent : Location}
  {name : String} {pieces front : List String} {entry : Entry}

/-! ## One directory -/

/-- A directory is made in a directory, where nothing was. -/
theorem mkdir_eq_ok (rooted : disk.Rooted) (made : disk.mkdir path = .ok after) :
    ∃ parent name, disk.check path = .ok () ∧ disk.walk [] path.trimmed = .ok (parent ++ [name]) ∧
      disk.get? parent = some .directory ∧ disk.get? (parent ++ [name]) = none ∧
      after = disk.set (parent ++ [name]) .directory := by
  unfold mkdir at made
  cases checked : disk.check path with
  | error cause => simp [checked, bind, Except.bind] at made
  | ok done =>
    cases walked : disk.walk [] path.trimmed with
    | error cause => simp [checked, walked, bind, Except.bind] at made
    | ok place =>
      simp only [checked, walked, bind, Except.bind] at made
      split at made
      · cases made
      · rename_i vacant
        rcases rooted.of_walk (get?_root disk) walked with there | ⟨parent, name, rfl, here⟩
        · simp [vacant] at there
        · exact ⟨parent, name, rfl, rfl, here, vacant, (Except.ok.inj made).symm⟩

/-- What can be said of the way to a path and of the location that it leads to. -/
theorem lookup_directory_iff :
    disk.lookup path = .ok (place, .directory) ↔ disk.check path = .ok () ∧
      disk.walk [] path.trimmed = .ok place ∧ disk.get? place = some .directory := by
  obtain ⟨rest, same, idle⟩ := path.exists_trimmed
  rw [lookup_eq_ok_iff, locate_eq_ok_iff, same, walk_append]
  constructor
  · rintro ⟨⟨checked, walked⟩, here⟩
    cases reached : disk.walk [] path.trimmed with
    | error cause => simp [reached] at walked
    | ok stop =>
      simp only [reached] at walked
      rw [eq_of_walk_idle idle walked] at here ⊢
      exact ⟨checked, rfl, here⟩
  · rintro ⟨checked, reached, here⟩
    simp only [reached]
    exact ⟨⟨checked, walk_idle here idle⟩, here⟩

/-- A directory that was just made is there, and nothing is in it. -/
theorem lookup_of_mkdir (rooted : disk.Rooted) (made : disk.mkdir path = .ok after) :
    ∃ place, after.lookup path = .ok (place, .directory) ∧
      ∀ name, after.get? (place ++ [name]) = none := by
  obtain ⟨parent, last, checked, walked, here, vacant, rfl⟩ := mkdir_eq_ok rooted made
  refine ⟨parent ++ [last], lookup_directory_iff.mpr ⟨checked, ?_, get?_set_self (by simp) _ _⟩, ?_⟩
  · refine walk_of_directories (fun place directory => ?_) walked
    rw [get?_set_of_ne fun same => by simp [← same, vacant] at directory]
    exact directory
  · intro name
    rw [get?_set_of_ne (by simp)]
    cases held : disk.get? (parent ++ [last] ++ [name]) with
    | none => rfl
    | some entry =>
      have outer := rooted _ _ _ held
      simp [vacant] at outer

/-- A directory that is there already need not be made. -/
theorem mkdirAll_of_lookup (found : disk.lookup path = .ok (place, .directory)) :
    mkdirAll path disk = (.ok (), disk) := by
  obtain ⟨checked, walked, here⟩ := lookup_directory_iff.mp found
  have known : disk.mkdir path = .error .alreadyExists := by
    simp only [mkdir, checked, walked, here, bind, Except.bind]
  have there : disk.isDirectory path = true := by simp only [isDirectory, found]
  simp only [mkdirAll, known, mkdirUnlessThere, there, if_true]

/-! ## All directories on a way -/

/-- Nothing is taken away, and what is new are directories that front parts of a path lead to. -/
structure Paves (pieces : List String) (before after : Disk) : Prop where
  pathLimit : after.pathLimit = before.pathLimit
  kept : ∀ place entry, before.get? place = some entry → after.get? place = some entry
  fresh : ∀ place entry, before.get? place = none → after.get? place = some entry →
    entry = .directory ∧ ∃ front, front <+: pieces ∧ after.walk [] front = .ok place

namespace Paves

theorem refl (pieces : List String) (disk : Disk) : Paves pieces disk disk :=
  ⟨rfl, fun _ _ => id, fun _ _ none some => by simp [none] at some⟩

theorem walk (paves : Paves pieces before after) (found : before.walk start front = .ok place) :
    after.walk start front = .ok place :=
  walk_of_directories (fun place => paves.kept place _) found

theorem trans (first : Paves pieces before middle) (second : Paves pieces middle after) :
    Paves pieces before after where
  pathLimit := second.pathLimit.trans first.pathLimit
  kept place entry found := second.kept place entry (first.kept place entry found)
  fresh place entry vacant found := by
    cases between : middle.get? place with
    | none => exact second.fresh place entry between found
    | some entry' =>
      obtain ⟨rfl, front, part, walked⟩ := first.fresh place entry' vacant between
      have same := (second.kept place _ between).symm.trans found
      exact ⟨(Option.some.inj same).symm, front, part, second.walk walked⟩

theorem mono (part : front <+: pieces) (paves : Paves front before after) :
    Paves pieces before after where
  pathLimit := paves.pathLimit
  kept := paves.kept
  fresh place entry vacant found := by
    obtain ⟨directory, some, within, walked⟩ := paves.fresh place entry vacant found
    exact ⟨directory, some, within.trans part, walked⟩

/-- A directory that a front part of a path leads to is made where nothing was. -/
theorem of_set (part : front <+: pieces) (vacant : disk.get? place = none)
    (walked : disk.walk [] front = .ok place) : Paves pieces disk (disk.set place .directory) := by
  have kept : ∀ other entry, disk.get? other = some entry →
      (disk.set place .directory).get? other = some entry := fun other entry found => by
    rwa [get?_set_of_ne fun same => by simp [← same, vacant] at found]
  refine ⟨rfl, kept, fun other entry none found => ?_⟩
  by_cases same : place = other
  · subst same
    rw [get?_set_self (fun root => by simp [root] at vacant)] at found
    exact ⟨(Option.some.inj found).symm, front, part,
      walk_of_directories (fun other => kept other _) walked⟩
  · rw [get?_set_of_ne same, none] at found
    cases found

end Paves

namespace Paves

/-- Nothing is made where no front part of the path leads. -/
theorem get?_eq (paves : Paves pieces before after) {target : Location}
    (apart : ∀ front, front <+: pieces → destination [] front ≠ target) :
    after.get? target = before.get? target := by
  cases old : before.get? target with
  | some entry => exact paves.kept target entry old
  | none =>
    cases new : after.get? target with
    | none => rfl
    | some entry =>
      obtain ⟨-, front, part, walked⟩ := paves.fresh target entry old new
      exact absurd (eq_destination_of_walk walked).symm (apart front part)

end Paves

variable {result : Except IoError Unit}

/-- Following pieces from a directory makes directories on the way only. -/
theorem paves_makeWay {done rest : List String} (rooted : disk.Rooted)
    (walked : disk.walk [] done = .ok place) (here : disk.get? place = some .directory)
    (made : makeWay place rest disk = (result, after)) :
    Paves (done ++ rest) disk after ∧ after.Rooted := by
  induction rest generalizing place done disk with
  | nil =>
    obtain ⟨-, rfl⟩ := Prod.mk.inj made
    exact ⟨.refl _ _, rooted⟩
  | cons piece rest ih =>
    have split : done ++ piece :: rest = done ++ [piece] ++ rest := by simp
    have goes {disk' : Disk} {next : Location} (same : disk'.walk [] done = .ok place)
        (next' : disk'.walk place [piece] = .ok next) :
        disk'.walk [] (done ++ [piece]) = .ok next := by rw [walk_append, same]; exact next'
    rw [makeWay] at made
    rw [split]
    split at made
    · rename_i idle
      exact ih rooted (goes walked (walk_idle here (by simpa using idle))) here made
    · rename_i busy
      split at made
      · rename_i up
        refine ih rooted (goes walked ?_) (rooted.dropLast here) made
        rw [walk, here]
        simp only [up, if_true]
        rfl
      · rename_i down
        have plain : Plain piece := ⟨by simpa using busy, down⟩
        split at made
        · obtain ⟨-, rfl⟩ := Prod.mk.inj made
          exact ⟨.refl _ _, rooted⟩
        · rename_i short
          have next : disk.walk place [piece] = .ok (place ++ [piece]) := by
            rw [walk_plain plain, here]
            exact if_neg short
          split at made
          · rename_i there
            exact ih rooted (goes walked next) there made
          · obtain ⟨-, rfl⟩ := Prod.mk.inj made
            exact ⟨.refl _ _, rooted⟩
          · rename_i vacant
            have paved : Paves (done ++ [piece] ++ rest) disk
                (disk.set (place ++ [piece]) .directory) :=
              .of_set (List.prefix_append _ _) vacant (goes walked next)
            obtain ⟨more, still⟩ := ih (rooted.set here vacant _) (paved.walk (goes walked next))
              (get?_set_self (by simp) _ _) made
            exact ⟨paved.trans more, still⟩

theorem paves_mkdirUnlessThere (rooted : disk.Rooted)
    (made : mkdirUnlessThere path disk = (result, after)) :
    Paves path.pieces disk after ∧ after.Rooted := by
  unfold mkdirUnlessThere at made
  cases first : disk.mkdir path with
  | error cause =>
    simp only [first, Prod.mk.injEq] at made
    obtain ⟨-, rfl⟩ := made
    exact ⟨.refl _ _, rooted⟩
  | ok final =>
    simp only [first, Prod.mk.injEq] at made
    obtain ⟨-, rfl⟩ := made
    obtain ⟨parent, name, -, walked, here, vacant, rfl⟩ := mkdir_eq_ok rooted first
    exact ⟨.of_set path.trimmed_prefix vacant walked, rooted.set here vacant _⟩

/-- Making a directory and those above it that are missing does nothing else, whether it succeeds
or not. -/
theorem paves_mkdirAll (rooted : disk.Rooted) (made : mkdirAll path disk = (result, after)) :
    Paves path.pieces disk after ∧ after.Rooted := by
  unfold mkdirAll at made
  split at made
  · rcases way : makeWay [] path.above disk with ⟨cause | ⟨⟩, paved⟩
    all_goals
      simp only [way] at made
      have outset : disk.walk [] [] = .ok [] := rfl
      obtain ⟨first, still⟩ := paves_makeWay rooted outset (get?_root disk) way
      have begun := first.mono path.above_prefix
    · obtain ⟨-, rfl⟩ := Prod.mk.inj made
      exact ⟨begun, still⟩
    · obtain ⟨more, last⟩ := paves_mkdirUnlessThere still made
      exact ⟨begun.trans more, last⟩
  · exact paves_mkdirUnlessThere rooted made

/-- A directory that was made with all those above it is there. -/
theorem exists_lookup_of_mkdirAll (rooted : disk.Rooted)
    (made : mkdirAll path disk = (.ok (), after)) :
    ∃ place, after.lookup path = .ok (place, .directory) := by
  have stands {disk : Disk} (rooted : disk.Rooted)
      (made : mkdirUnlessThere path disk = (.ok (), after)) :
      ∃ place, after.lookup path = .ok (place, .directory) := by
    unfold mkdirUnlessThere at made
    cases first : disk.mkdir path with
    | ok final =>
      simp only [first, Prod.mk.injEq, true_and] at made
      subst made
      obtain ⟨place, found, -⟩ := lookup_of_mkdir rooted first
      exact ⟨place, found⟩
    | error cause =>
      simp only [first, Prod.mk.injEq] at made
      obtain ⟨there, rfl⟩ := made
      split at there
      · rename_i known
        unfold isDirectory at known
        split at known
        · rename_i place found
          exact ⟨place, found⟩
        · cases known
      · cases there
  unfold mkdirAll at made
  split at made
  · rcases way : makeWay [] path.above disk with ⟨cause | ⟨⟩, paved⟩
    · simp [way] at made
    · simp only [way] at made
      have outset : disk.walk [] [] = .ok [] := rfl
      exact stands (paves_makeWay rooted outset (get?_root disk) way).2 made
  · exact stands rooted made

/-! ## Taking a tree away -/

end Wavefront.Disk
