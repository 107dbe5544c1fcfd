/-
# A disk

The part of a file system that exploration touches: directories, and files with
their bytes. A disk is a finite map from locations to entries; the root is always
a directory and is not an entry. Every operation either fails with a cause and
changes nothing, or succeeds; the one exception is `mkdirAll`, whose completed
steps stay when a later one fails.

A file has a stamp that no other file of the disk ever had. An open file is
known by its location and stamp, so what is written through it after the file was
removed or replaced goes nowhere.
-/

import Std.Data.ExtTreeMap
import Wavefront.Bytes
import Wavefront.IoError

namespace Wavefront

/-- The names that lead from the root to an entry. -/
abbrev Location := List String

/-- What a location holds. -/
inductive Entry where
  | directory
  | file (stamp : Nat) (bytes : Bytes)
deriving DecidableEq, Repr

/-- A finite tree of directories and files. -/
structure Disk where
  entries : Std.ExtTreeMap Location Entry
  /-- The stamp of the next file to be made. -/
  nextStamp : Nat
  /-- The longest path that is followed, in bytes. -/
  pathLimit : Nat

namespace Disk

/-- A file that is open for writing. -/
structure Handle where
  place : Location
  stamp : Nat
deriving DecidableEq, Repr

/-- The longest path that is followed on a disk that nothing surrounds. -/
def standardPathLimit : Nat := 4095

/-- The disk that holds nothing. -/
def empty : Disk := ⟨∅, 0, standardPathLimit⟩

instance : Inhabited Disk := ⟨empty⟩

/-- The entry at a location; the root is a directory. -/
def get? (disk : Disk) (place : Location) : Option Entry :=
  match place with
  | [] => some .directory
  | _ => disk.entries[place]?

/-- Put an entry at a location. -/
def set (disk : Disk) (place : Location) (entry : Entry) : Disk :=
  { disk with entries := disk.entries.insert place entry }

/-- Take the entry away from a location. -/
def unset (disk : Disk) (place : Location) : Disk :=
  { disk with entries := disk.entries.erase place }

/-! ## From paths to locations -/

/-- The longest name that a directory entry can hold, in bytes. -/
def nameLimit : Nat := 255

/-- Follow pieces of a path from a location. Whatever is followed must start from
a directory that exists; the last location need not exist. -/
def walk (disk : Disk) : Location → List String → Except IoError Location
  | place, [] => .ok place
  | place, piece :: rest =>
      match disk.get? place with
      | none => .error .notFound
      | some (.file ..) => .error .notADirectory
      | some .directory =>
          if Path.isIdle piece then disk.walk place rest
          else if piece = ".." then disk.walk place.dropLast rest
          else if nameLimit < piece.utf8ByteSize then .error .nameTooLong
          else disk.walk (place ++ [piece]) rest

/-- Refuse a path whose text will not do, whatever the disk holds. -/
def check (disk : Disk) (path : Path) : Except IoError Unit :=
  if path.hasNul then .error .nulInName
  else if disk.pathLimit < path.byteSize then .error .nameTooLong
  else .ok ()

/-- The location that a path leads to. -/
def locate (disk : Disk) (path : Path) : Except IoError Location := do
  disk.check path
  disk.walk [] path.pieces

/-- The entry that a path leads to. -/
def lookup (disk : Disk) (path : Path) : Except IoError (Location × Entry) := do
  let place ← disk.locate path
  match disk.get? place with
  | none => .error .notFound
  | some entry => .ok (place, entry)

/-- Whether a path leads to anything. -/
def exists? (disk : Disk) (path : Path) : Bool := (disk.lookup path).toBool

/-! ## Directories -/

/-- Make one directory. Slashes at the end of its path are no matter. -/
def mkdir (disk : Disk) (path : Path) : Except IoError Disk := do
  disk.check path
  let place ← disk.walk [] path.trimmed
  match disk.get? place with
  | some _ => .error .alreadyExists
  | none => .ok (disk.set place .directory)

/-- Whether a path leads to a directory. -/
def isDirectory (disk : Disk) (path : Path) : Bool :=
  match disk.lookup path with
  | .ok (_, .directory) => true
  | _ => false

/-- Make a directory, unless there is one already. -/
def mkdirUnlessThere (path : Path) (disk : Disk) : Except IoError Unit × Disk :=
  match disk.mkdir path with
  | .ok made => (.ok (), made)
  | .error cause => (if disk.isDirectory path then .ok () else .error cause, disk)

/-- Follow pieces of a path from a directory and make every directory on the way that is
missing. What is made before something else gets in the way stays. -/
def makeWay : Location → List String → Disk → Except IoError Unit × Disk
  | _, [], disk => (.ok (), disk)
  | place, piece :: rest, disk =>
      if Path.isIdle piece then makeWay place rest disk
      else if piece = ".." then makeWay place.dropLast rest disk
      else if nameLimit < piece.utf8ByteSize then (.error .nameTooLong, disk)
      else
        match disk.get? (place ++ [piece]) with
        | some .directory => makeWay (place ++ [piece]) rest disk
        | some (.file ..) => (.error .alreadyExists, disk)
        | none => makeWay (place ++ [piece]) rest (disk.set (place ++ [piece]) .directory)

/-- Make a directory, and if something above it is missing, make that first and try once more.
A directory that exists already is as good as a new one. A dot at the end of the path needs a
directory before it that exists already. -/
def mkdirAll (path : Path) (disk : Disk) : Except IoError Unit × Disk :=
  match disk.mkdir path with
  | .error .notFound =>
      match makeWay [] path.above disk with
      | (.error cause, made) => (.error cause, made)
      | (.ok (), made) => mkdirUnlessThere path made
  | _ => mkdirUnlessThere path disk

/-- The names in a directory, in ascending order. -/
def children (disk : Disk) (path : Path) : Except IoError (List String) := do
  match ← disk.lookup path with
  | (_, .file ..) => .error .notADirectory
  | (place, .directory) =>
      .ok (disk.entries.toList.filterMap fun (other, _) =>
        if other.dropLast = place then other.getLast? else none)

/-- Everything under a location, with the names that lead there from it. -/
def below (disk : Disk) (place : Location) : List (Location × Entry) :=
  disk.entries.toList.filterMap fun (other, entry) =>
    if place.isPrefixOf other ∧ other ≠ place then some (other.drop place.length, entry) else none

/-- Take away a location and everything under it. -/
def removeTree (disk : Disk) (place : Location) : Disk :=
  { disk with entries := disk.entries.filter fun other _ => !place.isPrefixOf other }

/-! ## Files -/

/-- The bytes of the file that a path leads to. -/
def read (disk : Disk) (path : Path) : Except IoError Bytes := do
  match ← disk.lookup path with
  | (_, .directory) => .error .isADirectory
  | (_, .file _ bytes) => .ok bytes

/-- Make a file empty, creating it if needed, and open it for writing. -/
def create (disk : Disk) (path : Path) : Except IoError (Handle × Disk) := do
  let place ← disk.locate path
  match disk.get? place with
  | some .directory => .error .isADirectory
  | some (.file stamp _) => .ok (⟨place, stamp⟩, disk.set place (.file stamp []))
  | none =>
      .ok (⟨place, disk.nextStamp⟩,
        { disk.set place (.file disk.nextStamp []) with nextStamp := disk.nextStamp + 1 })

/-- Lay bytes over others from a position on; a gap in between is filled with zeros. -/
def overlay (old : Bytes) (position : Nat) (new : Bytes) : Bytes :=
  old.take position ++ List.replicate (position - old.length) 0 ++ new ++
    old.drop (position + new.length)

/-- Write into an open file at a position. -/
def writeAt (disk : Disk) (handle : Handle) (position : Nat) (bytes : Bytes) : Disk :=
  match disk.get? handle.place with
  | some (.file stamp old) =>
      if stamp = handle.stamp then
        disk.set handle.place (.file stamp (overlay old position bytes))
      else disk
  | _ => disk

/-- Make a file with the given bytes in a directory that exists, in place of a file that is
there. -/
def provide (disk : Disk) (path : Path) (bytes : Bytes) : Except IoError Disk := do
  let (handle, made) ← disk.create path
  return made.writeAt handle 0 bytes

/-- Put bytes at the end of the file that a path leads to. -/
def append (disk : Disk) (path : Path) (bytes : Bytes) : Except IoError Disk := do
  match ← disk.lookup path with
  | (_, .directory) => .error .isADirectory
  | (place, .file stamp old) => .ok (disk.set place (.file stamp (old ++ bytes)))

/-- Give a file another name, replacing a file that had it. -/
def rename (disk : Disk) (source target : Path) : Except IoError Disk := do
  let (origin, entry) ← disk.lookup source
  let place ← disk.locate target
  match disk.get? place with
  | some .directory => .error .isADirectory
  | _ => .ok ((disk.unset origin).set place entry)

/-- Remove a file. -/
def remove (disk : Disk) (path : Path) : Except IoError Disk := do
  match ← disk.lookup path with
  | (_, .directory) => .error .isADirectory
  | (place, .file ..) => .ok (disk.unset place)

/-! ## What a change leaves alone -/

@[simp]
theorem get?_root (disk : Disk) : disk.get? [] = some .directory := rfl

@[simp]
theorem get?_set_self {place : Location} (below : place ≠ []) (disk : Disk) (entry : Entry) :
    (disk.set place entry).get? place = some entry := by
  cases place with
  | nil => exact absurd rfl below
  | cons name rest => simp [get?, set]

theorem get?_set_of_ne {place other : Location} (apart : place ≠ other) (disk : Disk)
    (entry : Entry) : (disk.set place entry).get? other = disk.get? other := by
  cases other with
  | nil => rfl
  | cons name rest => simp [get?, set, Std.ExtTreeMap.getElem?_insert, apart]

@[simp]
theorem get?_unset_self {place : Location} (below : place ≠ []) (disk : Disk) :
    (disk.unset place).get? place = none := by
  cases place with
  | nil => exact absurd rfl below
  | cons name rest => simp [get?, unset]

theorem get?_unset_of_ne {place other : Location} (apart : place ≠ other) (disk : Disk) :
    (disk.unset place).get? other = disk.get? other := by
  cases other with
  | nil => rfl
  | cons name rest => simp [get?, unset, Std.ExtTreeMap.getElem?_erase, apart]

end Disk

end Wavefront
