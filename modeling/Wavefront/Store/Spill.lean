/-
# Pages kept in a directory

Pages that exceed the memory budget are spilled to files in one directory. The
directory is told apart from its other contents by names alone: a page file is
one or more ASCII digits followed by `.pq`, with a further `.tmp` while it is being
written. A directory is cleared of page files before it is used, because those
belong to somebody else's pages.
-/

import Wavefront.Page

namespace Wavefront

/-- What is left of a list when another one is cut off its end. -/
def cutEnd? {α : Type} [BEq α] (tail whole : List α) : Option (List α) :=
  if tail.isSuffixOf whole then some (whole.take (whole.length - tail.length)) else none

/-- A directory that pages are spilled to. -/
structure Spill where
  directory : Path
deriving DecidableEq, Repr

namespace Spill

variable {σ : Type}

/-- Whether a name is that of a page file, whole or still being written. -/
def isPageFile (name : String) : Bool :=
  let cs := name.toList
  let stem := (cutEnd? ['.', 't', 'm', 'p'] cs).getD cs
  match cutEnd? ['.', 'p', 'q'] stem with
  | none => false
  | some digits => !digits.isEmpty && digits.all Char.isDigit

/-- Whether a name has the extension of a whole page file. A leading dot begins a
name, not an extension. -/
def hasPageExtension (name : String) : Bool :=
  match cutEnd? ['.', 'p', 'q'] name.toList with
  | none => false
  | some stem => !stem.isEmpty

/-- Remove files one by one; those that are gone already are no matter. -/
def removeFiles (directory : Path) : List String → Disk → Except Failure Unit × Disk
  | [], disk => (.ok (), disk)
  | name :: rest, disk =>
      let path := directory.child name
      match disk.remove path with
      | .ok disk => removeFiles directory rest disk
      | .error .notFound => removeFiles directory rest disk
      | .error cause => (.error (.pageWrite path (.io cause)), disk)

/-- Drop every page file; the answer is how many there were. -/
def clear (spill : Spill) (disk : Disk) : Except Failure Nat × Disk :=
  match disk.children spill.directory with
  | .error cause => (.error (.io cause), disk)
  | .ok names =>
      let files := names.filter isPageFile
      match removeFiles spill.directory files disk with
      | (.error failure, disk) => (.error failure, disk)
      | (.ok (), disk) => (.ok files.length, disk)

/-- Use a directory for page files, making it if needed and clearing it of old ones. -/
def establish (directory : Path) (disk : Disk) : Except Failure Spill × Disk :=
  match Disk.mkdirAll directory disk with
  | (.error cause, disk) => (.error (.io cause), disk)
  | (.ok (), disk) =>
      match clear ⟨directory⟩ disk with
      | (.error failure, disk) => (.error failure, disk)
      | (.ok _, disk) => (.ok ⟨directory⟩, disk)

/-- Keep a page until it is taken. -/
def put (spill : Spill) (model : Model σ) (page : Page σ) (disk : Disk) :
    Except Failure Unit × Disk :=
  match page.write model spill.directory disk with
  | (.error failure, disk) => (.error failure, disk)
  | (.ok _, disk) => (.ok (), disk)

/-- Take a page out, if it is there. -/
def take (spill : Spill) (model : Model σ) (id : PageId) (capacity : Nat) (disk : Disk) :
    Except Failure (Option (Page σ)) × Disk :=
  let path := spill.directory.child (Page.fileName id)
  if disk.exists? path then
    match Page.read model path id capacity disk with
    | (.error failure, disk) => (.error failure, disk)
    | (.ok page, disk) => (.ok (some page), disk)
  else (.ok none, disk)

/-- The number of page files that are whole; a directory that cannot be read has none. -/
def resident (spill : Spill) (disk : Disk) : Nat :=
  match disk.children spill.directory with
  | .error _ => 0
  | .ok names => (names.filter hasPageExtension).length

end Spill

end Wavefront
