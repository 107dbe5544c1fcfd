/-
# Pages

A page is a bounded batch of nodes with a number of its own. It is filled by one
worker, kept in memory or in a file while it waits, and consumed by one worker.

In a file a page is its node count in four bytes followed by its nodes. The file
is written under a temporary name and renamed when it is whole, so whoever looks
for the page sees either nothing or all of it. Reading a page removes its file; a
file that is no image of a page is left as it was.
-/

import Wavefront.Disk.Plan
import Wavefront.Node

namespace Wavefront

/-- The number of a page. Numbers are handed out from 1 upwards. -/
abbrev PageId := Nat

/-- A batch of nodes that holds at most `capacity` of them. -/
structure Page (σ : Type) where
  id : PageId
  capacity : Nat
  nodes : Array (Node σ)

namespace Page

variable {σ : Type}

/-- A page that holds nothing yet. -/
def empty (id : PageId) (capacity : Nat) : Page σ := ⟨id, capacity, #[]⟩

/-- The number of nodes in a page. -/
def size (page : Page σ) : Nat := page.nodes.size

/-- Whether a page holds nothing. -/
def isEmpty (page : Page σ) : Bool := page.nodes.isEmpty

/-- Whether a page holds as many nodes as it may. -/
def isFull (page : Page σ) : Bool := page.size == page.capacity

/-- Put a node at the end of a page that has room. -/
def add (page : Page σ) (node : Node σ) : Except Fault (Page σ) :=
  if page.size < page.capacity then .ok { page with nodes := page.nodes.push node }
  else .error (.pageOverflow page.id page.capacity)

/-! ## Files -/

/-- The name of the file that holds a page. -/
def fileName (id : PageId) : String := toString id ++ ".pq"

/-- The name of the file that a page is written to before it is whole. -/
def temporaryName (id : PageId) : String := toString id ++ ".pq.tmp"

/-- The largest node count that a page file can state. -/
def countLimit : Nat := 0x100000000

/-- The bytes of a list of nodes, up to the first that refuses to be written. -/
def encodeNodes (model : Model σ) (nodes : List (Node σ)) : Written :=
  nodes.foldr (fun node rest => (node.encode model).append rest) (.ofBytes [])

/-- The bytes of a page: its node count and its nodes. -/
def image (model : Model σ) (page : Page σ) : Written :=
  (Written.ofBytes (Bytes.ofNat 4 page.size)).append (encodeNodes model page.nodes.toList)

/-- The steps that end the writing of a page whose bytes are in the temporary file: they are
brought to the medium, and the file gets the name of the page. If a node refused to be written,
the temporary file is left behind. -/
def closingPlan (model : Model σ) (page : Page σ) (directory : Path) : Plan :=
  let temporary := directory.child (temporaryName page.id)
  match (page.image model).refusal with
  | some cause => [.refuse temporary cause]
  | none => [.sync temporary, .rename temporary (directory.child (fileName page.id))]

/-- The steps that write a page into a directory and make it visible under its own name. -/
def writePlan (model : Model σ) (page : Page σ) (directory : Path) : Plan :=
  let temporary := directory.child (temporaryName page.id)
  .create temporary :: .append temporary (page.image model).bytes ::
    page.closingPlan model directory

/-- Write a page into a directory and make it visible under its own name. -/
def write (model : Model σ) (page : Page σ) (directory : Path) (disk : Disk) :
    Except Failure Path × Disk :=
  if countLimit ≤ page.size then
    (.error (.pageWrite (directory.child (temporaryName page.id)) (.io .countTooLarge)), disk)
  else
    match (page.writePlan model directory).perform disk with
    | (.error (path, cause), disk) => (.error (.pageWrite path (.io cause)), disk)
    | (.ok (), disk) => (.ok (directory.child (fileName page.id)), disk)

/-- Read so many nodes; `index` counts those read before, out of `count`. -/
def decodeNodes (model : Model σ) (count : Nat) :
    (index todo : Nat) → Bytes → Except Reason (List (Node σ) × Bytes)
  | _, 0, input => .ok ([], input)
  | index, todo + 1, input =>
      match Node.decode model input with
      | .error cause => .error (.node index count cause)
      | .ok (node, rest) =>
          match decodeNodes model count (index + 1) todo rest with
          | .error reason => .error reason
          | .ok (nodes, rest) => .ok (node :: nodes, rest)

/-- The page that an image holds; bytes after the last node are ignored. -/
def ofImage (model : Model σ) (id : PageId) (capacity : Nat) (input : Bytes) :
    Except Reason (Page σ) :=
  match Bytes.take? 4 input with
  | none => .error (.io .endOfInput)
  | some (word, rest) =>
      let count := Bytes.toNat word
      if count = 0 ∨ capacity < count then .error (.nodeCount id count capacity)
      else
        match decodeNodes model count 0 count rest with
        | .error reason => .error reason
        | .ok (nodes, _) => .ok ⟨id, capacity, nodes.toArray⟩

/-- Read a page and remove its file. -/
def read (model : Model σ) (path : Path) (id : PageId) (capacity : Nat) (disk : Disk) :
    Except Failure (Page σ) × Disk :=
  match disk.read path with
  | .error cause => (.error (.pageRead path (.io cause)), disk)
  | .ok bytes =>
      match ofImage model id capacity bytes with
      | .error reason => (.error (.pageRead path reason), disk)
      | .ok page =>
          match disk.remove path with
          | .error cause => (.error (.pageRead path (.io cause)), disk)
          | .ok disk => (.ok page, disk)

/-- Adding succeeds exactly on a page with room, and puts the node last. -/
theorem add_eq_ok_iff {page grown : Page σ} {node : Node σ} :
    page.add node = .ok grown ↔
      page.size < page.capacity ∧ grown = { page with nodes := page.nodes.push node } := by
  unfold add
  split
  · rename_i room
    simp [room, eq_comm]
  · rename_i full
    simp [full]

@[simp]
theorem encodeNodes_nil (model : Model σ) : encodeNodes model [] = .ofBytes [] := rfl

@[simp]
theorem encodeNodes_cons (model : Model σ) (node : Node σ) (nodes : List (Node σ)) :
    encodeNodes model (node :: nodes) = (node.encode model).append (encodeNodes model nodes) := rfl

end Page

end Wavefront
